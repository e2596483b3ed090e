import Bitcoin.Proofs.Wire.SelfDelimiting
import Bitcoin.Transaction.Basic

/-!
# The Bytes of a Transaction Show Its Parts

Words have a width, scripts and lists stand behind their lengths, so a transaction
shows where each of its parts ends, and two transactions with the same bytes are
the same.

What has to be assumed is that lengths are words, which holds of everything that a
machine can store.

## Main definitions

* `IsWordLength`: A length that is a word.
* `Transaction.Sized`: All lists and scripts have lengths that are words.

## Theorems

* `SelfDelimiting.word`, `SelfDelimiting.list`: Words and lists.
* `TxIn.selfDelimiting_encode`, `TxOut.selfDelimiting_encode`: The items of the lists.
* `Transaction.selfDelimiting_encode`: Whole transactions.
-/

namespace Bitcoin

/-- A length that is a word. -/
def IsWordLength (n : Nat) : Prop :=
  n < 2 ^ 64

instance (n : Nat) : Decidable (IsWordLength n) :=
  inferInstanceAs (Decidable (n < 2 ^ 64))

namespace SelfDelimiting

-- Words, identifiers: what has a width shows where it ends.
theorem word : SelfDelimiting (fun _ => True) encodeWord := by
  refine of_length (fun _ => Bytes.length_fixedLE _ _) fun a b _ _ h => ?_
  exact UInt32.toNat_inj.mp (Bytes.fixedLE_inj a.toNat_lt b.toNat_lt h)

theorem wideWord :
    SelfDelimiting (fun _ => True) (fun word : UInt64 => Bytes.fixedLE 8 word.toNat) := by
  refine of_length (fun _ => Bytes.length_fixedLE _ _) fun a b _ _ h => ?_
  exact UInt64.toNat_inj.mp (Bytes.fixedLE_inj a.toNat_lt b.toNat_lt h)

theorem txId : SelfDelimiting (fun _ => True) TxId.bytes := by
  refine of_length (fun id => id.hash.length_bytes) ?_
  rintro ⟨⟨a, ha⟩⟩ ⟨⟨b, hb⟩⟩ _ _ h
  cases h
  rfl

-- Scripts, lists: what stands behind its length does so too.
theorem script : SelfDelimiting (fun script : Script => IsWordLength script.length)
    (fun script => Item.encodeBlock script.bytes) := by
  rintro ⟨a⟩ ⟨b⟩ r s ha hb heq
  rcases block ha hb heq with ⟨rfl, hrest⟩
  exact ⟨rfl, hrest⟩

/-- A count in front makes a list of items self-delimiting. -/
theorem list {α : Type} {valid : α → Prop} {encode : α → Bytes}
    (h : SelfDelimiting valid encode) :
    SelfDelimiting (fun xs => IsWordLength xs.length ∧ ∀ x ∈ xs, valid x) (encodeList encode) := by
  intro xs ys r s hx hy heq
  rw [encodeList, encodeList, List.append_assoc, List.append_assoc] at heq
  rcases length hx.1 hy.1 heq with ⟨hlength, hitems⟩
  exact h.flatMap hlength hx.2 hy.2 hitems

end SelfDelimiting

/-- Inputs show where they end. -/
theorem TxIn.selfDelimiting_encode :
    SelfDelimiting (fun input : TxIn => IsWordLength input.unlocking.length) encode := by
  rintro ⟨id, vout, unlocking, sequence⟩ ⟨id', vout', unlocking', sequence'⟩ r s h h' heq
  simp only [encode, List.append_assoc] at heq
  -- Part by part, each of which is found to be the same before the next one is looked at.
  rcases SelfDelimiting.txId trivial trivial heq with ⟨rfl, hvout⟩
  rcases SelfDelimiting.word trivial trivial hvout with ⟨rfl, hscript⟩
  rcases SelfDelimiting.script h h' hscript with ⟨rfl, hsequence⟩
  rcases SelfDelimiting.word trivial trivial hsequence with ⟨rfl, hrest⟩
  exact ⟨rfl, hrest⟩

theorem TxOut.selfDelimiting_encode :
    SelfDelimiting (fun output : TxOut => IsWordLength output.locking.length) encode := by
  rintro ⟨satoshis, locking⟩ ⟨satoshis', locking'⟩ r s h h' heq
  simp only [encode, List.append_assoc] at heq
  rcases SelfDelimiting.wideWord trivial trivial heq with ⟨rfl, hscript⟩
  rcases SelfDelimiting.script h h' hscript with ⟨rfl, hrest⟩
  exact ⟨rfl, hrest⟩

namespace Transaction

/-- All lists and scripts have lengths that are words. -/
structure Sized (tx : Transaction) : Prop where
  inputs : IsWordLength tx.inputs.length
  unlocking : ∀ input ∈ tx.inputs, IsWordLength input.unlocking.length
  outputs : IsWordLength tx.outputs.length
  locking : ∀ output ∈ tx.outputs, IsWordLength output.locking.length

/-- Transactions show where they end. -/
theorem selfDelimiting_encode : SelfDelimiting Sized encode := by
  rintro ⟨version, inputs, outputs, lockTime⟩ ⟨version', inputs', outputs', lockTime'⟩ r s h h' heq
  simp only [encode, List.append_assoc] at heq
  rcases SelfDelimiting.word trivial trivial heq with ⟨rfl, hinputs⟩
  rcases TxIn.selfDelimiting_encode.list ⟨h.inputs, h.unlocking⟩ ⟨h'.inputs, h'.unlocking⟩ hinputs
    with ⟨rfl, houtputs⟩
  rcases TxOut.selfDelimiting_encode.list ⟨h.outputs, h.locking⟩ ⟨h'.outputs, h'.locking⟩ houtputs
    with ⟨rfl, hlockTime⟩
  rcases SelfDelimiting.word trivial trivial hlockTime with ⟨rfl, hrest⟩
  exact ⟨rfl, hrest⟩

end Transaction

end Bitcoin
