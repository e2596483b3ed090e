import Bitcoin.Proofs.Transaction.Commitment

/-!
# The Transaction That Is Signed

The bytes under a signature are put together field by field, with the counts of what is
kept and with zeros and empty scripts where something is left out. No transaction is ever
built for them. They are the bytes of one nevertheless: of the spending transaction after
a few edits, with the word of the type behind it.

The edits are stated here for whole lists, as one would make them by hand. Scripts are
taken out of all inputs and what is left of the code is put into the signed one, sequence
numbers are set to zero, inputs and outputs are cut off. What the type asks for is read off
its bits, and what is left of the code is known by its chunks. The edits can be made whatever
the type is and whether or not there is such an input. The bytes are only there where the
signed input is, and the output that a type may want.

## Main definitions

* `SigHash.editInputs`, `SigHash.editOutputs`: The edits of both lists.
* `SigHash.edit`: The transaction after the edits.

## Theorems

* `SigHash.editInputs_eq`, `SigHash.editOutputs_eq`: The edits give the lists of the copy.
* `SigHash.preimage?_eq_encode`: The bytes under a signature, and when there are any.
-/

namespace Bitcoin.SigHash

/-- An input after the edits. -/
def editInput (index : Nat) (code : Script) (type : SigHashType) (position : Nat) (input : TxIn) :
    TxIn :=
  if position = index then { input with unlocking := code }
  else { input with
    unlocking := .empty
    sequence := if type.SignsNoOutput ∨ type.SignsOneOutput then 0 else input.sequence }

/-- The inputs after the edits: all of them, or the signed one alone. -/
def editInputs (index : Nat) (code : Script) (type : SigHashType) (inputs : List TxIn) :
    List TxIn :=
  let inputs := inputs.mapIdx (editInput index code type)
  if type.SignsOneInput then inputs[index]?.toList else inputs

/-- The outputs after the edits: none of them, or those up to the one that is wanted with
    blanks in front of it, or all of them. -/
def editOutputs (index : Nat) (type : SigHashType) (outputs : List TxOut) : List TxOut :=
  if type.SignsNoOutput then []
  else if type.SignsOneOutput then
    (outputs.take (index + 1)).mapIdx fun position output =>
      if position < index then { satoshis := 0xffffffffffffffff, locking := .empty } else output
  else outputs

/-- The transaction after the edits for a signature of the numbered input, where the script is
    what is left of the script code. -/
def edit (tx : Transaction) (index : Nat) (code : Script) (type : SigHashType) : Transaction :=
  { tx with
    inputs := editInputs index code type tx.inputs
    outputs := editOutputs index type tx.outputs }

variable {tx : Transaction} {index : Nat} {code : Script} {type : SigHashType}

/-- With everything out of the way but the signed input, the edited inputs are those of the
    copy. -/
theorem editInputs_eq {inputs : List TxIn} {input : TxIn} (h : inputs[index]? = some input) :
    editInputs index code type inputs = copyInputs inputs index code type input := by
  have hlt : index < inputs.length := (List.getElem?_eq_some_iff.mp h).1
  have hall : inputs.mapIdx (editInput index code type) =
      (inputs.map (coverInput type)).set index { input with unlocking := code } :=
    mapIdx_eq_set h (fun input => ({ input with unlocking := code } : TxIn)) (coverInput type)
  unfold editInputs copyInputs
  rw [hall]
  by_cases hany : type.SignsOneInput
  · rw [if_pos hany, if_pos hany, List.getElem?_set_self (by simpa using hlt)]
    rfl
  · rw [if_neg hany, if_neg hany]

-- The low five bits are not both a two and a three.
theorem not_signsNoOutput (h : type.SignsOneOutput) : ¬type.SignsNoOutput := by
  unfold SigHashType.SignsOneOutput at h
  unfold SigHashType.SignsNoOutput
  omega

/-- Blanks one by one are as many blanks as there are outputs in front of the one that is
    wanted. -/
theorem mapIdx_blank {outputs : List TxOut} {output : TxOut} (h : outputs[index]? = some output) :
    ((outputs.take (index + 1)).mapIdx fun position output =>
      if position < index then blankOutput else output)
      = List.replicate index blankOutput ++ [output] := by
  rcases List.getElem?_eq_some_iff.mp h with ⟨hlt, rfl⟩
  have hlength : (outputs.take index).length = index := List.length_take_of_le (Nat.le_of_lt hlt)
  have hblank : ((outputs.take index).mapIdx fun position output =>
      if position < index then blankOutput else output) = List.replicate index blankOutput := by
    conv_rhs => rw [← hlength]
    refine List.mapIdx_eq_replicate_iff.mpr fun position hposition => if_pos ?_
    rwa [← hlength]
  rw [List.take_succ_eq_append_getElem hlt, List.mapIdx_concat, hblank, hlength,
    if_neg (Nat.lt_irrefl index)]

/-- Where nothing is missing that the type wants, the edited outputs are those of the copy. -/
theorem editOutputs_eq {outputs : List TxOut}
    (h : committedOutputs? tx index type = some outputs) :
    editOutputs index type tx.outputs = blankOutputs index type ++ outputs := by
  unfold committedOutputs? at h
  unfold editOutputs blankOutputs
  by_cases hsingle : type.SignsOneOutput
  · rw [if_pos hsingle] at h
    rcases Option.map_eq_some_iff.mp h with ⟨output, hfound, rfl⟩
    -- A type that signs one output does not sign none.
    rw [if_neg (not_signsNoOutput hsingle), if_pos hsingle, if_pos hsingle]
    exact mapIdx_blank hfound
  · rw [if_neg hsingle] at h
    rw [if_neg hsingle, if_neg hsingle, List.nil_append]
    by_cases hnone : type.SignsNoOutput
    · rw [if_pos hnone] at h ⊢
      exact Option.some.inj h
    · rw [if_neg hnone] at h ⊢
      exact Option.some.inj h

/-- The bytes under a signature are those of the edited transaction, with the four bytes of
    the type behind them. The one script that is put into it is what is left of the script
    code without its separators. There are no such bytes exactly if there is no such input, or
    the type wants the output of that number and there is no such output. -/
theorem preimage?_eq_encode (tx : Transaction) (index : Nat) (code : Script)
    (type : SigHashType) :
    ∃ kept, (∀ script, code.Strips script ↔ script = kept) ∧
      preimage? tx index code type =
        if tx.inputs.length ≤ index ∨ (type.SignsOneOutput ∧ tx.outputs.length ≤ index) then none
        else some ((edit tx index kept type).encode ++ Bytes.fixedLE 4 type.bits.toNat) := by
  refine ⟨_, fun _ => Script.strips_iff, ?_⟩
  rcases hinput : tx.inputs[index]? with _ | input
  · have hmissing := List.getElem?_eq_none_iff.mp hinput
    rw [if_pos (.inl hmissing), preimage?, hinput]
    rfl
  · have hfound := Nat.not_le_of_lt (List.getElem?_eq_some_iff.mp hinput).1
    rw [preimage?_of_input hinput]
    rcases houtputs : committedOutputs? tx index type with _ | outputs
    · rw [if_pos (.inr (committedOutputs?_eq_none.mp houtputs))]
      rfl
    · have hwanted : ¬(type.SignsOneOutput ∧ tx.outputs.length ≤ index) := by
        rw [← committedOutputs?_eq_none, houtputs]
        exact Option.some_ne_none outputs
      -- With nothing missing, the edits come to the copy.
      have hedit : edit tx index code.withoutSeparators type
          = copy tx index code.withoutSeparators type input outputs := by
        unfold edit copy
        rw [editInputs_eq hinput, editOutputs_eq houtputs]
      rw [if_neg (not_or_intro hfound hwanted), hedit]
      rfl

/-- The second of two inputs, signed alone and with the second of three outputs only. -/
example :
    let a : TxIn := ⟨.zero, 0, ⟨[0x51]⟩, 7⟩
    let b : TxIn := ⟨.zero, 1, ⟨[0x51]⟩, 5⟩
    edit { inputs := [a, b], outputs := [⟨1, .empty⟩, ⟨2, .empty⟩, ⟨3, .empty⟩] } 1 ⟨[0xac]⟩
        (.union .single .anyoneCanPay)
      = { inputs := [⟨.zero, 1, ⟨[0xac]⟩, 5⟩], outputs := [blankOutput, ⟨2, .empty⟩] } := by
  decide +kernel

end Bitcoin.SigHash
