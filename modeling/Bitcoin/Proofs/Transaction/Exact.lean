import Bitcoin.Proofs.Transaction.Encoding
import Bitcoin.Proofs.Wire.Exact
import Bitcoin.Transaction.Reading
import Mathlib.Algebra.Order.BigOperators.Group.List

/-!
# Exactly the Bytes of a Transaction

Reading a transaction undoes writing it and accepts nothing else. It comes down to the
same fact about each of its parts, since a sequence of exact readers is taken apart from
the front.

Only the lists have more to say. Their count is refused if what is left is too short for
so many items, and the items are then not looked at. No list that has been written is
refused in this way, because each item takes as many bytes as the smallest one.

## Main definitions

* `TxReader.list`: A count, and then so many items.

## Theorems

* `TxReader.exact_list`: The guard of a count refuses no list that has been written.
* `TxIn.exact_read`, `TxOut.exact_read`: The items of the lists.
* `Transaction.exact_read`: Whole transactions.
* `Transaction.ofBytes_eq_ok`: Reading a whole string.
* `Transaction.read_exact`: The format in both directions, and what is not read.
-/

namespace Bitcoin

/-- A count takes at least one byte. -/
theorem CompactSize.length_encode_pos (size : UInt64) : 0 < (encode size).length := by
  rw [encode_eq]
  split
  · exact Nat.zero_lt_one
  · split
    · exact Nat.succ_pos _
    · split
      · exact Nat.succ_pos _
      · exact Nat.succ_pos _

/-- A block takes at least the byte of its count. -/
theorem Item.length_encodeBlock_pos (bytes : Bytes) : 0 < (encodeBlock bytes).length := by
  rw [encodeBlock, List.length_append]
  exact Nat.add_pos_left (CompactSize.length_encode_pos _) _

namespace TxReader

variable {α : Type} {valid : α → Prop} {encode : α → Bytes}

/-- A part is read as it is; only its error gets a label. -/
theorem exact_part (label : Part) {reader : Reader α} (h : ReadsExactly reader valid encode) :
    ReadsExactly (part label reader) valid encode := by
  intro bytes a rest
  rw [← h, part]
  constructor
  · intro hpart
    split at hpart
    · next hread =>
        cases hpart
        exact hread
    · cases hpart
  · intro hread
    rw [hread]

/-- A count is read if what is left has room for so many items. -/
theorem count_eq_ok {label : Part} {minSize n : Nat} {bytes rest : Bytes} :
    count label minSize bytes = .ok n rest ↔
      IsWordLength n ∧ bytes = CompactSize.encode (CompactSize.ofLength n) ++ rest ∧
        n ≤ rest.length / minSize := by
  rw [count, (exact_part label CompactSize.exact_read).bind_eq_ok]
  constructor
  · rintro ⟨size, between, -, rfl, h⟩
    rcases Steps.bind_eq_ok.mp h with ⟨_, _, hget, hguard⟩
    cases hget
    rcases Steps.guard_eq_ok.mp hguard with ⟨hfits, hreturn⟩
    cases hreturn
    refine ⟨size.toNat_lt, ?_, Nat.not_lt.mp hfits⟩
    rw [CompactSize.ofLength, UInt64.ofNat_toNat]
  · rintro ⟨hword, rfl, hfits⟩
    refine ⟨CompactSize.ofLength n, rest, trivial, rfl, ?_⟩
    refine Steps.bind_eq_ok.mpr ⟨rest, rest, rfl, ?_⟩
    rw [CompactSize.toNat_ofLength hword]
    exact Steps.guard_eq_ok.mpr ⟨Nat.not_lt.mpr hfits, rfl⟩

/-- So many items are read one after the other. -/
theorem exact_many {reader : TxReader α} (h : ReadsExactly reader valid encode) (count : Nat) :
    ReadsExactly (many reader count) (fun xs => xs.length = count ∧ ∀ x ∈ xs, valid x)
      (List.flatMap encode) := by
  intro bytes xs rest
  induction count generalizing bytes xs with
  | zero =>
      rw [many]
      constructor
      · intro hreturn
        cases hreturn
        exact ⟨⟨rfl, fun x hx => by cases hx⟩, rfl⟩
      · rintro ⟨⟨hlength, -⟩, rfl⟩
        rw [List.length_eq_zero_iff.mp hlength]
        rfl
  | succ count ih =>
      rw [many, h.bind_eq_ok]
      constructor
      · -- What the first reader leaves is what the others read.
        rintro ⟨first, between, hfirst, rfl, hrest⟩
        rcases Steps.bind_eq_ok.mp hrest with ⟨others, _, hothers, hreturn⟩
        cases hreturn
        rcases ih.mp hothers with ⟨⟨hlength, hvalid⟩, rfl⟩
        refine ⟨⟨by rw [List.length_cons, hlength], ?_⟩, ?_⟩
        · exact List.forall_mem_cons.mpr ⟨hfirst, hvalid⟩
        · rw [List.flatMap_cons, List.append_assoc]
      · rintro ⟨⟨hlength, hvalid⟩, rfl⟩
        rcases xs with _ | ⟨first, others⟩
        · cases hlength
        rcases List.forall_mem_cons.mp hvalid with ⟨hfirst, hothers⟩
        rw [List.flatMap_cons, List.append_assoc]
        refine ⟨first, others.flatMap encode ++ rest, hfirst, rfl, ?_⟩
        exact Steps.bind_eq_ok.mpr
          ⟨others, rest, ih.mpr ⟨⟨Nat.succ.inj hlength, hothers⟩, rfl⟩, rfl⟩

/-- A count, and then so many items. -/
def list (label : Part) (minSize : Nat) (reader : TxReader α) : TxReader (List α) := do
  many reader (← count label minSize)

/-- Items of a least size take at least so many bytes together. -/
theorem mul_length_le {minSize : Nat} (hmin : ∀ a, minSize ≤ (encode a).length) (xs : List α) :
    xs.length * minSize ≤ (xs.flatMap encode).length := by
  rw [List.length_flatMap, ← List.length_map (fun a => (encode a).length)]
  refine List.card_nsmul_le_sum _ minSize ?_
  intro size hsize
  rcases List.mem_map.mp hsize with ⟨a, -, rfl⟩
  exact hmin a

/-- A list is read back whenever no item is smaller than the least size: the guard of the
    count refuses none that has been written. -/
theorem exact_list (label : Part) {minSize : Nat} (hpos : 0 < minSize) {reader : TxReader α}
    (h : ReadsExactly reader valid encode) (hmin : ∀ a, minSize ≤ (encode a).length) :
    ReadsExactly (list label minSize reader)
      (fun xs => IsWordLength xs.length ∧ ∀ x ∈ xs, valid x) (encodeList encode) := by
  intro bytes xs rest
  rw [list, Steps.bind_eq_ok, encodeList]
  constructor
  · rintro ⟨n, between, hcount, hmany⟩
    rcases count_eq_ok.mp hcount with ⟨hword, rfl, -⟩
    rcases (exact_many h n).mp hmany with ⟨⟨rfl, hvalid⟩, rfl⟩
    exact ⟨⟨hword, hvalid⟩, by rw [List.append_assoc]⟩
  · rintro ⟨⟨hword, hvalid⟩, rfl⟩
    refine ⟨xs.length, xs.flatMap encode ++ rest, count_eq_ok.mpr ⟨hword, ?_, ?_⟩,
      (exact_many h _).mpr ⟨⟨rfl, hvalid⟩, rfl⟩⟩
    · rw [List.append_assoc]
    · -- Each item takes its least size, so an honest count is never refused.
      rw [Nat.le_div_iff_mul_le hpos, List.length_append]
      exact Nat.le_add_right_of_le (mul_length_le hmin xs)

end TxReader

/-- Inputs are read exactly. -/
theorem TxIn.exact_read :
    ReadsExactly read (fun input => IsWordLength input.unlocking.length) encode := by
  intro bytes input rest
  rw [read, (TxReader.exact_part _ (Reader.exact_vec 32)).bind_eq_ok]
  simp only [(TxReader.exact_part _ Reader.exact_u32).bind_eq_ok,
    (TxReader.exact_part _ Item.exact_readBlock).bind_eq_ok, encode, encodeWord]
  constructor
  · rintro ⟨id, _, -, rfl, vout, _, -, rfl, script, _, hscript, rfl, sequence, _, -, rfl, hreturn⟩
    cases hreturn
    exact ⟨hscript, by simp only [List.append_assoc]; rfl⟩
  · rcases input with ⟨⟨id⟩, vout, ⟨script⟩, sequence⟩
    rintro ⟨hscript, rfl⟩
    simp only [List.append_assoc]
    exact ⟨id, _, trivial, rfl, vout, _, trivial, rfl, script, _, hscript, rfl, sequence, rest,
      trivial, rfl, rfl⟩

/-- An output is read from its bytes and from no others. -/
theorem TxOut.exact_read :
    ReadsExactly read (fun output => IsWordLength output.locking.length) encode := by
  intro bytes output rest
  rw [read, (TxReader.exact_part _ Reader.exact_u64).bind_eq_ok]
  simp only [(TxReader.exact_part _ Item.exact_readBlock).bind_eq_ok, encode]
  constructor
  · rintro ⟨satoshis, _, -, rfl, script, _, hscript, rfl, hreturn⟩
    cases hreturn
    exact ⟨hscript, by rw [List.append_assoc]⟩
  · rcases output with ⟨satoshis, ⟨script⟩⟩
    rintro ⟨hscript, rfl⟩
    rw [List.append_assoc]
    exact ⟨satoshis, _, trivial, rfl, script, rest, hscript, rfl, rfl⟩

-- The least sizes are those of items without a script.
theorem TxIn.minSize_le (input : TxIn) : minSize ≤ input.encode.length := by
  have hscript := Item.length_encodeBlock_pos input.unlocking.bytes
  have hid : input.prevTxId.bytes.length = 32 := input.prevTxId.hash.length_bytes
  simp only [encode, encodeWord, List.length_append, Bytes.length_fixedLE, hid, minSize]
  omega

/-- No output is shorter than the least size that the reader counts with. -/
theorem TxOut.minSize_le (output : TxOut) : minSize ≤ output.encode.length := by
  have hscript := Item.length_encodeBlock_pos output.locking.bytes
  simp only [encode, List.length_append, Bytes.length_fixedLE, minSize]
  omega

namespace Transaction

/-- The parts of a transaction, with each list as one part. -/
theorem read_eq : read = (do
    let version ← TxReader.part .version Reader.u32
    let inputs ← TxReader.list .inputCount TxIn.minSize TxIn.read
    let outputs ← TxReader.list .outputCount TxOut.minSize TxOut.read
    let lockTime ← TxReader.part .lockTime Reader.u32
    return { version, inputs, outputs, lockTime }) := by
  simp only [read, TxReader.list, bind_assoc]

/-- Transactions are read exactly. -/
theorem exact_read : ReadsExactly read Sized encode := by
  intro bytes tx rest
  rw [read_eq, (TxReader.exact_part _ Reader.exact_u32).bind_eq_ok]
  simp only [(TxReader.exact_part _ Reader.exact_u32).bind_eq_ok,
    (TxReader.exact_list _ (by decide) TxIn.exact_read TxIn.minSize_le).bind_eq_ok,
    (TxReader.exact_list _ (by decide) TxOut.exact_read TxOut.minSize_le).bind_eq_ok, encode,
    encodeWord]
  constructor
  · rintro ⟨version, _, -, rfl, inputs, _, hinputs, rfl, outputs, _, houtputs, rfl, lockTime, _, -,
      rfl, hreturn⟩
    cases hreturn
    exact ⟨⟨hinputs.1, hinputs.2, houtputs.1, houtputs.2⟩, by simp only [List.append_assoc]⟩
  · rcases tx with ⟨version, inputs, outputs, lockTime⟩
    rintro ⟨hsized, rfl⟩
    simp only [List.append_assoc]
    exact ⟨version, _, trivial, rfl, inputs, _, ⟨hsized.inputs, hsized.unlocking⟩, rfl, outputs, _,
      ⟨hsized.outputs, hsized.locking⟩, rfl, lockTime, rest, trivial, rfl, rfl⟩

/-- A string is read if it is all of the encoding. -/
theorem ofBytes_eq_ok {bytes : Bytes} {tx : Transaction} :
    ofBytes bytes = .ok tx ↔ tx.Sized ∧ bytes = tx.encode := by
  -- The whole string is a transaction if the reader leaves nothing of it.
  have hwhole : read bytes = .ok tx [] ↔ tx.Sized ∧ bytes = tx.encode := by
    rw [exact_read, List.append_nil]
  rw [← hwhole, ofBytes]
  constructor
  · intro h
    split at h
    · next hread =>
        cases h
        exact hread
    · cases h
    · cases h
  · intro h
    rw [h]
    rfl

/-- The format is exact and shows where it ends. A transaction is read from the front of
    any string that begins with its bytes, and as a whole from its bytes, but not from less
    and not from more. What is read as a whole is written as it was. -/
theorem read_exact :
    (∀ tx : Transaction, tx.Sized →
      (∀ rest, read (tx.encode ++ rest) = .ok tx rest) ∧ ofBytes tx.encode = .ok tx ∧
        (∀ short, short <+: tx.encode → short ≠ tx.encode →
          ∃ fault, ofBytes short = .error fault) ∧
        ∀ more, more ≠ [] → ofBytes (tx.encode ++ more) = .error (.trailing more.length)) ∧
      ∀ bytes tx, ofBytes bytes = .ok tx → tx.Sized ∧ tx.encode = bytes := by
  refine ⟨fun tx hsized => ⟨?_, ?_, ?_, ?_⟩, ?_⟩
  · exact exact_read.append hsized
  · exact ofBytes_eq_ok.mpr ⟨hsized, rfl⟩
  · rintro short ⟨missing, hmissing⟩ hne
    rcases hread : ofBytes short with fault | other
    · exact ⟨fault, rfl⟩
    · -- The transaction that would be read here would also be read from the whole.
      rcases ofBytes_eq_ok.mp hread with ⟨hother, rfl⟩
      have hwhole : tx.encode ++ [] = other.encode ++ missing := by rw [List.append_nil, hmissing]
      rcases selfDelimiting_encode hsized hother hwhole with ⟨rfl, -⟩
      exact absurd rfl hne
  · intro more hmore
    rw [ofBytes, exact_read.append hsized more]
    rcases more with _ | ⟨next, more⟩
    · exact absurd rfl hmore
    · rfl
  · intro bytes tx hread
    rcases ofBytes_eq_ok.mp hread with ⟨hsized, rfl⟩
    exact ⟨hsized, rfl⟩

/-- An input with a script and an output: the bytes are read with others behind them, and
    not without the last one. -/
theorem read_exact_single :
    let tx : Transaction :=
      { inputs := [⟨.zero, 0, ⟨[0x51]⟩, 7⟩], outputs := [⟨1, ⟨[0x76, 0xa9]⟩⟩] }
    tx.Sized ∧ tx.encode.length = 63 ∧ read (tx.encode ++ [1, 2]) = .ok tx [1, 2] ∧
      ∃ fault, ofBytes (tx.encode.take 62) = .error fault := by
  intro tx
  have hsized : tx.Sized := ⟨by decide, by decide, by decide, by decide⟩
  rcases read_exact.1 tx hsized with ⟨hrest, -, hshort, -⟩
  exact ⟨hsized, by decide, hrest [1, 2], hshort _ (List.take_prefix 62 _) (by decide)⟩

end Transaction

end Bitcoin
