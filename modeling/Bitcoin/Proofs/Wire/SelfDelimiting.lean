import Bitcoin.Proofs.Wire.CompactSize

/-!
# Encodings That End by Themselves

The parts of a message follow each other without anything in between, so an
encoding must show where it ends: two values with encodings at the front of the
same bytes are the same value, and what is left is the same too. This passes from
the parts of a record to the record, one part after the other, which is more than
can be said of encodings that are merely different from each other.

Lengths are written as words, so an encoding that contains them keeps apart only
values whose lengths are words. Which values these are is a condition that goes
along with an encoding.

## Main definitions

* `SelfDelimiting`: An encoding that shows where it ends.

## Theorems

* `SelfDelimiting.of_read`: What reads back shows where it ends.
* `SelfDelimiting.of_length`: So does what always has the same length.
* `SelfDelimiting.injective`: Such an encoding tells values apart.
* `SelfDelimiting.flatMap`: A row of items, if it is known how many there are.
-/

namespace Bitcoin

/-- An encoding that shows where it ends, for the values of some kind. -/
def SelfDelimiting {α : Type} (valid : α → Prop) (encode : α → Bytes) : Prop :=
  ∀ ⦃a b : α⦄ ⦃r s : Bytes⦄, valid a → valid b → encode a ++ r = encode b ++ s → a = b ∧ r = s

namespace SelfDelimiting

variable {α : Type} {valid : α → Prop} {encode : α → Bytes}

/-- What reads back shows where it ends. -/
theorem of_read {read : Reader α}
    (h : ∀ a rest, valid a → read (encode a ++ rest) = .ok a rest) :
    SelfDelimiting valid encode := by
  intro a b r s ha hb heq
  have hread := h a r ha
  rw [heq, h b s hb, EStateM.Result.ok.injEq] at hread
  exact ⟨hread.1.symm, hread.2.symm⟩

/-- What always has the same length shows where it ends. -/
theorem of_length {width : Nat} (hlength : ∀ a, (encode a).length = width)
    (hinj : ∀ a b, valid a → valid b → encode a = encode b → a = b) :
    SelfDelimiting valid encode := by
  intro a b r s ha hb heq
  rcases List.append_inj heq ((hlength a).trans (hlength b).symm) with ⟨hencode, hrest⟩
  exact ⟨hinj a b ha hb hencode, hrest⟩

/-- An encoding that shows where it ends also tells values apart. -/
theorem injective (h : SelfDelimiting valid encode) {a b : α} (ha : valid a) (hb : valid b)
    (heq : encode a = encode b) : a = b :=
  (h ha hb (congrArg (· ++ []) heq)).1

/-- A row of items shows where it ends, if it is known how many there are. -/
theorem flatMap (h : SelfDelimiting valid encode) {xs ys : List α} {r s : Bytes}
    (hlength : xs.length = ys.length) (hx : ∀ x ∈ xs, valid x) (hy : ∀ y ∈ ys, valid y)
    (heq : xs.flatMap encode ++ r = ys.flatMap encode ++ s) : xs = ys ∧ r = s := by
  induction xs generalizing ys with
  | nil =>
      rw [List.length_nil] at hlength
      rw [List.length_eq_zero_iff.mp hlength.symm] at heq ⊢
      exact ⟨rfl, heq⟩
  | cons x xs ih =>
      rcases ys with _ | ⟨y, ys⟩
      · exact absurd hlength (Nat.succ_ne_zero _)
      · rw [List.flatMap_cons, List.flatMap_cons, List.append_assoc, List.append_assoc] at heq
        -- The first items are told apart by themselves, which leaves two shorter rows.
        rcases h (hx x List.mem_cons_self) (hy y List.mem_cons_self) heq with ⟨rfl, hrest⟩
        rcases ih (Nat.succ.inj hlength) (fun z hz => hx z (List.mem_cons_of_mem _ hz))
          (fun z hz => hy z (List.mem_cons_of_mem _ hz)) hrest with ⟨rfl, hend⟩
        exact ⟨rfl, hend⟩

theorem compactSize : SelfDelimiting (fun _ => True) CompactSize.encode :=
  of_read fun size rest _ => CompactSize.read_encode size rest

-- A size tells a length only as long as the length is a word.
theorem length : SelfDelimiting (fun n => n < 2 ^ 64)
    (fun n => CompactSize.encode (CompactSize.ofLength n)) := by
  intro m n r s hm hn heq
  rcases compactSize trivial trivial heq with ⟨hsize, hrest⟩
  have hvalue := congrArg UInt64.toNat hsize
  rw [CompactSize.ofLength, CompactSize.ofLength, UInt64.toNat_ofNat', UInt64.toNat_ofNat',
    Nat.mod_eq_of_lt hm, Nat.mod_eq_of_lt hn] at hvalue
  exact ⟨hvalue, hrest⟩

theorem block : SelfDelimiting (fun bytes : Bytes => bytes.length < 2 ^ 64) Item.encodeBlock :=
  of_read fun _ rest h => Item.readBlock_encodeBlock h rest

end SelfDelimiting

end Bitcoin
