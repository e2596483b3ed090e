import Bitcoin.Hex
import Mathlib.Data.String.Basic

/-!
# Hexadecimal Text Is Read Back

The digits of a byte string are those of its halves, one after the other. Every digit is read
as the value it was written for, and the values, taken two by two, are the bytes again. The
text has an even number of bytes, since a digit takes just one.

## Main definitions

* `halves`: The values of the two digits of a byte.

## Theorems

* `digitValues_map_digit`, `joinHalves_flatMap`: Digits, and halves, in a row.
* `decode_encode`: Bytes are read back from their digits.
-/

namespace Bitcoin.Hex

/-- The two halves of a byte, the high one first. -/
def halves (b : UInt8) : List Nat :=
  [b.toNat / 16, b.toNat % 16]

variable {bytes : Bytes} {values : List Nat}

theorem digitValue?_digit : ∀ value < 16, digitValue? (digit value) = some value := by
  decide

theorem utf8Size_digit : ∀ value < 16, (digit value).utf8Size = 1 := by
  decide

/-- Half a byte is one of sixteen values. -/
theorem lt_of_mem_halves {value : Nat} (h : value ∈ bytes.flatMap halves) : value < 16 := by
  rcases List.mem_flatMap.mp h with ⟨b, -, hvalue⟩
  have hb := b.toNat_lt
  rcases List.mem_pair.mp hvalue with rfl | rfl
  · omega
  · omega

/-- A text of bytes consists of the digits of their halves. -/
theorem toList_encode (bytes : Bytes) :
    (encode bytes).toList = (bytes.flatMap halves).map digit := by
  rw [encode, String.toList_ofList, List.map_flatMap]
  rfl

/-- Digits in a row are read as the values they were written for. -/
theorem digitValues_map_digit (h : ∀ value ∈ values, value < 16) (position : Nat)
    (done : List Nat) :
    digitValues position done (values.map digit) = .ok (done.reverse ++ values) := by
  induction values generalizing position done with
  | nil => rw [List.map_nil, digitValues, List.append_nil]
  | cons value values ih =>
      rcases List.forall_mem_cons.mp h with ⟨hvalue, hvalues⟩
      rw [List.map_cons, digitValues, digitValue?_digit value hvalue]
      refine (ih hvalues (position + 1) (value :: done)).trans ?_
      rw [List.reverse_cons, List.append_assoc, List.singleton_append]

/-- The halves of bytes in a row make up the bytes. -/
theorem joinHalves_flatMap (bytes : Bytes) : joinHalves (bytes.flatMap halves) = bytes := by
  induction bytes with
  | nil => rfl
  | cons b bytes ih =>
      have hbyte : 16 * (b.toNat / 16) + b.toNat % 16 = b.toNat := by omega
      rw [List.flatMap_cons, halves, List.cons_append, List.cons_append, List.nil_append,
        joinHalves, ih, hbyte, UInt8.ofNat_toNat]

/-- Each digit is a byte of the text, so there are two for each byte. -/
theorem utf8ByteSize_encode (bytes : Bytes) : (encode bytes).utf8ByteSize = 2 * bytes.length := by
  rw [encode, String.utf8ByteSize_ofList]
  induction bytes with
  | nil => rfl
  | cons b bytes ih =>
      have hb := b.toNat_lt
      rw [List.flatMap_cons, String.utf8Len_append, ih, byteDigits, String.utf8Len_cons,
        String.utf8Len_cons, String.utf8Len_nil, utf8Size_digit _ (by omega),
        utf8Size_digit _ (by omega), List.length_cons]
      omega

/-- Bytes are read back from their digits. -/
theorem decode_encode (bytes : Bytes) : decode (encode bytes) = .ok bytes := by
  have heven : ¬(encode bytes).utf8ByteSize % 2 = 1 := by
    rw [utf8ByteSize_encode]
    omega
  rw [decode, if_neg heven, toList_encode,
    digitValues_map_digit fun value => lt_of_mem_halves]
  exact congrArg Except.ok (joinHalves_flatMap bytes)

end Bitcoin.Hex
