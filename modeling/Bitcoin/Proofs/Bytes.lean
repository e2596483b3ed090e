import Bitcoin.Bytes
import Mathlib.Tactic.Ring

/-!
# Forms of Numbers

A form of a given width holds the number modulo the power of 256 that the width
stands for, so numbers below that power are told apart by their forms. Seen from
the other side, every byte string is the form of the number it stands for, at the
width of its length.

Every number has one minimal form. A byte string is the minimal form of the number
it stands for exactly if there is no zero at its most significant end.

## Theorems

* `Bytes.toNatLE_fixedLE`: A form reads back, up to what does not fit.
* `Bytes.fixedLE_toNatLE`, `Bytes.fixedBE_toNatBE`: A byte string is the form of its number.
* `Bytes.toNatLE_lt`, `Bytes.fixedLE_inj`: Numbers that fit, and are told apart.
* `Bytes.toNatLE_append`, `Bytes.toNatLE_concat`: Digits of two strings, and one more
  digit.
* `Bytes.ofNatLE_toNatLE`, `Bytes.ofNatBE_toNatBE`: A string without a superfluous zero
  is a minimal form.
* `Bytes.getLast?_ofNatLE`, `Bytes.head?_ofNatBE`: A minimal form has no such zero.
* `Bytes.length_ofNatLE_le`, `Bytes.length_ofNatBE_le`: A number that fits into a width has
  a minimal form that does.
-/

namespace Bitcoin

namespace Bytes

/-- A form reads back, up to what does not fit into it. -/
theorem toNatLE_fixedLE (width n : Nat) : toNatLE (fixedLE width n) = n % 256 ^ width := by
  induction width generalizing n with
  | zero => rw [fixedLE, toNatLE, Nat.pow_zero, Nat.mod_one]
  | succ width ih =>
      have hsplit : n % 256 ^ (width + 1) = n % 256 + 256 * (n / 256 % 256 ^ width) := by
        rw [Nat.pow_succ', Nat.mod_mul]
      rw [fixedLE, toNatLE, ih, UInt8.toNat_ofNat', hsplit]

/-- A byte string is the form of its number. -/
theorem fixedLE_toNatLE (bytes : Bytes) : fixedLE bytes.length (toNatLE bytes) = bytes := by
  induction bytes with
  | nil => rfl
  | cons digit rest ih =>
      have hdigit : digit.toNat < 256 := digit.toNat_lt
      have hlow : UInt8.ofNat (digit.toNat + 256 * toNatLE rest) = digit := by
        apply UInt8.toNat_inj.mp
        rw [UInt8.toNat_ofNat']
        omega
      have hhigh : (digit.toNat + 256 * toNatLE rest) / 256 = toNatLE rest := by omega
      rw [List.length_cons, toNatLE, fixedLE, hlow, hhigh, ih]

/-- A byte string stands for a number that fits into its length. -/
theorem toNatLE_lt (bytes : Bytes) : toNatLE bytes < 256 ^ bytes.length := by
  have hread := toNatLE_fixedLE bytes.length (toNatLE bytes)
  rw [fixedLE_toNatLE] at hread
  rw [hread]
  exact Nat.mod_lt _ (Nat.pow_pos (by omega))

/-- Numbers that fit are told apart by their forms. -/
theorem fixedLE_inj {width m n : Nat} (hm : m < 256 ^ width) (hn : n < 256 ^ width)
    (h : fixedLE width m = fixedLE width n) : m = n := by
  have hread := congrArg toNatLE h
  rwa [toNatLE_fixedLE, toNatLE_fixedLE, Nat.mod_eq_of_lt hm, Nat.mod_eq_of_lt hn] at hread

/-- A number below a power of 256 has no more digits than the exponent. -/
theorem length_ofNatLE_le {width n : Nat} (h : n < 256 ^ width) : (ofNatLE n).length ≤ width := by
  induction width generalizing n with
  | zero =>
      have hzero : n = 0 := by simpa using h
      simp [hzero, ofNatLE]
  | succ width ih =>
      rw [ofNatLE]
      by_cases hzero : n = 0
      · simp [hzero]
      · -- Without its low digit the number is below the next smaller power.
        have hrest : n / 256 < 256 ^ width := by
          rw [Nat.pow_succ'] at h
          exact Nat.div_lt_of_lt_mul h
        have := ih hrest
        simp only [if_neg hzero, List.length_cons]
        omega

/-- A string without a superfluous zero is the minimal form of its number. -/
theorem ofNatLE_toNatLE {bytes : Bytes} (h : bytes.getLast? ≠ some 0) :
    ofNatLE (toNatLE bytes) = bytes := by
  induction bytes with
  | nil => rw [toNatLE, ofNatLE, if_pos rfl]
  | cons digit rest ih =>
      have hdigit : digit.toNat < 256 := digit.toNat_lt
      have hhigh : (digit.toNat + 256 * toNatLE rest) / 256 = toNatLE rest := by omega
      have hlow : UInt8.ofNat (digit.toNat + 256 * toNatLE rest) = digit := by
        apply UInt8.toNat_inj.mp
        rw [UInt8.toNat_ofNat']
        omega
      -- The number is not zero: its last digit is not, and that is this one or a later one.
      have hpos : digit.toNat + 256 * toNatLE rest ≠ 0 := by
        rcases rest with _ | ⟨next, rest⟩
        · intro hzero
          have hdigit : digit = 0 := UInt8.toNat_inj.mp (by simpa [toNatLE] using hzero)
          exact h (by rw [hdigit]; rfl)
        · have hrest := ih h
          intro hzero
          have : toNatLE (next :: rest) = 0 := by omega
          rw [this, ofNatLE, if_pos rfl] at hrest
          exact absurd hrest (by simp)
      have hrest : ofNatLE (toNatLE rest) = rest := by
        rcases rest with _ | ⟨next, rest⟩
        · rw [toNatLE, ofNatLE, if_pos rfl]
        · exact ih h
      rw [toNatLE, ofNatLE, if_neg hpos, hlow, hhigh, hrest]

/-- A minimal form has no superfluous zero. -/
theorem getLast?_ofNatLE (n : Nat) : (ofNatLE n).getLast? ≠ some 0 := by
  fun_induction ofNatLE n with
  | case1 => simp
  | case2 n hn ih =>
      by_cases hrest : n / 256 = 0
      · -- A single digit is the number itself, which is not zero.
        intro hlast
        rw [hrest, ofNatLE, if_pos rfl] at hlast
        have hbyte : UInt8.ofNat n = 0 := by simpa using hlast
        have : n % 256 = 0 := by simpa [← UInt8.toNat_inj] using hbyte
        omega
      · rw [List.getLast?_cons_of_ne_nil]
        · exact ih
        · rw [ofNatLE, if_neg hrest]
          simp

/-- The high part counts by the power of 256 that the low part has digits for. -/
theorem toNatLE_append (low high : Bytes) :
    toNatLE (low ++ high) = toNatLE low + 256 ^ low.length * toNatLE high := by
  induction low with
  | nil => simp [toNatLE]
  | cons digit low ih =>
      rw [List.cons_append, toNatLE, toNatLE, ih, List.length_cons, Nat.pow_succ']
      ring

/-- One more digit on top. -/
theorem toNatLE_concat (low : Bytes) (top : UInt8) :
    toNatLE (low ++ [top]) = toNatLE low + 256 ^ low.length * top.toNat := by
  rw [toNatLE_append, toNatLE, toNatLE, Nat.mul_zero, Nat.add_zero]

/-- A zero in front does not count. -/
theorem toNatBE_zero_cons (bytes : Bytes) : toNatBE (0 :: bytes) = toNatBE bytes := by
  simp [toNatBE, toNatLE_append, toNatLE]

/-- A number that fits the width is read back. -/
theorem toNatBE_fixedBE {width n : Nat} (h : n < 256 ^ width) :
    toNatBE (fixedBE width n) = n := by
  rw [toNatBE, fixedBE, List.reverse_reverse, toNatLE_fixedLE, Nat.mod_eq_of_lt h]

/-- Bytes are the digits of the number that is read from them. -/
theorem fixedBE_toNatBE (bytes : Bytes) : fixedBE bytes.length (toNatBE bytes) = bytes := by
  rw [fixedBE, toNatBE, ← List.length_reverse, fixedLE_toNatLE, List.reverse_reverse]

/-- Without zeros in front, the digits of the number are the bytes themselves. -/
theorem ofNatBE_toNatBE {bytes : Bytes} (h : bytes.head? ≠ some 0) :
    ofNatBE (toNatBE bytes) = bytes := by
  rw [ofNatBE, toNatBE, ofNatLE_toNatLE (by rwa [List.getLast?_reverse]), List.reverse_reverse]

/-- The shortest digits of a number do not begin with a zero. -/
theorem head?_ofNatBE (n : Nat) : (ofNatBE n).head? ≠ some 0 := by
  rw [ofNatBE, List.head?_reverse]
  exact getLast?_ofNatLE n

theorem length_ofNatBE_le {width n : Nat} (h : n < 256 ^ width) : (ofNatBE n).length ≤ width := by
  rw [ofNatBE, List.length_reverse]
  exact length_ofNatLE_le h

end Bytes

end Bitcoin
