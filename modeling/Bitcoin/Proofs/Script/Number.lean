import Bitcoin.Machine.Arithmetic
import Bitcoin.Proofs.Bytes

/-!
# How Long Numbers Are

A byte string of so many bytes holds a number of so many bytes, of which one bit is
the sign, and a number whose magnitude leaves that bit free has a minimal string of no
more than so many bytes. What the operations compute outgrows their operands by one
byte at most.

## Main definitions

* `Number.Fits`: A number whose magnitude leaves the top bit of a width free.

## Theorems

* `Number.fits_decode`, `Number.length_encode_le`: Strings of a width and numbers that
  fit into it.
* `Number.Fits.unary`, `Number.Fits.binary`: What is computed of numbers that fit.
* `Number.fits_word`, `Number.fits_of_le`: A word fits into nine bytes, and a count into as
  many bytes as it counts.
-/

namespace Bitcoin

namespace Number

/-- The magnitude of a number leaves the top bit of so many bytes free. -/
def Fits (width : Nat) (n : Int) : Prop :=
  2 * n.natAbs < 256 ^ width

variable {width : Nat} {n : Int}

/-- A number that is read from a string fits into its length. -/
theorem fits_decode {bytes : Bytes} (h : bytes.length ≤ width) : Fits width (decode bytes) := by
  have hwidth : 256 ^ bytes.length ≤ 256 ^ width := Nat.pow_le_pow_right (by decide) h
  rw [Fits, decode]
  rcases hlast : bytes.getLast? with _ | top
  · exact Nat.pow_pos (by decide)
  · -- The last byte counts for less than half its range, since its top bit is the sign.
    rcases List.getLast?_eq_some_iff.mp hlast with ⟨low, rfl⟩
    have hlow := Bytes.toNatLE_lt low
    have htop : (top &&& 0x7f).toNat ≤ 127 := by
      rw [UInt8.toNat_and]
      exact Nat.and_le_right
    have hhigh : 256 ^ low.length * (top &&& 0x7f).toNat ≤ 256 ^ low.length * 127 :=
      Nat.mul_le_mul_left _ htop
    rw [List.length_append, List.length_singleton, Nat.pow_succ] at hwidth
    have hmagnitude : 2 * Bytes.toNatLE (low ++ [top &&& 0x7f]) < 256 ^ width := by
      rw [Bytes.toNatLE_concat]
      omega
    simp only [List.dropLast_concat]
    split
    · rw [Int.natAbs_neg, Int.natAbs_natCast]
      exact hmagnitude
    · rw [Int.natAbs_natCast]
      exact hmagnitude

/-- A number that fits into a width has a minimal string that does. -/
theorem length_encode_le (h : Fits width n) : (encode n).length ≤ width := by
  have hread := Bytes.toNatLE_ofNatLE n.natAbs
  have hnonzero := Bytes.getLast?_ofNatLE n.natAbs
  rw [Fits] at h
  rw [encode]
  rcases hlast : (Bytes.ofNatLE n.natAbs).getLast? with _ | top
  · exact Nat.zero_le _
  · have htop : top.toNat ≠ 0 := fun hzero =>
      hnonzero (hlast.trans (congrArg some (UInt8.toNat_inj.mp hzero)))
    rcases List.getLast?_eq_some_iff.mp hlast with ⟨low, hbytes⟩
    rw [hbytes, Bytes.toNatLE_concat] at hread
    have hlow : 256 ^ low.length * 1 ≤ 256 ^ low.length * top.toNat :=
      Nat.mul_le_mul_left _ (Nat.pos_of_ne_zero htop)
    simp only [hbytes]
    split
    · next hsign =>
        -- A top bit that is taken makes the magnitude reach into the last bit of the width.
        have hbyte : 128 ≤ top.toNat := UInt8.le_iff_toNat_le.mp hsign
        have hhigh : 256 ^ low.length * 128 ≤ 256 ^ low.length * top.toNat :=
          Nat.mul_le_mul_left _ hbyte
        have hpow : 256 ^ (low.length + 1) < 256 ^ width := by
          rw [Nat.pow_succ]
          omega
        have := (Nat.pow_lt_pow_iff_right (by decide)).mp hpow
        simp only [List.length_append, List.length_cons, List.length_nil]
        omega
    · have hpow : 256 ^ low.length < 256 ^ width := by omega
      have := (Nat.pow_lt_pow_iff_right (by decide)).mp hpow
      split
      · simp only [List.dropLast_concat, List.length_append, List.length_cons, List.length_nil]
        omega
      · simp only [List.length_append, List.length_cons, List.length_nil]
        omega

/-- Truth values fit into one byte. -/
theorem fits_ofBool (b : Bool) : Fits (width + 1) (ofBool b) := by
  have hpos : 1 ≤ 256 ^ width := Nat.pow_pos (by decide)
  rw [Fits, Nat.pow_succ]
  cases b with
  | false => simp only [ofBool, Bool.false_eq_true, if_false, Int.natAbs_zero]; omega
  | true => simp only [ofBool, if_true, Int.natAbs_one]; omega

/-- A function of a number outgrows it by one byte at most. -/
theorem Fits.unary (op : UnaryOp) (h : Fits width n) : Fits (width + 1) (op.apply n) := by
  have hpos : 1 ≤ 256 ^ width := Nat.pow_pos (by decide)
  cases op with
  | not => exact fits_ofBool _
  | notZero => exact fits_ofBool _
  | _ =>
      rw [Fits, Nat.pow_succ]
      rw [Fits] at h
      simp only [UnaryOp.apply]
      omega

/-- So does a function of two numbers. -/
theorem Fits.binary {m : Int} (op : BinaryOp) (hm : Fits width m) (hn : Fits width n) :
    Fits (width + 1) (op.apply m n) := by
  have hpos : 1 ≤ 256 ^ width := Nat.pow_pos (by decide)
  cases op with
  | add | sub | min | max =>
      rw [Fits, Nat.pow_succ]
      rw [Fits] at hm hn
      simp only [BinaryOp.apply]
      omega
  | _ => exact fits_ofBool _

/-- Every word of eight bytes fits into nine. The least of them does not fit into eight. -/
theorem fits_word (n : Int64) : Fits 9 n.toInt := by
  have hlow := n.le_toInt
  have hhigh := n.toInt_lt
  rw [Fits]
  omega

/-- A count fits into as many bytes as it counts. -/
theorem fits_of_le {count : Nat} (h : count ≤ width) (hpos : 0 < width) : Fits width count := by
  have hpow : width < 2 ^ width := Nat.lt_two_pow_self
  have hbase : 2 ^ width * 2 ≤ 256 ^ width := by
    rw [← Nat.pow_succ, show (256 : Nat) = 2 ^ 8 from rfl, ← Nat.pow_mul]
    exact Nat.pow_le_pow_right (by decide) (by omega)
  rw [Fits, Int.natAbs_natCast]
  omega

end Number

end Bitcoin
