import Bitcoin.Ecdsa.Signature
import Bitcoin.Proofs.Curve.Primes

/-!
# Scalars as Residues

Scalars are numbers from one to the group order, exclusive. As residues modulo
the order, which is prime, they are the elements of a field other than zero. The
power that the signer and the verifier use for an inverse is the inverse of that
field, and the low form of a signature changes the sign of one component at most.

## Theorems

* `Scalar.ofInt?_eq_some`: The scalar that a number already is.
* `Scalar.cast_ne_zero`: A scalar is not zero as a residue.
* `Scalar.cast_inv`: The power for the inverse is the inverse.
* `Scalar.cast_negate`: The opposite scalar is the opposite residue.
* `Signature.cast_toLow_s`: The low form changes a sign at most.
* `Signature.isLow_toLow`: The low form is low.
-/

namespace Bitcoin

open Curve

namespace Scalar

/-- The scalar that a number already is. -/
theorem ofInt?_eq_some {n : Nat} {k : Scalar} : ofInt? n = some k ↔ n = k.val := by
  rw [ofInt?]
  constructor
  · intro h
    split at h
    · cases h
      exact (Int.toNat_natCast n).symm
    · exact absurd h (by simp only [reduceCtorEq, not_false_eq_true])
  · rintro rfl
    exact dif_pos ⟨k.pos, k.lt⟩

/-- A scalar is not zero as a residue of the order. -/
theorem cast_ne_zero (k : Scalar) : (k.val : ZMod order) ≠ 0 := by
  rw [Ne, ZMod.natCast_eq_zero_iff]
  exact Nat.not_dvd_of_pos_of_lt k.pos k.lt

/-- The power with exponent `n - 2` is the inverse, with zero for zero. -/
theorem cast_inv (k : Nat) : ((inv k : Nat) : ZMod order) = (k : ZMod order)⁻¹ := by
  rw [inv, Modular.cast_powMod_inv _ _ (by decide), ZMod.natCast_mod]

/-- Its opposite is the opposite residue. -/
theorem cast_negate (k : Scalar) : (k.negate.val : ZMod order) = -(k.val : ZMod order) := by
  rw [negate, Nat.cast_sub k.lt.le, CharP.cast_eq_zero, zero_sub]

-- The order is odd, so a scalar or its opposite is at most half of it.
theorem negate_le_halfOrder (k : Scalar) (h : ¬k.val ≤ halfOrder) : k.negate.val ≤ halfOrder := by
  have hhalf : order = 2 * halfOrder + 1 := by decide
  change order - k.val ≤ halfOrder
  omega

end Scalar

namespace Signature

@[simp] theorem toLow_r (sig : Signature) : sig.toLow.r = sig.r := by
  rw [toLow]
  split <;> rfl

/-- What is given out is low: if a scalar is above half the order, its opposite is not. -/
theorem isLow_toLow (sig : Signature) : sig.toLow.isLow = true := by
  rw [toLow]
  by_cases hlow : sig.isLow = true
  · rw [if_pos hlow]
    exact hlow
  · rw [if_neg hlow]
    simp only [isLow, decide_eq_true_eq] at hlow ⊢
    exact sig.s.negate_le_halfOrder hlow

/-- The low form changes the sign of the second component at most. -/
theorem cast_toLow_s (sig : Signature) :
    (sig.toLow.s.val : ZMod order) = sig.s.val ∨ (sig.toLow.s.val : ZMod order) = -sig.s.val := by
  rw [toLow]
  by_cases hlow : sig.isLow = true
  · rw [if_pos hlow]
    exact Or.inl rfl
  · rw [if_neg hlow]
    exact Or.inr sig.s.cast_negate

end Signature

end Bitcoin
