import Bitcoin.Proofs.Curve.Field
import Bitcoin.Proofs.Ecdsa.Scalar
import Mathlib.Data.Int.GCD
import Mathlib.Data.Int.ModEq
import Mathlib.Tactic.LinearCombination

/-!
# Inverses Found in Two Ways

An inverse modulo a number of any kind comes from the extended Euclidean algorithm. It goes
down from two numbers to their greatest common divisor, and on the way back up it finds
coefficients, one of them negative as a rule, that express the divisor by the two numbers.
If the divisor is one, the first coefficient is an inverse. There is only one inverse in
range, so it does not matter which coefficients are found.

Modulo a prime there is another way, a power. It has nothing to do with the first one, and
that both lead to the same number is again due to the fact that there is only one. The
coordinates and the scalars of the curve are inverted in the second way.

## Theorems

* `Modular.bezout_eq`: The coefficients express the greatest common divisor.
* `Modular.eq_of_mul_modEq_one`: There is only one inverse in range.
* `Modular.inverse_eq_ok_iff`: What is found is the inverse.
* `Modular.inverse_of_cofactors`: Any coefficients lead to it.
* `Modular.inverse_eq_powMod`: Modulo a prime the power is the same.
* `Modular.inverse_exact`: All of this together, with both fields of the curve.
-/

namespace Bitcoin

namespace Modular

open Curve

variable {a m x y : Int}

/-- The coefficients express the greatest common divisor. A step of the algorithm replaces
    two numbers by the second one and the remainder, which have the same divisors. -/
theorem bezout_eq (a b : Nat) :
    (a : Int) * (bezout a b).1 + b * (bezout a b).2 = (a.gcd b : Nat) := by
  fun_induction bezout a b with
  | case1 a => rw [Nat.gcd_zero_right, mul_one, Nat.cast_zero, zero_mul, add_zero]
  | case2 a b _ x y hrest ih =>
      rw [hrest] at ih
      have hgcd : a.gcd b = b.gcd (a % b) := by rw [Nat.gcd_comm, Nat.gcd_rec, Nat.gcd_comm]
      have hdivision : (a : Int) = b * (a / b : Nat) + (a % b : Nat) := by
        rw [← Nat.cast_mul, ← Nat.cast_add, Nat.div_add_mod]
      rw [hgcd, ← ih]
      dsimp only
      linear_combination hdivision * y

/-- Reducing an integer does not change what it has in common with the modulus. -/
theorem gcd_residue {m : Nat} (hm : 0 < m) (a : Int) : (a % m).toNat.gcd m = a.gcd m := by
  rw [← Int.gcd_emod, ← Int.gcd_natCast_natCast,
    Int.toNat_of_nonneg (Int.emod_nonneg a (by omega))]

/-- With nothing in common, the first cofactor is the inverse. -/
theorem inverse_of_coprime {m : Nat} (hm : 0 < m) (h : a.gcd m = 1) :
    inverse a m = .ok ((bezout (a % m).toNat m).1 % m) := by
  rw [inverse, modulus_of_pos hm]
  exact if_pos ((gcd_residue hm a).trans h)

/-- With something in common there is none. -/
theorem inverse_of_not_coprime {m : Nat} (hm : 0 < m) (h : a.gcd m ≠ 1) :
    inverse a m = .error .notInvertible := by
  rw [inverse, modulus_of_pos hm]
  exact if_neg (mt (gcd_residue hm a).symm.trans h)

/-- There is only one inverse in range. -/
theorem eq_of_mul_modEq_one (hx : 0 ≤ x ∧ x < m) (hy : 0 ≤ y ∧ y < m)
    (hax : a * x ≡ 1 [ZMOD m]) (hay : a * y ≡ 1 [ZMOD m]) : x = y := by
  have hsame : x ≡ y [ZMOD m] :=
    calc x ≡ x * (a * y) [ZMOD m] := by simpa using (hay.mul_left x).symm
      _ ≡ a * x * y [ZMOD m] := by rw [mul_comm a x, mul_assoc]
      _ ≡ y [ZMOD m] := by simpa using hax.mul_right y
  rw [← Int.emod_eq_of_lt hx.1 hx.2, ← Int.emod_eq_of_lt hy.1 hy.2]
  exact hsame

/-- What has an inverse is coprime to the modulus. -/
theorem gcd_eq_one_of_mul_modEq (h : a * x ≡ 1 [ZMOD m]) : a.gcd m = 1 := by
  rcases Int.modEq_iff_dvd.mp h with ⟨k, hk⟩
  refine Int.isCoprime_iff_gcd_eq_one.mp ⟨x, k, ?_⟩
  linear_combination -hk

/-- The coefficient that is found, reduced, is an inverse. -/
theorem mul_bezout_modEq_one {m : Nat} (hm : 0 < m) (h : a.gcd m = 1) :
    a * ((bezout (a % m).toNat m).1 % m) ≡ 1 [ZMOD m] := by
  have hbezout := bezout_eq (a % m).toNat m
  rw [gcd_residue hm, h, Int.toNat_of_nonneg (Int.emod_nonneg a (by omega))] at hbezout
  generalize bezout (a % m).toNat m = found at hbezout
  calc a * (found.1 % m)
      ≡ a % m * found.1 [ZMOD m] := ((Int.mod_modEq a m).symm).mul (Int.mod_modEq found.1 m)
    _ ≡ a % m * found.1 + m * found.2 [ZMOD m] :=
        (Int.modEq_iff_dvd.mpr ⟨found.2, by ring⟩)
    _ ≡ 1 [ZMOD m] := by rw [hbezout]; rfl

/-- What is found is the inverse. -/
theorem inverse_eq_ok_iff (hm : 0 < m) :
    inverse a m = .ok x ↔ (0 ≤ x ∧ x < m) ∧ a * x ≡ 1 [ZMOD m] := by
  lift m to Nat using hm.le
  have hpos : 0 < m := by omega
  by_cases hcoprime : a.gcd m = 1
  · -- The reduced cofactor is one inverse, and there is no other one in range.
    have hrange := And.intro (Int.emod_nonneg (bezout (a % m).toNat m).1 hm.ne')
      (Int.emod_lt_of_pos (bezout (a % m).toNat m).1 hm)
    have hfound := mul_bezout_modEq_one hpos hcoprime
    rw [inverse_of_coprime hpos hcoprime, Except.ok.injEq]
    constructor
    · rintro rfl
      exact ⟨hrange, hfound⟩
    · rintro ⟨hx, hax⟩
      exact eq_of_mul_modEq_one hrange hx hfound hax
  · rw [inverse_of_not_coprime hpos hcoprime]
    exact ⟨nofun, fun h => absurd (gcd_eq_one_of_mul_modEq h.2) hcoprime⟩

/-- Any coefficients that express one by the two numbers lead to the inverse. -/
theorem inverse_of_cofactors (hm : 0 < m) (h : a * x + m * y = 1) :
    inverse a m = .ok (x % m) := by
  rw [inverse_eq_ok_iff hm]
  refine ⟨⟨Int.emod_nonneg x hm.ne', Int.emod_lt_of_pos x hm⟩, ?_⟩
  calc a * (x % m) ≡ a * x [ZMOD m] := (Int.mod_modEq x m).mul_left a
    _ ≡ a * x + m * y [ZMOD m] := (Int.modEq_iff_dvd.mpr ⟨y, by ring⟩)
    _ ≡ 1 [ZMOD m] := by rw [h]

/-- Modulo a prime the power with an exponent two below it is the inverse. -/
theorem inverse_eq_powMod {p : Nat} [Fact p.Prime] (h2 : 2 < p) (ha : ¬(p : Int) ∣ a) :
    inverse a p = .ok (powMod (a % p).toNat (p - 2) p) := by
  have hpos : 0 < p := by omega
  have hresidue : (((a % p).toNat : Nat) : ZMod p) = a := by
    rw [← Int.cast_natCast, Int.toNat_of_nonneg (Int.emod_nonneg a (by omega)), ZMod.intCast_mod]
  rw [inverse_eq_ok_iff (by omega)]
  refine ⟨⟨Int.natCast_nonneg _, Int.ofNat_lt.mpr (powMod_lt _ _ hpos)⟩, ?_⟩
  rw [← ZMod.intCast_eq_intCast_iff, Int.cast_mul, Int.cast_natCast,
    cast_powMod_inv _ _ h2, hresidue, Int.cast_one]
  exact mul_inv_cancel₀ (mt (ZMod.intCast_zmod_eq_zero_iff_dvd a p).mp ha)

/-- So it is the power that is taken of any integer. -/
theorem power_eq_inverse {p : Nat} [Fact p.Prime] (h2 : 2 < p) (ha : ¬(p : Int) ∣ a) :
    power a (p - 2) p = inverse a p := by
  rw [inverse_eq_powMod h2 ha, show (p : Int) - 2 = (p - 2 : Nat) by omega,
    power_natCast (by omega)]

/-- For the field prime it is the inverse of an element. -/
theorem inverse_fieldPrime (ha : ¬(fieldPrime : Int) ∣ a) :
    inverse a fieldPrime = .ok (FieldElem.ofInt a).inv.val := by
  rw [inverse_eq_powMod (by decide) ha, ← FieldElem.val_ofInt]
  rfl

/-- For the order it is the inverse of a scalar. -/
theorem inverse_order (ha : ¬(order : Int) ∣ a) :
    inverse a order = .ok (Scalar.inv (a % order).toNat) := by
  have hpos : (0 : Int) < order := by decide
  have hlt := Int.emod_lt_of_pos a hpos
  rw [inverse_eq_powMod (by decide) ha, Scalar.inv, Nat.mod_eq_of_lt (by omega)]

/-- An integer has an inverse modulo a positive number exactly if it is coprime to it. What
    is then found is the only inverse in range, and any coefficients that express one by
    the two numbers lead there. Modulo the field prime and modulo the group order it is also
    the power by which coordinates and scalars are inverted. -/
theorem inverse_exact (a m : Int) (hm : 0 < m) :
    ((∃ x, inverse a m = .ok x) ↔ a.gcd m = 1) ∧
    (∀ x, inverse a m = .ok x → 0 ≤ x ∧ x < m ∧ a * x ≡ 1 [ZMOD m] ∧
      ∀ y, 0 ≤ y → y < m → a * y ≡ 1 [ZMOD m] → y = x) ∧
    (a.gcd m ≠ 1 → inverse a m = .error .notInvertible) ∧
    (∀ x y, a * x + m * y = 1 → inverse a m = .ok (x % m)) ∧
    (¬(fieldPrime : Int) ∣ a → inverse a fieldPrime = .ok (FieldElem.ofInt a).inv.val ∧
      inverse a fieldPrime = power a (fieldPrime - 2) fieldPrime) ∧
    (¬(order : Int) ∣ a → inverse a order = .ok (Scalar.inv (a % order).toNat) ∧
      inverse a order = power a (order - 2) order) := by
  refine ⟨⟨?_, ?_⟩, ?_, ?_, fun x y => inverse_of_cofactors hm, ?_, ?_⟩
  · rintro ⟨x, hx⟩
    exact gcd_eq_one_of_mul_modEq ((inverse_eq_ok_iff hm).mp hx).2
  · intro hcoprime
    -- Cofactors exist, and any of them lead to the inverse.
    rcases Int.isCoprime_iff_gcd_eq_one.mpr hcoprime with ⟨x, y, hxy⟩
    have hone : a * x + m * y = 1 := by linear_combination hxy
    exact ⟨x % m, inverse_of_cofactors hm hone⟩
  · intro x hx
    rcases (inverse_eq_ok_iff hm).mp hx with ⟨hrange, hax⟩
    exact ⟨hrange.1, hrange.2, hax, fun y hlow hhigh hay =>
      eq_of_mul_modEq_one ⟨hlow, hhigh⟩ hrange hay hax⟩
  · intro hcommon
    lift m to Nat using hm.le
    exact inverse_of_not_coprime (by omega) hcommon
  · exact fun ha => ⟨inverse_fieldPrime ha, (power_eq_inverse (by decide) ha).symm⟩
  · exact fun ha => ⟨inverse_order ha, (power_eq_inverse (by decide) ha).symm⟩

/-- A negative number, modulo a small number and modulo the two primes. -/
theorem inverse_exact_negative :
    (0 : Int) < 11 ∧ inverse (-3) 11 = .ok 7 ∧
      (∀ y, 0 ≤ y → y < (11 : Int) → -3 * y ≡ 1 [ZMOD 11] → y = 7) ∧
      inverse (-3) fieldPrime = .ok (FieldElem.ofInt (-3)).inv.val ∧
      inverse (-3) order = power (-3) (order - 2) order := by
  have hpos : (0 : Int) < 11 := by decide
  have hfound : inverse (-3) 11 = .ok 7 := by decide +kernel
  have hexact := inverse_exact (-3) 11 hpos
  rcases hexact with ⟨-, hinverse, -, -, hfield, horder⟩
  exact ⟨hpos, hfound, (hinverse 7 hfound).2.2.2, (hfield (by decide)).1,
    (horder (by decide)).2⟩

end Modular

end Bitcoin
