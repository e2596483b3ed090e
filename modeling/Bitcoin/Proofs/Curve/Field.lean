import Bitcoin.Curve.FieldElem
import Bitcoin.Proofs.Curve.Primes
import Mathlib.Data.ZMod.Basic

/-!
# Coordinates as Residues

Coordinates are numbers below the field prime, and their sums and products are
reduced after each step. `FieldElem.residue` takes a coordinate to the field of
residues, where nothing has to be reduced. It loses nothing, and every operation
on coordinates is the operation of the field, the power that stands for an
inverse included. Equations between coordinates are proved there.

## Main definitions

* `FieldElem.residue`: A coordinate as an element of the field.

## Theorems

* `FieldElem.residue_inj`: Coordinates with the same residue are the same.
* `FieldElem.residue_add`, `FieldElem.residue_sub`, `FieldElem.residue_mul`: The
  operations of the field.
* `FieldElem.residue_ofInt`: The residue of an integer.
* `FieldElem.residue_inv`: The inverse of the field.
* `FieldElem.residue_rhs`: The right-hand side of the curve equation.
-/

namespace Bitcoin

namespace FieldElem

open Curve

/-- A coordinate as an element of the field of residues. -/
def residue (a : FieldElem) : ZMod fieldPrime :=
  (a.val : ZMod fieldPrime)

/-- Elements are known by their residues. -/
theorem residue_inj {a b : FieldElem} : residue a = residue b ↔ a = b := by
  refine ⟨fun h => Fin.ext ?_, fun h => by rw [h]⟩
  have hmod := (ZMod.natCast_eq_natCast_iff' _ _ _).mp h
  rwa [Nat.mod_eq_of_lt a.isLt, Nat.mod_eq_of_lt b.isLt] at hmod

/-- Every residue is one of a coordinate. -/
theorem exists_residue (r : ZMod fieldPrime) : ∃ a : FieldElem, residue a = r :=
  ⟨⟨r.val, ZMod.val_lt r⟩, ZMod.natCast_zmod_val r⟩

@[simp] theorem residue_add (a b : FieldElem) : residue (a + b) = residue a + residue b := by
  simp only [residue, Fin.val_add, ZMod.natCast_mod, Nat.cast_add]

@[simp] theorem residue_mul (a b : FieldElem) : residue (a * b) = residue a * residue b := by
  simp only [residue, Fin.val_mul, ZMod.natCast_mod, Nat.cast_mul]

@[simp] theorem residue_sub (a b : FieldElem) : residue (a - b) = residue a - residue b := by
  have hb : b.val ≤ fieldPrime := b.isLt.le
  simp only [residue, Fin.val_sub, ZMod.natCast_mod, Nat.cast_add, Nat.cast_sub hb,
    CharP.cast_eq_zero]
  ring

/-- Reducing an integer gives the remainder that is not negative. -/
theorem val_ofInt (v : Int) : (ofInt v).val = (v % fieldPrime).toNat := by
  have hpos : (0 : Int) < fieldPrime := by decide
  have hlt := Int.emod_lt_of_pos v hpos
  rw [ofInt, Fin.val_ofNat]
  exact Nat.mod_eq_of_lt (by omega)

/-- So it does not change the residue. -/
theorem residue_ofInt (v : Int) : residue (ofInt v) = (v : ZMod fieldPrime) := by
  rw [residue, val_ofInt, ← Int.cast_natCast,
    Int.toNat_of_nonneg (Int.emod_nonneg v (by decide)), ZMod.intCast_mod]

theorem residue_ofNat (n : Nat) : residue (Fin.ofNat fieldPrime n) = (n : ZMod fieldPrime) := by
  simp only [residue, Fin.val_ofNat, ZMod.natCast_mod]

@[simp] theorem residue_zero : residue 0 = 0 := by
  rw [show (0 : FieldElem) = Fin.ofNat fieldPrime 0 from rfl, residue_ofNat, Nat.cast_zero]

@[simp] theorem residue_one : residue 1 = 1 := by
  rw [show (1 : FieldElem) = Fin.ofNat fieldPrime 1 from rfl, residue_ofNat, Nat.cast_one]

@[simp] theorem residue_numeral (n : Nat) :
    residue (no_index (OfNat.ofNat n)) = ((OfNat.ofNat n : Nat) : ZMod fieldPrime) :=
  residue_ofNat n

theorem residue_eq_zero {a : FieldElem} : residue a = 0 ↔ a = 0 := by
  rw [← residue_zero, residue_inj]

@[simp] theorem residue_pow (a : FieldElem) (exponent : Nat) :
    residue (a.pow exponent) = residue a ^ exponent :=
  Modular.cast_powMod a.val exponent fieldPrime

@[simp] theorem residue_inv (a : FieldElem) : residue a.inv = (residue a)⁻¹ :=
  Modular.cast_powMod_inv a.val fieldPrime (by decide)

/-- The right side of the equation of the curve. -/
@[simp] theorem residue_rhs (x : FieldElem) : residue (rhs x) = residue x ^ 3 + 7 := by
  have hseven : residue coefficient = 7 := by
    rw [coefficient, residue_ofNat, Curve.coefficient, Nat.cast_ofNat]
  rw [rhs, residue_add, residue_mul, residue_mul, hseven]
  ring

theorem two_ne_zero : (2 : ZMod fieldPrime) ≠ 0 := by
  rw [← Nat.cast_ofNat, Ne, ZMod.natCast_eq_zero_iff]
  decide

end FieldElem

end Bitcoin
