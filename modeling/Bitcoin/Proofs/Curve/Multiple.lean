import Bitcoin.Curve.Jacobian
import Bitcoin.Proofs.Curve.Group
import Mathlib.GroupTheory.OrderOfElement

/-!
# Multiples of Points

The ladder works on triples and never divides, but each of its steps is a step of
the group. A triple `(X, Y, Z)` with `Z` other than zero stands for the element
with the coordinates `(X / Z², Y / Z³)`; any triple with a zero `Z` stands for
infinity, whatever its other coordinates are. With that, doubling and adding
triples is doubling and adding elements in every case, the exceptional ones
included.

The invariant of the ladder is about both of its triples: after the high bits
`k` have been read they stand for `k • A` and `(k + 1) • A`. The multiple that
`Point.mul` computes is the one by the remainder modulo the group order, and it
is the multiple by the integer itself wherever the order annihilates the element.
For the generator that is checked by running the ladder on the order.

## Main definitions

* `Jacobian.Represents`: A triple stands for an element of the group.
* `Curve.base`: The element that the generator stands for.

## Theorems

* `Jacobian.Represents.double`, `Jacobian.Represents.add`: Triples follow the group.
* `Jacobian.represents_ladder`: The invariant of the ladder.
* `Point.Represents.mul`: A multiple of a point is a multiple of the element.
* `Curve.order_nsmul_base`: The order annihilates the generator.
* `Point.represents_mulBase`: A multiple of the generator, for any integer.
* `Curve.zsmul_base_eq_zero_iff`: Which multiples of the generator are infinity.
-/

namespace Bitcoin

namespace Jacobian

open Curve FieldElem

/-- A triple stands for an element of the group. -/
inductive Represents (p : Jacobian) : CurveGroup → Prop
  | infinity (hz : p.z = 0) : Represents p 0
  | finite {A : CurveGroup} {x y : ZMod fieldPrime} (hz : p.z ≠ 0) (coords : HasCoords A x y)
      (hx : p.x.residue = x * p.z.residue ^ 2) (hy : p.y.residue = y * p.z.residue ^ 3) :
      Represents p A

variable {p q : Jacobian} {A B : CurveGroup}

theorem represents_infinity : infinity.Represents 0 :=
  Represents.infinity rfl

/-- A triple with a last coordinate of zero stands for zero. -/
theorem Represents.eq_zero (h : p.Represents A) (hz : p.z = 0) : A = 0 := by
  cases h with
  | infinity => rfl
  | finite hne => exact absurd hz hne

theorem residue_z_ne_zero (hz : p.z ≠ 0) : p.z.residue ≠ 0 :=
  fun hc => hz (residue_eq_zero.mp hc)

/-- A finite point with one as the last coordinate. -/
theorem represents_ofAffine {x y : FieldElem} (h : (Point.affine x y).Represents A) :
    (ofAffine x y).Represents A := by
  have hone : (1 : FieldElem) ≠ 0 := by decide
  refine Represents.finite hone h.coords ?_ ?_ <;>
    simp only [ofAffine, residue_one, one_pow, mul_one]

/-- The point that a triple leads back to. -/
theorem Represents.toPoint (h : p.Represents A) : p.toPoint.Represents A := by
  rw [Jacobian.toPoint]
  cases h with
  | infinity hz =>
      rw [if_pos hz]
      exact Point.Represents.infinity
  | finite hz coords hx hy =>
      rw [if_neg hz]
      have hne := residue_z_ne_zero hz
      refine Point.Represents.affine ?_
      -- The powers of the last coordinate are divided out.
      convert coords using 1
      · simp only [residue_mul, residue_inv, hx]
        field_simp
      · simp only [residue_mul, residue_inv, hy]
        field_simp

/-- Doubling a triple doubles the element. -/
theorem Represents.double (h : p.Represents A) : p.double.Represents (A + A) := by
  rw [Jacobian.double]
  cases h with
  | infinity hz =>
      rw [if_pos (Or.inl hz), add_zero]
      exact represents_infinity
  | @finite _ x y hz coords hx hy =>
      have hZ := residue_z_ne_zero hz
      by_cases hy0 : p.y = 0
      · have hzero : y = 0 := by
          rw [hy0, residue_zero] at hy
          exact (mul_eq_zero.mp hy.symm).resolve_right (pow_ne_zero 3 hZ)
        rw [if_pos (Or.inr hy0), coords.vertical_tangent hzero]
        exact represents_infinity
      · rw [if_neg (not_or.mpr ⟨hz, hy0⟩)]
        have hY : p.y.residue ≠ 0 := fun hc => hy0 (residue_eq_zero.mp hc)
        have hne : y ≠ 0 := fun hc => hY (by rw [hy, hc, zero_mul])
        have hs : 3 * (x * x) / (y + y) * (y + y) = 3 * (x * x) := by
          refine div_mul_cancel₀ _ ?_
          rw [← two_mul]
          exact mul_ne_zero FieldElem.two_ne_zero hne
        -- From here on the slope is any number that satisfies the equation of the tangent.
        -- The new third coordinate is `2YZ`, and both others are scaled by its powers.
        generalize 3 * (x * x) / (y + y) = s at hs
        refine Represents.finite ?_ (coords.tangent hne hs) ?_ ?_
        · rw [Ne, ← residue_eq_zero, residue_add, residue_mul, ← two_mul]
          exact mul_ne_zero FieldElem.two_ne_zero (mul_ne_zero hY hZ)
        · simp only [residue_add, residue_mul, residue_sub, hx, hy]
          linear_combination -(p.z.residue ^ 8 * (s * (y + y) + 3 * (x * x))) * hs
        · simp only [residue_add, residue_mul, residue_sub, residue_numeral, Nat.cast_ofNat,
            hx, hy]
          linear_combination p.z.residue ^ 12 * ((3 * x ^ 2) ^ 2 + 3 * x ^ 2 * (s * (y + y)) +
            (s * (y + y)) ^ 2 - 12 * x * y ^ 2) * hs

/-- Adding triples adds the elements. -/
theorem Represents.add (hp : p.Represents A) (hq : q.Represents B) :
    (p.add q).Represents (A + B) := by
  rw [Jacobian.add]
  cases hp with
  | infinity hpz =>
      rw [if_pos hpz, zero_add]
      exact hq
  | @finite _ x1 y1 hpz coords1 hx1 hy1 =>
      rw [if_neg hpz]
      cases hq with
      | infinity hqz =>
          rw [if_pos hqz, add_zero]
          exact Represents.finite hpz coords1 hx1 hy1
      | @finite _ x2 y2 hqz coords2 hx2 hy2 =>
          rw [if_neg hqz]
          have hPQ : p.z.residue * q.z.residue ≠ 0 :=
            mul_ne_zero (residue_z_ne_zero hpz) (residue_z_ne_zero hqz)
          -- Both sides of a comparison are scaled by the same power of the product.
          have hu : p.x * (q.z * q.z) = q.x * (p.z * p.z) ↔ x1 = x2 := by
            rw [← residue_inj, ← mul_left_inj' (pow_ne_zero 2 hPQ) (a := x1)]
            simp only [residue_mul, hx1, hx2]
            ring_nf
          have hv : p.y * q.z * (q.z * q.z) = q.y * p.z * (p.z * p.z) ↔ y1 = y2 := by
            rw [← residue_inj, ← mul_left_inj' (pow_ne_zero 3 hPQ) (a := y1)]
            simp only [residue_mul, hy1, hy2]
            ring_nf
          by_cases hx : x1 = x2
          · rw [if_pos (hu.mpr hx)]
            rw [← hx] at coords2
            by_cases hy : y1 = y2
            · have hAB : A = B := coords1.unique (hy ▸ coords2)
              rw [if_pos (hv.mpr hy), ← hAB]
              exact Represents.double (Represents.finite hpz coords1 hx1 hy1)
            · rw [if_neg (mt hv.mp hy), coords1.vertical coords2 hy]
              exact represents_infinity
          · rw [if_neg (mt hu.mp hx)]
            have hdiff : x2 - x1 ≠ 0 := sub_ne_zero.mpr fun hc => hx hc.symm
            have hs : (y2 - y1) / (x2 - x1) * (x2 - x1) = y2 - y1 := div_mul_cancel₀ _ hdiff
            -- As with the tangent, any slope of the chord will do.
            generalize (y2 - y1) / (x2 - x1) = s at hs
            have hy2s : y2 = s * (x2 - x1) + y1 := by linear_combination -hs
            refine Represents.finite ?_ (coords1.chord coords2 hx hs) ?_ ?_
            · have hz : residue ((q.x * (p.z * p.z) - p.x * (q.z * q.z)) * p.z * q.z)
                  = (x2 - x1) * (p.z.residue * q.z.residue) ^ 3 := by
                simp only [residue_sub, residue_mul, hx1, hx2]
                ring
              rw [Ne, ← residue_eq_zero, hz]
              exact mul_ne_zero hdiff (pow_ne_zero 3 hPQ)
            · simp only [residue_add, residue_sub, residue_mul, hx1, hx2, hy1, hy2, hy2s]
              ring
            · simp only [residue_add, residue_sub, residue_mul, hx1, hx2, hy1, hy2, hy2s]
              ring

/-- The invariant of the ladder: its triples stand for the multiple by the bits that
    have been read, and the next one. -/
theorem represents_ladder {base : Jacobian} (h : base.Represents A) (bits k : Nat) :
    (ladder base bits k).1.Represents ((k % 2 ^ bits) • A) ∧
      (ladder base bits k).2.Represents ((k % 2 ^ bits + 1) • A) := by
  -- The last bit is read last, so the step goes from the half of a number to the number.
  induction bits generalizing k with
  | zero =>
      rw [ladder_zero, Nat.pow_zero, Nat.mod_one, zero_nsmul, zero_add, one_nsmul]
      exact ⟨represents_infinity, h⟩
  | succ bits ih =>
      rcases ih (k / 2) with ⟨hlow, hhigh⟩
      rw [ladder_succ]
      by_cases hbit : k % 2 = 0
      · have hread : k % 2 ^ (bits + 1) = 2 * (k / 2 % 2 ^ bits) := by
          rw [Nat.pow_succ', Nat.mod_mul, hbit, Nat.zero_add]
        rw [if_pos hbit, hread]
        refine ⟨?_, ?_⟩
        · rw [two_mul, add_nsmul]
          exact hlow.double
        · rw [two_mul, add_assoc, add_nsmul]
          exact hlow.add hhigh
      · have hread : k % 2 ^ (bits + 1) = 2 * (k / 2 % 2 ^ bits) + 1 := by
          rw [Nat.pow_succ', Nat.mod_mul]
          omega
        rw [if_neg hbit, hread]
        refine ⟨?_, ?_⟩
        · rw [two_mul, add_assoc, add_nsmul]
          exact hlow.add hhigh
        · rw [show 2 * (k / 2 % 2 ^ bits) + 1 + 1
            = (k / 2 % 2 ^ bits + 1) + (k / 2 % 2 ^ bits + 1) by omega, add_nsmul]
          exact hhigh.double

end Jacobian

namespace Point

open Curve

variable {p : Point} {A : CurveGroup}

/-- A multiple of a point is the multiple of the element by the reduced integer. -/
theorem Represents.mul (h : p.Represents A) (k : Int) :
    (p.mul k).Represents ((k % order).toNat • A) := by
  cases h with
  | infinity =>
      rw [Point.mul, nsmul_zero]
      exact Represents.infinity
  | affine coords =>
      -- The ladder reads 256 bits, which is enough for a reduced integer.
      have hlt : (k % order).toNat < 2 ^ 256 := by
        have hpos : (0 : Int) < order := by decide
        have hmod := Int.emod_lt_of_pos k hpos
        have hbound : order < 2 ^ 256 := by decide
        omega
      have hladder := (Jacobian.represents_ladder
        (Jacobian.represents_ofAffine (Represents.affine coords)) 256 (k % order).toNat).1
      rw [Nat.mod_eq_of_lt hlt] at hladder
      rw [Point.mul]
      exact hladder.toPoint

end Point

namespace Curve

theorem nonsingular_generator : equation.Nonsingular
    (FieldElem.residue (Fin.ofNat fieldPrime generatorX))
    (FieldElem.residue (Fin.ofNat fieldPrime generatorY)) := by
  rw [nonsingular_iff, ← Point.onCurve_affine]
  decide

/-- The element that the generator stands for. -/
def base : CurveGroup :=
  .some _ _ nonsingular_generator

theorem represents_generator : Point.generator.Represents base :=
  Point.Represents.affine ⟨_, rfl⟩

theorem base_ne_zero : base ≠ 0 :=
  WeierstrassCurve.Affine.Point.some_ne_zero _

/-- The order annihilates the generator: the ladder that reads the order ends with
    infinity. -/
theorem order_nsmul_base : order • base = 0 := by
  have h := (Jacobian.represents_ladder (Jacobian.represents_ofAffine represents_generator) 256
    order).1
  rw [Nat.mod_eq_of_lt (by decide)] at h
  exact h.eq_zero (by decide +kernel)

/-- The order of the generator is the prime that it is meant to be. -/
theorem addOrderOf_base : addOrderOf base = order :=
  addOrderOf_eq_prime order_nsmul_base base_ne_zero

theorem zsmul_base_eq_zero_iff (k : Int) : k • base = 0 ↔ (k : ZMod order) = 0 := by
  rw [← addOrderOf_dvd_iff_zsmul_eq_zero, addOrderOf_base, ZMod.intCast_zmod_eq_zero_iff_dvd]

/-- Multiples of the generator count modulo the order. -/
theorem zsmul_base_eq_iff (j k : Int) : j • base = k • base ↔ (j : ZMod order) = k := by
  rw [← sub_eq_zero, ← sub_smul, zsmul_base_eq_zero_iff, Int.cast_sub, sub_eq_zero]

end Curve

namespace Point

open Curve

/-- A multiple of the generator, for any integer. -/
theorem represents_mulBase (k : Int) : (mulBase k).Represents (k • base) := by
  have h := represents_generator.mul k
  have hreduced : (k % order).toNat • base = k • base := by
    rw [← natCast_zsmul, zsmul_base_eq_iff, Int.toNat_of_nonneg (Int.emod_nonneg k (by decide)),
      ZMod.intCast_mod]
  rw [hreduced] at h
  exact h

end Point

end Bitcoin
