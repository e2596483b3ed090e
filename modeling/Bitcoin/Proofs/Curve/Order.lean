import Bitcoin.Proofs.Curve.Multiple
import Bitcoin.Proofs.Curve.Root
import Mathlib.Algebra.Module.ZMod
import Mathlib.GroupTheory.Perm.Cycle.Type

/-!
# The Order of the Group

Multiples are taken by scalars modulo the order of the generator, for every point of
the curve and not for the multiples of the generator only. This is sound because
there are no others: the group has as many elements as the generator has multiples.

Counting the elements exactly is not needed for that. A finite element is known from
its first coordinate and one bit, so there are at most `2p + 1` elements. Their number
is a multiple of the order of the generator, which is just below `p`, so it is that
order or twice that order. In the second case there would be an element that is its
own opposite, and its second coordinate would be zero, which none is.

Since the order annihilates every element, multiples by residues modulo the order make
sense, and the group is a space over the field of scalars.

## Main definitions

* `Point.xParity`: What a point is known from.
* `Curve.scalarModule`: Multiples of elements by residues modulo the order.

## Theorems

* `Point.eq_of_xParity_eq`: A point of the curve is known from these.
* `Curve.card_le`: The bound on the number of elements.
* `Curve.eq_zero_of_add_self`: No element has order two.
* `Curve.card_eq`: The group has prime order.
* `Curve.order_nsmul`: The order annihilates every element.
* `Curve.zsmul_eq_zero_iff`: Which multiples of a finite element are infinity.
* `Point.Represents.zmul`: A multiple of a point, for any integer.
-/

namespace Bitcoin

namespace Point

open Curve

variable {p q : Point} {A B : CurveGroup}

/-- The first coordinate of a finite point and whether its second one is odd. -/
def xParity : Point → Option (FieldElem × Bool)
  | infinity => none
  | affine x y => some (x, y.isOdd)

/-- A point of the curve is known by its first coordinate and the parity of its second one. -/
theorem eq_of_xParity_eq (hp : p.onCurve = true) (hq : q.onCurve = true)
    (h : p.xParity = q.xParity) : p = q := by
  cases p with
  | infinity =>
      cases q with
      | infinity => rfl
      | affine => cases h
  | affine x y =>
      cases q with
      | infinity => cases h
      | affine x' y' =>
          rcases Prod.mk.inj (Option.some.inj h) with ⟨rfl, hodd⟩
          rw [eq_of_parity hp hq hodd]

theorem Represents.onCurve (h : p.Represents A) : p.onCurve = true :=
  onCurve_iff_represents.mpr ⟨A, h⟩

/-- A point is infinity exactly if its element is zero. -/
theorem Represents.eq_infinity_iff (h : p.Represents A) :
    p = Point.infinity ↔ A = 0 := by
  constructor
  · rintro rfl
    exact h.unique Represents.infinity
  · rintro rfl
    exact h.eq Represents.infinity

/-- Elements are told apart by what their points are known from. -/
theorem exists_injective_xParity :
    ∃ f : CurveGroup → Option (FieldElem × Bool), Function.Injective f := by
  choose point hpoint using exists_represents
  refine ⟨fun A => (point A).xParity, fun A B h => ?_⟩
  have hsame := eq_of_xParity_eq (hpoint A).onCurve (hpoint B).onCurve h
  exact (hpoint A).unique (hsame ▸ hpoint B)

end Point

namespace Curve

instance finite_curveGroup : Finite CurveGroup := by
  rcases Point.exists_injective_xParity with ⟨f, hf⟩
  exact Finite.of_injective f hf

/-- Infinity, and no more than two points for every first coordinate. -/
theorem card_le : Nat.card CurveGroup ≤ 2 * fieldPrime + 1 := by
  rcases Point.exists_injective_xParity with ⟨f, hf⟩
  have hcard := Nat.card_le_card_of_injective f hf
  rwa [Finite.card_option, Nat.card_prod, Nat.card_fin, Nat.card_eq_fintype_card (α := Bool),
    Fintype.card_bool, mul_comm] at hcard

/-- No element has order two. -/
theorem eq_zero_of_add_self {A : CurveGroup} (h : A + A = 0) : A = 0 := by
  rcases Point.exists_represents A with ⟨p, hp⟩
  cases p with
  | infinity => exact hp.unique Point.Represents.infinity
  | affine x y =>
      have hdouble := hp.double
      rw [h] at hdouble
      -- So the double is infinity, but the tangent is vertical nowhere.
      have hinfinity := hdouble.eq Point.Represents.infinity
      rw [Point.double, if_neg (Point.y_ne_zero hp.onCurve)] at hinfinity
      cases hinfinity

theorem card_eq : Nat.card CurveGroup = order := by
  rcases addOrderOf_base ▸ addOrderOf_dvd_natCard base with ⟨c, hc⟩
  -- The bound leaves room for two times the order, but not for three times.
  have hpos : 0 < Nat.card CurveGroup := Nat.card_pos
  have hle := card_le
  have hclose : 2 * fieldPrime + 1 < order * 3 := by decide
  have hsmall : c < 3 := by
    refine Nat.lt_of_mul_lt_mul_left (a := order) ?_
    omega
  interval_cases c
  · omega
  · rw [hc, mul_one]
  · -- With twice as many elements there would be one of order two.
    rcases exists_prime_addOrderOf_dvd_card' (G := CurveGroup) 2 ⟨order, by omega⟩ with ⟨A, hA⟩
    have htwice : A + A = 0 := by
      rw [← two_nsmul, ← hA]
      exact addOrderOf_nsmul_eq_zero A
    rw [eq_zero_of_add_self htwice, addOrderOf_zero] at hA
    exact absurd hA (by decide)

/-- By the order of the group, each multiple by it is zero. -/
theorem order_nsmul (A : CurveGroup) : order • A = 0 := by
  rw [← card_eq]
  exact card_nsmul_eq_zero'

/-- Multiples of elements by residues modulo the order, which are the scalars of a field. -/
instance scalarModule : Module (ZMod order) CurveGroup :=
  AddCommGroup.zmodModule order_nsmul

/-- The multiple by an integer is the one by its residue. -/
theorem intCast_smul (k : Int) (A : CurveGroup) : (k : ZMod order) • A = k • A :=
  Int.cast_smul_eq_zsmul (ZMod order) k A

theorem natCast_smul (k : Nat) (A : CurveGroup) : (k : ZMod order) • A = k • A :=
  Nat.cast_smul_eq_nsmul (ZMod order) k A

theorem val_smul (c : ZMod order) (A : CurveGroup) : c.val • A = c • A := by
  rw [← natCast_smul, ZMod.natCast_zmod_val]

/-- The multiples of a finite element that are infinity are those by multiples of the
    order. -/
theorem zsmul_eq_zero_iff {A : CurveGroup} (hA : A ≠ 0) (k : Int) :
    k • A = 0 ↔ (order : Int) ∣ k := by
  rw [← addOrderOf_dvd_iff_zsmul_eq_zero, addOrderOf_eq_prime (order_nsmul A) hA]

end Curve

namespace Point

open Curve

/-- A multiple of a point, for any integer. -/
theorem Represents.zmul {p : Point} {A : CurveGroup} (h : p.Represents A) (k : Int) :
    (p.mul k).Represents (k • A) := by
  have hmul := h.mul k
  -- The scalar that is used is another one with the same residue.
  have hreduced : (k % order).toNat • A = k • A := by
    rw [← natCast_zsmul, Int.toNat_of_nonneg (Int.emod_nonneg k (by decide)), ← intCast_smul,
      ZMod.intCast_mod, intCast_smul]
  rwa [hreduced] at hmul

end Point

end Bitcoin
