import Bitcoin.Curve.Point
import Bitcoin.Proofs.Curve.Field
import Mathlib.AlgebraicGeometry.EllipticCurve.Affine.Point
import Mathlib.Tactic.LinearCombination

/-!
# The Group of Points

The points of the curve form a group under the chord and tangent construction.
That the construction is associative is a theorem about Weierstrass curves over
any field and is taken from there; what is shown here is that the formulas on
coordinates compute it.

The group knows only points that lie on the curve, while a `Point` may be any
pair of coordinates. `Point.Represents` relates the two. It holds of exactly one
element of the group for a point on the curve, and of none for other points, so
one statement about it says both that an operation stays on the curve and that
it has the right value there.

`HasCoords` is the same relation for coordinates that are already residues. The
chord and the tangent are stated with it and with any slope that satisfies the
equation of the line, since the affine formulas and the formulas on triples
divide at different places.

## Main definitions

* `Curve.equation`: The curve over the field of residues.
* `CurveGroup`: The group of its points.
* `Curve.HasCoords`: An element of the group has the given coordinates.
* `Point.Represents`: A point stands for an element of the group.

## Theorems

* `Curve.HasCoords.chord`, `Curve.HasCoords.tangent`: Sums along a line of known
  slope.
* `Point.onCurve_iff_represents`: The points on the curve stand for elements.
* `Point.Represents.negate`, `Point.Represents.double`, `Point.Represents.add`:
  The formulas on coordinates are the operations of the group.
-/

namespace Bitcoin

/-- The curve `y² = x³ + 7` over the field of residues. -/
def Curve.equation : WeierstrassCurve.Affine (ZMod Curve.fieldPrime) :=
  { a₁ := 0, a₂ := 0, a₃ := 0, a₄ := 0, a₆ := 7 }

/-- The group of the points of the curve, infinity included. -/
abbrev CurveGroup : Type := Curve.equation.Point

namespace Curve

open WeierstrassCurve.Affine

/-- Mathlib's equation with the coefficients of this curve. -/
theorem equation_iff (x y : ZMod fieldPrime) : equation.Equation x y ↔ y ^ 2 = x ^ 3 + 7 := by
  rw [WeierstrassCurve.Affine.equation_iff]
  simp only [equation, zero_mul, add_zero]

/-- The curve has no singular point, its discriminant being other than zero. -/
theorem nonsingular_iff (x y : ZMod fieldPrime) : equation.Nonsingular x y ↔ y ^ 2 = x ^ 3 + 7 := by
  rw [← equation_iff]
  refine (equation_iff_nonsingular_of_Δ_ne_zero ?_).symm
  have hΔ : equation.Δ = ((-21168 : Int) : ZMod fieldPrime) := by
    simp only [equation, WeierstrassCurve.Δ, WeierstrassCurve.b₂, WeierstrassCurve.b₄,
      WeierstrassCurve.b₆, WeierstrassCurve.b₈]
    push_cast
    ring
  rw [hΔ, Ne, ZMod.intCast_zmod_eq_zero_iff_dvd]
  decide

/-- The opposite of a point has the opposite second coordinate. -/
theorem negY_eq (x y : ZMod fieldPrime) : equation.negY x y = -y := by
  simp only [negY, equation, zero_mul, sub_zero]

/-- An element of the group is the finite point with the given coordinates. -/
def HasCoords (A : CurveGroup) (x y : ZMod fieldPrime) : Prop :=
  ∃ h, A = .some x y h

namespace HasCoords

variable {A B : CurveGroup} {x y x1 y1 x2 y2 s : ZMod fieldPrime}

/-- Coordinates satisfy the equation. -/
theorem sq_eq (h : HasCoords A x y) : y ^ 2 = x ^ 3 + 7 := by
  rcases h with ⟨h, -⟩
  exact (nonsingular_iff x y).mp h

/-- The zero of the group has no coordinates. -/
theorem ne_zero (h : HasCoords A x y) : A ≠ 0 := by
  rcases h with ⟨h, rfl⟩
  exact Point.some_ne_zero h

/-- Coordinates are those of one element at most. -/
theorem unique (hA : HasCoords A x y) (hB : HasCoords B x y) : A = B := by
  rcases hA with ⟨_, rfl⟩
  rcases hB with ⟨_, rfl⟩
  rfl

/-- An element has one pair of coordinates at most. -/
theorem coords_unique (h1 : HasCoords A x1 y1) (h2 : HasCoords A x2 y2) : x1 = x2 ∧ y1 = y2 := by
  rcases h1 with ⟨_, rfl⟩
  rcases h2 with ⟨_, h⟩
  exact (Point.some.injEq ..).mp h

/-- The first coordinate stays in the opposite element. -/
theorem neg (h : HasCoords A x y) : HasCoords (-A) x (-y) := by
  rcases h with ⟨h, rfl⟩
  rw [← negY_eq x y]
  exact ⟨(nonsingular_neg x y).mpr h, Point.neg_some h⟩

/-- Two points with the same first coordinate are the same or opposite. -/
theorem eq_or_eq_neg (h1 : HasCoords A x y1) (h2 : HasCoords B x y2) : y1 = y2 ∨ y1 = -y2 := by
  refine sq_eq_sq_iff_eq_or_eq_neg.mp ?_
  rw [h1.sq_eq, h2.sq_eq]

/-- The sum along a chord. -/
theorem chord (h1 : HasCoords A x1 y1) (h2 : HasCoords B x2 y2) (hne : x1 ≠ x2)
    (hs : s * (x2 - x1) = y2 - y1) :
    HasCoords (A + B) (s * s - x1 - x2) (s * (x1 - (s * s - x1 - x2)) - y1) := by
  rcases h1 with ⟨h1, rfl⟩
  rcases h2 with ⟨h2, rfl⟩
  -- The slope is given by its equation, and Mathlib gives it by a division.
  have hslope : equation.slope x1 x2 y1 y2 = s := by
    rw [slope_of_X_ne hne, div_eq_iff (sub_ne_zero.mpr hne)]
    linear_combination hs
  have hx : equation.addX x1 x2 s = s * s - x1 - x2 := by
    simp only [addX, equation]
    ring
  have hy : equation.addY x1 x2 y1 s = s * (x1 - (s * s - x1 - x2)) - y1 := by
    rw [addY, negY_eq, negAddY, hx]
    ring
  rw [← hy, ← hx, ← hslope]
  exact ⟨_, Point.add_of_X_ne hne⟩

/-- The sum of an element with itself, along a tangent. -/
theorem tangent (h : HasCoords A x y) (hne : y ≠ 0) (hs : s * (y + y) = 3 * (x * x)) :
    HasCoords (A + A) (s * s - (x + x)) (s * (x - (s * s - (x + x))) - y) := by
  rcases h with ⟨h, rfl⟩
  -- A point that is its own opposite would have a second coordinate of zero.
  have hy : y ≠ equation.negY x y := by
    rw [negY_eq]
    intro heq
    exact hne ((mul_eq_zero.mp (show 2 * y = 0 by linear_combination heq)).resolve_left
      FieldElem.two_ne_zero)
  -- The slope is that of the chord in the limit, again by its equation.
  have hslope : equation.slope x x y y = s := by
    rw [slope_of_Y_ne rfl hy, div_eq_iff (sub_ne_zero.mpr hy), negY_eq]
    simp only [equation]
    linear_combination -hs
  have hx : equation.addX x x s = s * s - (x + x) := by
    simp only [addX, equation]
    ring
  have hy' : equation.addY x x y s = s * (x - (s * s - (x + x))) - y := by
    rw [addY, negY_eq, negAddY, hx]
    ring
  rw [← hy', ← hx, ← hslope]
  exact ⟨_, Point.add_self_of_Y_ne hy⟩

/-- Opposite elements add up to infinity. -/
theorem opposite (h1 : HasCoords A x y) (h2 : HasCoords B x (-y)) : A + B = 0 := by
  rw [unique h2 h1.neg, add_neg_cancel]

/-- Two elements on one vertical line are opposite unless they are the same. -/
theorem vertical (h1 : HasCoords A x y1) (h2 : HasCoords B x y2) (hne : y1 ≠ y2) : A + B = 0 := by
  have hneg := (h2.eq_or_eq_neg h1).resolve_left fun hc => hne hc.symm
  exact h1.opposite (hneg ▸ h2)

/-- An element with a vertical tangent is its own opposite. -/
theorem vertical_tangent (h : HasCoords A x y) (hy : y = 0) : A + A = 0 := by
  have hopposite : HasCoords A x (-y) := by
    rw [hy, neg_zero, ← hy]
    exact h
  exact h.opposite hopposite

end HasCoords

end Curve

namespace Point

open Curve FieldElem

/-- A point stands for an element of the group. -/
inductive Represents : Point → CurveGroup → Prop
  | infinity : Represents infinity 0
  | affine {x y : FieldElem} {A : CurveGroup} (coords : HasCoords A x.residue y.residue) :
      Represents (affine x y) A

variable {p q : Point} {A B : CurveGroup}

/-- A finite point has the coordinates of its element. -/
theorem Represents.coords {x y : FieldElem} (h : (Point.affine x y).Represents A) :
    HasCoords A x.residue y.residue := by
  cases h with
  | affine coords => exact coords

/-- A point stands for one element at most. -/
theorem Represents.unique (hA : p.Represents A) (hB : p.Represents B) : A = B := by
  cases hA with
  | infinity =>
      cases hB with
      | infinity => rfl
  | affine coords => exact coords.unique hB.coords

/-- An element is represented by one point at most. -/
theorem Represents.eq (hp : p.Represents A) (hq : q.Represents A) : p = q := by
  cases hp with
  | infinity =>
      cases hq with
      | infinity => rfl
      | affine coords => exact absurd rfl coords.ne_zero
  | affine coords =>
      cases hq with
      | infinity => exact absurd rfl coords.ne_zero
      | affine coords' =>
          rcases coords.coords_unique coords' with ⟨hx, hy⟩
          rw [residue_inj.mp hx, residue_inj.mp hy]

/-- Every element of the group is represented by some point. -/
theorem exists_represents (A : CurveGroup) : ∃ p : Point, p.Represents A := by
  rcases A with _ | ⟨x, y, h⟩
  · exact ⟨infinity, Represents.infinity⟩
  · rcases exists_residue x with ⟨x', rfl⟩
    rcases exists_residue y with ⟨y', rfl⟩
    exact ⟨affine x' y', Represents.affine ⟨h, rfl⟩⟩

theorem onCurve_affine (x y : FieldElem) :
    (affine x y).onCurve = true ↔ residue y ^ 2 = residue x ^ 3 + 7 := by
  rw [onCurve, beq_iff_eq, ← residue_inj, residue_mul, residue_rhs, pow_two]

/-- The points on the curve are those that stand for an element. -/
theorem onCurve_iff_represents : p.onCurve = true ↔ ∃ A, p.Represents A := by
  cases p with
  | infinity => exact ⟨fun _ => ⟨0, Represents.infinity⟩, fun _ => rfl⟩
  | affine x y =>
      rw [onCurve_affine, ← nonsingular_iff]
      refine ⟨fun h => ⟨_, Represents.affine ⟨h, rfl⟩⟩, fun ⟨_, hA⟩ => ?_⟩
      rcases hA.coords with ⟨h, _⟩
      exact h

/-- Only infinity stands for zero. -/
theorem Represents.isInfinity_iff (h : p.Represents A) : p.isInfinity = true ↔ A = 0 := by
  cases h with
  | infinity => exact ⟨fun _ => rfl, fun _ => rfl⟩
  | affine coords =>
      exact ⟨fun hc => absurd hc Bool.false_ne_true, fun hc => absurd hc coords.ne_zero⟩

/-- The opposite point stands for the opposite element. -/
theorem Represents.negate (h : p.Represents A) : p.negate.Represents (-A) := by
  cases h with
  | infinity =>
      rw [neg_zero]
      exact Represents.infinity
  | affine coords =>
      refine Represents.affine ?_
      rw [residue_sub, residue_zero, zero_sub]
      exact coords.neg

/-- Doubling a point doubles the element. -/
theorem Represents.double (h : p.Represents A) : p.double.Represents (A + A) := by
  cases h with
  | infinity =>
      rw [add_zero]
      exact Represents.infinity
  | @affine x y _ coords =>
      rw [Point.double]
      by_cases hy : y = 0
      · rw [if_pos hy, coords.vertical_tangent (residue_eq_zero.mpr hy)]
        exact Represents.infinity
      · rw [if_neg hy]
        have hne : residue y ≠ 0 := fun hc => hy (residue_eq_zero.mp hc)
        -- The slope that is computed satisfies the equation of the tangent, which is all
        -- that is asked of it.
        have htwice : residue y + residue y ≠ 0 := by
          rw [← two_mul]
          exact mul_ne_zero FieldElem.two_ne_zero hne
        have hs : residue (3 * (x * x) * (y + y).inv) * (residue y + residue y)
            = 3 * (residue x * residue x) := by
          simp only [residue_mul, residue_inv, residue_add, residue_numeral, Nat.cast_ofNat]
          rw [mul_assoc, inv_mul_cancel₀ htwice, mul_one]
        refine Represents.affine ?_
        simpa only [residue_sub, residue_mul, residue_add] using coords.tangent hne hs

/-- Adding points adds the elements. -/
theorem Represents.add (hp : p.Represents A) (hq : q.Represents B) :
    (p.add q).Represents (A + B) := by
  cases hp with
  | infinity =>
      rw [zero_add]
      exact hq
  | @affine x1 y1 _ coords1 =>
      cases hq with
      | infinity =>
          rw [add_zero]
          exact Represents.affine coords1
      | @affine x2 y2 _ coords2 =>
          rw [Point.add]
          by_cases hx : x1 = x2
          · rw [if_pos hx]
            rw [← hx] at coords2
            by_cases hy : y1 = y2
            · have hAB : A = B := coords1.unique (hy ▸ coords2)
              rw [if_pos hy, ← hAB]
              exact Represents.double (Represents.affine coords1)
            · rw [if_neg hy, coords1.vertical coords2 fun hc => hy (residue_inj.mp hc)]
              exact Represents.infinity
          · rw [if_neg hx]
            have hne : residue x1 ≠ residue x2 := fun hc => hx (residue_inj.mp hc)
            -- The same for the slope of the chord.
            have hs : residue ((y2 - y1) * (x2 - x1).inv) * (residue x2 - residue x1)
                = residue y2 - residue y1 := by
              simp only [residue_mul, residue_inv, residue_sub]
              rw [mul_assoc, inv_mul_cancel₀ (sub_ne_zero.mpr hne.symm), mul_one]
            refine Represents.affine ?_
            simpa only [residue_sub, residue_mul] using coords1.chord coords2 hne hs

end Point

end Bitcoin
