import Bitcoin.Proofs.Curve.Integers
import Bitcoin.Proofs.Curve.Law
import Mathlib.Data.Int.ModEq

/-!
# Points Never Leave the Curve

With integers for coordinates a point may be anything at all: a pair that is off the curve,
or one that is on it up to multiples of the field prime. The second kind is the worse one,
since many pairs then stand for one element of the group, and comparing points no longer
compares elements.

`IntPoint.Obtainable` is the set of the points that are met with such coordinates, made
step by step from what comes in by the formulas, which check nothing. Each of them is a
point of residues that has been met in the same way. So it is on the curve, its coordinates
are in range, and it is the only pair that stands for its element.

## Main definitions

* `FieldInt.residue`: The residue of an integer.
* `IntPoint.Represents`: A point stands for the element that its residues are coordinates of.
* `IntPoint.Obtainable`: The points that are read, recovered and computed.

## Theorems

* `IntPoint.onCurve_iff`: The check, as a range and a congruence.
* `Point.represents_toIntPoint`: Residues and integers stand for the same element.
* `IntPoint.Obtainable.exists_point`: A point that is met is one of residues.
* `IntPoint.obtainable_exact`: They are on the curve and equal exactly as elements.
-/

namespace Bitcoin

open Curve

namespace FieldInt

/-- The residue of an integer, in range or not. -/
def residue (a : FieldInt) : ZMod fieldPrime := (a.val : ZMod fieldPrime)

/-- The equation between remainders is a congruence of the integers. -/
theorem mul_self_eq_rhs_iff (x y : FieldInt) :
    y * y = x.rhs ↔ y.val ^ 2 ≡ x.val ^ 3 + 7 [ZMOD fieldPrime] := by
  -- The remainders that are taken on the way make no difference for the last one.
  have hrhs : x.val * x.val % fieldPrime * x.val % fieldPrime + 7 ≡
      x.val ^ 3 + 7 [ZMOD fieldPrime] := by
    refine Int.ModEq.add_right 7 ((Int.mod_modEq _ _).trans ?_)
    rw [pow_succ, pow_two]
    exact (Int.mod_modEq _ _).mul_right _
  change reduced (y.val * y.val) =
    reduced (x.val * x.val % fieldPrime * x.val % fieldPrime + 7) ↔ _
  rw [reduced, reduced, mk.injEq, pow_two]
  exact ⟨fun h => Int.ModEq.trans h hrhs, fun h => Int.ModEq.trans h hrhs.symm⟩

end FieldInt

namespace IntPoint

variable {p : IntPoint}

/-- The check of a point is passed by infinity and by the pairs in range that satisfy the
    equation up to multiples of the field prime. -/
theorem onCurve_iff : p.onCurve = true ↔ p = infinity ∨ ∃ x y, p = affine x y ∧
    x.InRange ∧ y.InRange ∧ y.val ^ 2 ≡ x.val ^ 3 + 7 [ZMOD fieldPrime] := by
  cases p with
  | infinity => exact ⟨fun _ => .inl rfl, fun _ => rfl⟩
  | affine x y =>
      rw [onCurve, decide_eq_true_iff, FieldInt.mul_self_eq_rhs_iff]
      constructor
      · exact fun h => .inr ⟨x, y, rfl, h⟩
      · rintro (h | ⟨_, _, h, hcurve⟩)
        · cases h
        · cases h
          exact hcurve

/-- A point stands for the element of the group that has the residues of its coordinates.
    The coordinates need not be in range for that. -/
inductive Represents : IntPoint → CurveGroup → Prop
  | infinity : Represents infinity 0
  | affine {x y : FieldInt} {A : CurveGroup} (coords : HasCoords A x.residue y.residue) :
      Represents (affine x y) A

/-- The points that are met with integer coordinates: what is read or recovered, the fixed
    points, and what is computed from such points. -/
inductive Obtainable : IntPoint → Prop
  | infinity : Obtainable infinity
  | generator : Obtainable generator
  | ofCoordinates {x y : Int} {p : IntPoint} (h : ofCoordinates x y = .ok p) : Obtainable p
  | ofSec1 {bytes : Bytes} {p : IntPoint} (h : ofSec1 bytes = .ok p) : Obtainable p
  | decompress {x : Int} {odd : Bool} {p : IntPoint} (h : decompress x odd = .ok p) :
      Obtainable p
  | recover {digest : Hash256} {sig : Signature} {id : RecoveryId} {p : IntPoint}
      (h : recover digest sig id = .ok p) : Obtainable p
  | negate {p : IntPoint} (hp : Obtainable p) : Obtainable p.negate
  | double {p : IntPoint} (hp : Obtainable p) : Obtainable p.double
  | add {p q : IntPoint} (hp : Obtainable p) (hq : Obtainable q) : Obtainable (p.add q)
  | mul {p : IntPoint} (k : Int) (hp : Obtainable p) : Obtainable (p.mul k)
  | mulBase (k : Int) : Obtainable (mulBase k)

end IntPoint

theorem FieldElem.residue_toFieldInt (a : FieldElem) : a.toFieldInt.residue = a.residue :=
  Int.cast_natCast a.val

namespace Point

open FieldElem

variable {p : Point} {A : CurveGroup}

/-- Residues stand for the same element when they are read as integers, since taking their residues
    gives them back. -/
theorem represents_toIntPoint : p.toIntPoint.Represents A ↔ p.Represents A := by
  cases p with
  | infinity =>
      constructor
      · intro h
        cases h
        exact .infinity
      · intro h
        cases h
        exact .infinity
  | affine x y =>
      constructor
      · intro h
        cases h with
        | affine coords =>
            rw [residue_toFieldInt, residue_toFieldInt] at coords
            exact .affine coords
      · intro h
        refine .affine ?_
        rw [residue_toFieldInt, residue_toFieldInt]
        exact h.coords

-- What is read with integers is what is read with residues.
theorem eq_ok_iff_of_map {x : Except Error Point} {y : Except Error IntPoint} {v : IntPoint}
    (h : x.map toIntPoint = y) : y = .ok v ↔ ∃ p, x = .ok p ∧ p.toIntPoint = v := by
  subst h
  rcases x with error | p
  · constructor
    · intro h
      cases h
    · rintro ⟨_, h, _⟩
      cases h
  · constructor
    · exact fun h => ⟨p, rfl, Except.ok.inj h⟩
    · rintro ⟨_, h, rfl⟩
      cases h
      rfl

end Point

namespace IntPoint

variable {p q : IntPoint}

/-- A point that is met with integers is one of residues, met in the same way. So no step
    leads out of range. The induction is again on how the point has been made. -/
theorem Obtainable.exists_point (h : p.Obtainable) :
    ∃ p' : Point, p'.Obtainable ∧ p'.toIntPoint = p := by
  induction h with
  | infinity => exact ⟨_, .infinity, rfl⟩
  | generator => exact ⟨_, .generator, rfl⟩
  -- What is read comes from the same reading of residues, and what is computed from the points
  -- that have been met before.
  | ofCoordinates h =>
      rcases (Point.eq_ok_iff_of_map (Point.map_ofCoordinates _ _)).mp h with ⟨p', hread, rfl⟩
      exact ⟨p', .ofCoordinates hread, rfl⟩
  | ofSec1 h =>
      rcases (Point.eq_ok_iff_of_map (Point.map_ofSec1 _)).mp h with ⟨p', hread, rfl⟩
      exact ⟨p', .ofSec1 hread, rfl⟩
  | decompress h =>
      rcases (Point.eq_ok_iff_of_map (Point.map_decompress _ _)).mp h with ⟨p', hread, rfl⟩
      exact ⟨p', .decompress hread, rfl⟩
  | recover h =>
      rcases (Point.eq_ok_iff_of_map (Ecdsa.map_recover _ _ _)).mp h with ⟨p', hread, rfl⟩
      exact ⟨p', .recover hread, rfl⟩
  | negate _ ih =>
      rcases ih with ⟨p', hp, rfl⟩
      exact ⟨_, hp.negate, Point.toIntPoint_negate p'⟩
  | double _ ih =>
      rcases ih with ⟨p', hp, rfl⟩
      exact ⟨_, hp.double, Point.toIntPoint_double p'⟩
  | add _ _ ihp ihq =>
      rcases ihp with ⟨p', hp, rfl⟩
      rcases ihq with ⟨q', hq, rfl⟩
      exact ⟨_, hp.add hq, Point.toIntPoint_add p' q'⟩
  | mul k _ ih =>
      rcases ih with ⟨p', hp, rfl⟩
      exact ⟨_, hp.mul k, Point.toIntPoint_mul p' k⟩
  | mulBase k => exact ⟨_, .mulBase k, Point.toIntPoint_mulBase k⟩

/-- Points that are met never leave the curve, and are equal exactly if they stand for the
    same element of the group. -/
theorem obtainable_exact (hp : p.Obtainable) (hq : q.Obtainable) :
    p.onCurve = true ∧
    (p = infinity ∨ ∃ x y, p = affine x y ∧ (0 ≤ x.val ∧ x.val < fieldPrime) ∧
      (0 ≤ y.val ∧ y.val < fieldPrime) ∧ y.val ^ 2 ≡ x.val ^ 3 + 7 [ZMOD fieldPrime]) ∧
    (∃ p' : Point, p'.Obtainable ∧ p'.onCurve = true ∧ p'.toIntPoint = p) ∧
    (∃! A, p.Represents A) ∧
    ∀ A B, p.Represents A → q.Represents B → (p = q ↔ A = B) := by
  rcases hp.exists_point with ⟨p', hp', rfl⟩
  rcases hq.exists_point with ⟨q', hq', rfl⟩
  -- All of it is known of points of residues already.
  have hcurve : p'.toIntPoint.onCurve = true := (Point.onCurve_toIntPoint p').trans hp'.onCurve
  rcases Point.onCurve_iff_represents.mp hp'.onCurve with ⟨C, hC⟩
  refine ⟨hcurve, onCurve_iff.mp hcurve, ⟨p', hp', hp'.onCurve, rfl⟩,
    ⟨C, Point.represents_toIntPoint.mpr hC,
      fun A hA => (Point.represents_toIntPoint.mp hA).unique hC⟩, fun A B hA hB => ?_⟩
  -- Between points of residues, an element is known by its point and a point by its element.
  rw [Point.represents_toIntPoint] at hA hB
  rw [Point.toIntPoint_inj]
  constructor
  · rintro rfl
    exact hA.unique hB
  · rintro rfl
    exact hA.eq hB

/-- The generator and its opposite are two points, so they stand for two elements. -/
theorem obtainable_exact_opposite :
    generator.Obtainable ∧ generator.negate.Obtainable ∧ generator.onCurve = true ∧
      generator.negate.onCurve = true ∧
      ∃ A B, generator.Represents A ∧ generator.negate.Represents B ∧ A ≠ B := by
  have hne : generator ≠ generator.negate := by decide
  rcases obtainable_exact .generator (.negate .generator) with ⟨hcurve, -, -, ⟨A, hA, -⟩, heq⟩
  rcases obtainable_exact (.negate .generator) .generator with ⟨hopposite, -, -, ⟨B, hB, -⟩, -⟩
  exact ⟨.generator, .negate .generator, hcurve, hopposite, A, B, hA, hB,
    mt (heq A B hA hB).mpr hne⟩

end IntPoint

end Bitcoin
