import Bitcoin.Proofs.Curve.Order

/-!
# Multiples by Adding Again and Again

The ladder is fast because it doubles and because it never divides, and neither shows
in its result. What it computes is what comes out when the point is added to infinity
over and over with the affine formulas, as often as the scalar says after reduction.

The affine formulas and the formulas on triples have their exceptional cases in
different places, so the two are not compared case by case. Both follow the group, and
a triple stands for the same element as the point it leads back to. Hence leading back
to a point commutes with adding and with doubling, whatever the operands are, and the
two neighbours that the ladder keeps lead back to two neighbouring sums.

## Main definitions

* `Point.repeated`: A point added to infinity a number of times.

## Theorems

* `Jacobian.represents_toPoint_iff`: A triple and its point stand for the same element.
* `Jacobian.toPoint_add`, `Jacobian.toPoint_double`: Triples add up like their points.
* `Jacobian.toPoint_ladder`: The pair that the ladder keeps.
* `Point.mul_eq_repeated`: The ladder computes the repeated sum.
-/

namespace Bitcoin

namespace Point

open Curve

variable {p : Point} {A : CurveGroup}

/-- A point added to infinity a number of times. -/
def repeated (p : Point) : Nat → Point
  | 0 => infinity
  | times + 1 => (p.repeated times).add p

/-- Repeated addition stands for the multiple. -/
theorem Represents.repeated (h : p.Represents A) (times : Nat) :
    (p.repeated times).Represents (times • A) := by
  induction times with
  | zero =>
      rw [zero_nsmul]
      exact Represents.infinity
  | succ times ih =>
      rw [succ_nsmul]
      exact ih.add h

/-- The multiple of a point is the repeated sum. -/
theorem mul_eq (hp : p.onCurve = true) (k : Int) : p.mul k = p.repeated (k % order).toNat := by
  rcases onCurve_iff_represents.mp hp with ⟨A, hA⟩
  exact (hA.mul k).eq (hA.repeated _)

end Point

namespace Jacobian

open Curve FieldElem

variable {a b : Jacobian} {A : CurveGroup}

/-- A triple stands for what the point it leads back to stands for. -/
theorem represents_toPoint_iff : a.toPoint.Represents A ↔ a.Represents A := by
  refine ⟨fun h => ?_, Represents.toPoint⟩
  rw [Jacobian.toPoint] at h
  by_cases hz : a.z = 0
  · rw [if_pos hz] at h
    rw [h.unique Point.Represents.infinity]
    exact Represents.infinity hz
  · rw [if_neg hz] at h
    have hne := residue_z_ne_zero hz
    -- The powers of the third coordinate that were divided by are multiplied with again.
    refine Represents.finite hz h.coords ?_ ?_
    · simp only [residue_mul, residue_inv]
      field_simp
    · simp only [residue_mul, residue_inv]
      field_simp

theorem exists_represents (ha : a.toPoint.onCurve = true) : ∃ A, a.Represents A := by
  rcases Point.onCurve_iff_represents.mp ha with ⟨A, hA⟩
  exact ⟨A, represents_toPoint_iff.mp hA⟩

/-- Triples add up like their points, in every case. -/
theorem toPoint_add (ha : a.toPoint.onCurve = true) (hb : b.toPoint.onCurve = true) :
    (a.add b).toPoint = a.toPoint.add b.toPoint := by
  rcases exists_represents ha with ⟨A, hA⟩
  rcases exists_represents hb with ⟨B, hB⟩
  exact (hA.add hB).toPoint.eq (hA.toPoint.add hB.toPoint)

/-- Doubling in triples is doubling of points. -/
theorem toPoint_double (ha : a.toPoint.onCurve = true) :
    a.double.toPoint = a.toPoint.double := by
  rcases exists_represents ha with ⟨A, hA⟩
  exact hA.double.toPoint.eq hA.toPoint.double

/-- The pair that the ladder keeps: the sum as often as the bits say that have been read,
    and once more. -/
theorem toPoint_ladder {x y : FieldElem} (h : (Point.affine x y).onCurve = true) (bits k : Nat) :
    (ladder (ofAffine x y) bits k).1.toPoint = (Point.affine x y).repeated (k % 2 ^ bits) ∧
      (ladder (ofAffine x y) bits k).2.toPoint
        = (Point.affine x y).repeated (k % 2 ^ bits + 1) := by
  rcases Point.onCurve_iff_represents.mp h with ⟨A, hA⟩
  rcases represents_ladder (represents_ofAffine hA) bits k with ⟨hlow, hhigh⟩
  exact ⟨hlow.toPoint.eq (hA.repeated _), hhigh.toPoint.eq (hA.repeated _)⟩

end Jacobian

/-- The multiple of a point of the curve by an integer is the point added to infinity as
    often as the reduced integer says. On the way there, every sum and every double of
    triples is the sum and the double of their points, and the pair that the ladder keeps
    is a pair of neighbouring sums after any number of bits. -/
theorem Point.mul_eq_repeated {p : Point} (hp : p.onCurve = true) (k : Int) :
    p.mul k = p.repeated (k % Curve.order).toNat ∧
      (∀ a b : Jacobian, a.toPoint.onCurve = true → b.toPoint.onCurve = true →
        (a.add b).toPoint = a.toPoint.add b.toPoint ∧ a.double.toPoint = a.toPoint.double) ∧
      ∀ x y, p = .affine x y → ∀ bits n,
        (Jacobian.ladder (.ofAffine x y) bits n).1.toPoint = p.repeated (n % 2 ^ bits) ∧
          (Jacobian.ladder (.ofAffine x y) bits n).2.toPoint = p.repeated (n % 2 ^ bits + 1) := by
  refine ⟨Point.mul_eq hp k, ?_, ?_⟩
  · intro a b ha hb
    exact ⟨Jacobian.toPoint_add ha hb, Jacobian.toPoint_double ha⟩
  · rintro x y rfl bits n
    exact Jacobian.toPoint_ladder hp bits n

/-- A negative scalar: one less than the order is how often the generator has to be added
    to infinity to end at its opposite. On the way, the triple of the generator may meet
    itself. -/
theorem Point.mul_eq_repeated_generator :
    let base : Jacobian := .ofAffine (Fin.ofNat _ Curve.generatorX) (Fin.ofNat _ Curve.generatorY)
    Point.generator.onCurve = true ∧
      Point.generator.repeated (Curve.order - 1) = Point.generator.negate ∧
      base.toPoint.onCurve = true ∧ (base.add base).toPoint = base.toPoint.add base.toPoint := by
  intro base
  have hcurve : Point.generator.onCurve = true := by decide +kernel
  have hcurve' : base.toPoint.onCurve = true := by decide +kernel
  have hreduced : ((-1 : Int) % Curve.order).toNat = Curve.order - 1 := by decide
  have hladder : Point.generator.mul (-1) = Point.generator.negate := by decide +kernel
  rcases Point.mul_eq_repeated hcurve (-1) with ⟨hmul, htriples, -⟩
  rw [hreduced, hladder] at hmul
  exact ⟨hcurve, hmul.symm, hcurve', (htriples base base hcurve' hcurve').1⟩

end Bitcoin
