import Bitcoin.Proofs.Curve.Sec1
import Bitcoin.Proofs.Ecdsa.Recovery

/-!
# Points Add Up as in a Group

The type of points has room for pairs of coordinates off the curve, and for such
pairs the laws of a group need not hold. None of them is ever met: whatever is read,
recovered or computed is a point of the curve, since reading checks the equation and
computing does not lead away from it. `Point.Obtainable` is the set of the points that
can be met, step by step as they are made.

On the curve a sum of points stands for the sum of elements, so the laws are those
of the group of elements. No case of the formulas is looked at again; that the cases
fit together is what `Point.Represents.add` says.

## Main definitions

* `Point.Obtainable`: The points that are read, recovered and computed.

## Theorems

* `Point.Obtainable.onCurve`: Such points lie on the curve.
* `Point.add_comm`, `Point.add_assoc`, `Point.add_infinity`, `Point.add_negate`,
  `Point.double_eq_add`: The laws, one by one.
* `Point.add_abelian`: All of them, for obtainable points.
-/

namespace Bitcoin

namespace Point

open Curve

variable {p q r : Point}

theorem onCurve_of_decompress {v : Int} {odd : Bool} (h : decompress v odd = .ok p) :
    p.onCurve = true := by
  rcases decompress_eq_ok.mp h with ⟨_, _, _, hcurve, _⟩
  exact hcurve

/-- What is read from bytes has been checked. -/
theorem onCurve_of_ofSec1 {bytes : Bytes} (h : ofSec1 bytes = .ok p) : p.onCurve = true := by
  rcases ofSec1_eq_ok.mp h with ⟨_, _, _, hcurve, _⟩
  exact hcurve

/-- A recovered point is a sum of multiples, so it has not left the curve. -/
theorem onCurve_of_recover {digest : Hash256} {sig : Signature} {id : RecoveryId}
    (h : Ecdsa.recover digest sig id = .ok p) : p.onCurve = true := by
  rcases (Ecdsa.recover_eq_ok.mp h).2 with ⟨noncePoint, hnonce, rfl, _⟩
  rcases onCurve_iff_represents.mp (onCurve_of_decompress hnonce) with ⟨R, hR⟩
  exact (Ecdsa.represents_recoveredPoint hR digest sig).onCurve

/-- The points that can be met: what is read or recovered, the fixed points, and what is
    computed from such points. -/
inductive Obtainable : Point → Prop
  | infinity : Obtainable infinity
  | generator : Obtainable generator
  | ofCoordinates {x y : Int} {p : Point} (h : ofCoordinates x y = .ok p) : Obtainable p
  | ofSec1 {bytes : Bytes} {p : Point} (h : ofSec1 bytes = .ok p) : Obtainable p
  | decompress {x : Int} {odd : Bool} {p : Point} (h : decompress x odd = .ok p) : Obtainable p
  | recover {digest : Hash256} {sig : Signature} {id : RecoveryId} {p : Point}
      (h : Ecdsa.recover digest sig id = .ok p) : Obtainable p
  | negate {p : Point} (hp : Obtainable p) : Obtainable p.negate
  | double {p : Point} (hp : Obtainable p) : Obtainable p.double
  | add {p q : Point} (hp : Obtainable p) (hq : Obtainable q) : Obtainable (p.add q)
  | mul {p : Point} (k : Int) (hp : Obtainable p) : Obtainable (p.mul k)
  | mulBase (k : Int) : Obtainable (mulBase k)

/-- Points that can be met lie on the curve. The induction is on how the point has been
    made. -/
theorem Obtainable.onCurve (h : p.Obtainable) : p.onCurve = true := by
  induction h with
  | infinity => exact Represents.infinity.onCurve
  | generator => exact represents_generator.onCurve
  -- What is read has passed a check.
  | ofCoordinates h =>
      rcases ofCoordinates_eq_ok.mp h with ⟨_, _, _, hcurve, _⟩
      exact hcurve
  | ofSec1 h => exact onCurve_of_ofSec1 h
  | decompress h => exact onCurve_of_decompress h
  | recover h => exact onCurve_of_recover h
  -- What is computed stands for an element of the group.
  | negate _ ih =>
      rcases onCurve_iff_represents.mp ih with ⟨A, hA⟩
      exact hA.negate.onCurve
  | double _ ih =>
      rcases onCurve_iff_represents.mp ih with ⟨A, hA⟩
      exact hA.double.onCurve
  | add _ _ ihp ihq =>
      rcases onCurve_iff_represents.mp ihp with ⟨A, hA⟩
      rcases onCurve_iff_represents.mp ihq with ⟨B, hB⟩
      exact (hA.add hB).onCurve
  | mul k _ ih =>
      rcases onCurve_iff_represents.mp ih with ⟨A, hA⟩
      exact (hA.mul k).onCurve
  | mulBase k => exact (represents_mulBase k).onCurve

/-- Points of the curve are added in any order. -/
protected theorem add_comm (hp : p.onCurve = true) (hq : q.onCurve = true) :
    p.add q = q.add p := by
  rcases onCurve_iff_represents.mp hp with ⟨A, hA⟩
  rcases onCurve_iff_represents.mp hq with ⟨B, hB⟩
  have hswapped := hB.add hA
  rw [add_comm] at hswapped
  exact (hA.add hB).eq hswapped

/-- Sums of points of the curve may be bracketed in any way. -/
protected theorem add_assoc (hp : p.onCurve = true) (hq : q.onCurve = true)
    (hr : r.onCurve = true) : (p.add q).add r = p.add (q.add r) := by
  rcases onCurve_iff_represents.mp hp with ⟨A, hA⟩
  rcases onCurve_iff_represents.mp hq with ⟨B, hB⟩
  rcases onCurve_iff_represents.mp hr with ⟨C, hC⟩
  have hleft := (hA.add hB).add hC
  rw [add_assoc] at hleft
  exact hleft.eq (hA.add (hB.add hC))

-- Two laws hold of any pair of coordinates, by the cases of the sum.
theorem add_infinity (p : Point) : p.add infinity = p := by
  cases p with
  | infinity => rfl
  | affine => rfl

/-- Doubling has formulas of its own and gives the sum of a point with itself. -/
theorem double_eq_add (p : Point) : p.double = p.add p := by
  cases p with
  | infinity => rfl
  | affine x y => rw [add, if_pos rfl, if_pos rfl]

/-- A point and its opposite cancel. -/
theorem add_negate (hp : p.onCurve = true) : p.add p.negate = infinity := by
  rcases onCurve_iff_represents.mp hp with ⟨A, hA⟩
  have hsum := hA.add hA.negate
  rw [add_neg_cancel] at hsum
  exact hsum.eq Represents.infinity

/-- The points that can be met are an abelian group under addition, with infinity for zero
    and the opposite point for the inverse, and doubling is adding a point to itself. -/
theorem add_abelian (hp : p.Obtainable) (hq : q.Obtainable) (hr : r.Obtainable) :
    p.add q = q.add p ∧ (p.add q).add r = p.add (q.add r) ∧ p.add infinity = p ∧
      p.add p.negate = infinity ∧ p.double = p.add p :=
  ⟨Point.add_comm hp.onCurve hq.onCurve, Point.add_assoc hp.onCurve hq.onCurve hr.onCurve,
    add_infinity p, add_negate hp.onCurve, double_eq_add p⟩

/-- A point, its opposite and its double, where a sum in between is infinity. -/
theorem add_abelian_opposite :
    generator.Obtainable ∧ generator.negate.Obtainable ∧ generator.double.Obtainable ∧
      (generator.add generator.negate).add generator.double = generator.double ∧
      generator.add (generator.negate.add generator.double) = generator.double := by
  have hlaws := add_abelian .generator (.negate .generator) (.double .generator)
  have hsum : (generator.add generator.negate).add generator.double = generator.double := by
    rw [hlaws.2.2.2.1]
    rfl
  exact ⟨.generator, .negate .generator, .double .generator, hsum, hlaws.2.1 ▸ hsum⟩

end Point

end Bitcoin
