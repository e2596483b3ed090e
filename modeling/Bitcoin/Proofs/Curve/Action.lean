import Bitcoin.Key.Secret
import Bitcoin.Proofs.Curve.Order

/-!
# The Scalars Act on the Points

Taking multiples turns sums of scalars into sums of points and products of scalars
into repeated multiples. On the side of the group these are laws of any group. They
hold of the points because a multiple of a point stands for the multiple of its
element, and because no two points stand for the same element.

The scalar is any integer, and it is reduced before anything is computed. That the
reduction does no harm is where the order of the whole group comes in. It also makes
the action faithful: two scalars that are different after reduction take no finite
point to the same multiple. Above all no secret scalar takes the generator to infinity,
so every secret key has a public key.

## Theorems

* `Point.mul_add`, `Point.mul_mul`, `Point.mul_one`, `Point.mul_neg`: The laws of an action.
* `Point.mul_eq_infinity_iff`: Which multiples are infinity.
* `SecretKey.public?_eq_ok`: The public key of a secret key.
* `Point.mul_faithful`: All of these.
-/

namespace Bitcoin

namespace Point

open Curve

variable {p : Point}

/-- A sum of multiples is the multiple by the sum. -/
protected theorem mul_add (hp : p.onCurve = true) (a b : Int) :
    p.mul (a + b) = (p.mul a).add (p.mul b) := by
  rcases onCurve_iff_represents.mp hp with ⟨A, hA⟩
  have hsum := hA.zmul (a + b)
  rw [add_zsmul] at hsum
  exact hsum.eq ((hA.zmul a).add (hA.zmul b))

/-- A multiple of a multiple is the multiple by the product. -/
protected theorem mul_mul (hp : p.onCurve = true) (a b : Int) :
    p.mul (a * b) = (p.mul b).mul a := by
  rcases onCurve_iff_represents.mp hp with ⟨A, hA⟩
  have hproduct := hA.zmul (a * b)
  rw [mul_zsmul] at hproduct
  exact hproduct.eq ((hA.zmul b).zmul a)

/-- One is the multiple that changes nothing. -/
protected theorem mul_one (hp : p.onCurve = true) : p.mul 1 = p := by
  rcases onCurve_iff_represents.mp hp with ⟨A, hA⟩
  have hone := hA.zmul 1
  rw [one_zsmul] at hone
  exact hone.eq hA

/-- The multiple by the opposite integer is the opposite point. -/
protected theorem mul_neg (hp : p.onCurve = true) (a : Int) : p.mul (-a) = (p.mul a).negate := by
  rcases onCurve_iff_represents.mp hp with ⟨A, hA⟩
  have hneg := hA.zmul (-a)
  rw [neg_zsmul] at hneg
  exact hneg.eq (hA.zmul a).negate

/-- The multiples of a finite point that are infinity are those by multiples of the
    order. -/
theorem mul_eq_infinity_iff (hp : p.onCurve = true) (hfinite : p ≠ infinity) (k : Int) :
    p.mul k = infinity ↔ (order : Int) ∣ k := by
  rcases onCurve_iff_represents.mp hp with ⟨A, hA⟩
  rw [(hA.zmul k).eq_infinity_iff]
  exact zsmul_eq_zero_iff (mt hA.eq_infinity_iff.mpr hfinite) k

theorem onCurve_generator : generator.onCurve = true :=
  represents_generator.onCurve

end Point

/-- The public key of a secret key is the multiple of the generator by it, which is a
    finite point. -/
theorem SecretKey.public?_eq_ok (key : SecretKey) :
    ∃ pub : PublicKey, key.public? = .ok pub ∧ pub.toPoint = Point.mulBase key.scalar.val := by
  have hfinite : Point.mulBase key.scalar.val ≠ .infinity := by
    rw [Point.mulBase, Ne,
      Point.mul_eq_infinity_iff Point.onCurve_generator Point.affine_ne_infinity,
      Int.natCast_dvd_natCast]
    exact Nat.not_dvd_of_pos_of_lt key.scalar.pos key.scalar.lt
  rw [SecretKey.public?]
  rcases hpoint : Point.mulBase key.scalar.val with _ | ⟨x, y⟩
  · exact absurd hpoint hfinite
  · exact ⟨⟨x, y⟩, rfl, rfl⟩

/-- The integers modulo the order act on the points of the curve, and faithfully so on the
    finite ones. In particular every secret key has a public key. -/
theorem Point.mul_faithful (p : Point) (hp : p.onCurve = true) (a b k : Int) (key : SecretKey) :
    p.mul (a + b) = (p.mul a).add (p.mul b) ∧ p.mul (a * b) = (p.mul b).mul a ∧
      p.mul 1 = p ∧ p.mul (-a) = (p.mul a).negate ∧
      (p ≠ .infinity → (p.mul k = .infinity ↔ (Curve.order : Int) ∣ k)) ∧
      ∃ pub : PublicKey, key.public? = .ok pub ∧
        pub.toPoint = Point.mulBase key.scalar.val := by
  refine ⟨Point.mul_add hp a b, Point.mul_mul hp a b, Point.mul_one hp, Point.mul_neg hp a, ?_,
    key.public?_eq_ok⟩
  intro hfinite
  exact Point.mul_eq_infinity_iff hp hfinite k

/-- Scalars of any size and sign, the sum of which is the order. -/
theorem Point.mul_faithful_generator :
    Point.generator.onCurve = true ∧ Point.generator ≠ .infinity ∧
      Point.generator.mul ((Curve.order + 1) + -1)
        = (Point.generator.mul (Curve.order + 1)).add (Point.generator.mul (-1)) ∧
      Point.generator.mul (2 * Curve.order) = .infinity := by
  have hlaws := Point.mul_faithful Point.generator (by decide +kernel) (Curve.order + 1) (-1)
    (2 * Curve.order) ⟨⟨1, by decide, by decide⟩⟩
  exact ⟨by decide +kernel, affine_ne_infinity, hlaws.1,
    (hlaws.2.2.2.2.1 affine_ne_infinity).mpr (Int.dvd_mul_left _ _)⟩

end Bitcoin
