import Bitcoin.Curve.Point

/-!
# Scalar Multiplication

A multiple of a point takes hundreds of additions, and an affine addition needs
an inverse each time. Here points are written with three coordinates instead,
`(X, Y, Z)` for the affine `(X / Z², Y / Z³)`, where addition needs none; one
inverse at the end leads back. A zero `Z` stands for infinity.

The multiple is found bit by bit from the top. Two neighbours are kept, the
multiple by what has been read so far and the one after it. A further bit doubles
the read part and perhaps adds one, so the new pair consists of a doubled
neighbour and the sum of both, in the order that the bit says. Each bit costs one
addition and one doubling.

## Main definitions

* `Jacobian`: A point with three coordinates.
* `Jacobian.add`, `Jacobian.double`: The group law on them.
* `Jacobian.ladder`: The multiple by the low bits of a number, and its neighbour.
* `Point.mul`: The multiple of a point by an integer.

## Theorems

* `Jacobian.ladder_zero`, `Jacobian.ladder_succ`: The steps of the ladder.
-/

namespace Bitcoin

/-- A point with three coordinates. -/
structure Jacobian where
  x : FieldElem
  y : FieldElem
  z : FieldElem

namespace Jacobian

/-- The point at infinity. -/
def infinity : Jacobian := ⟨1, 1, 0⟩

/-- The point that stands for the affine point with the given coordinates. -/
def ofAffine (x y : FieldElem) : Jacobian := ⟨x, y, 1⟩

/-- The point a triple stands for. -/
def toPoint (p : Jacobian) : Point :=
  if p.z = 0 then .infinity
  else
    let i := p.z.inv
    let i2 := i * i
    .affine (p.x * i2) (p.y * (i2 * i))

/-- The sum of a point with itself. -/
def double (p : Jacobian) : Jacobian :=
  if p.z = 0 ∨ p.y = 0 then infinity
  else
    let a := p.x * p.x
    let b := p.y * p.y
    let c := b * b
    let half := (p.x + b) * (p.x + b) - a - c
    let d := half + half
    let e := a + a + a
    let x3 := e * e - (d + d)
    let yz := p.y * p.z
    ⟨x3, e * (d - x3) - 8 * c, yz + yz⟩

/-- The sum of two points. -/
def add (p q : Jacobian) : Jacobian :=
  if p.z = 0 then q
  else if q.z = 0 then p
  else
    let zp := p.z * p.z
    let zq := q.z * q.z
    let u1 := p.x * zq
    let u2 := q.x * zp
    let s1 := p.y * q.z * zq
    let s2 := q.y * p.z * zp
    if u1 = u2 then
      if s1 = s2 then p.double else infinity
    else
      let h := u2 - u1
      let r := s2 - s1
      let h2 := h * h
      let h3 := h2 * h
      let v := u1 * h2
      let x3 := r * r - h3 - (v + v)
      ⟨x3, r * (v - x3) - s1 * h3, h * p.z * q.z⟩

/-- The multiple of a point by the lowest `bits` bits of a number, and the
    multiple by one more. -/
def ladder (base : Jacobian) : Nat → Nat → Jacobian × Jacobian
  | 0, _ => (infinity, base)
  | bits + 1, k =>
    let (low, high) := ladder base bits (k / 2)
    if k % 2 = 0 then (low.double, low.add high) else (low.add high, high.double)

theorem ladder_zero (base : Jacobian) (k : Nat) : ladder base 0 k = (infinity, base) := rfl

/-- One more bit, given the neighbours that the bits above it lead to. -/
theorem ladder_succ (base : Jacobian) (bits k : Nat) :
    ladder base (bits + 1) k =
      if k % 2 = 0 then
        ((ladder base bits (k / 2)).1.double,
          (ladder base bits (k / 2)).1.add (ladder base bits (k / 2)).2)
      else
        ((ladder base bits (k / 2)).1.add (ladder base bits (k / 2)).2,
          (ladder base bits (k / 2)).2.double) := rfl

-- A multiple takes 256 bits, which no proof should ever unfold one by one.
attribute [irreducible] ladder

end Jacobian

namespace Point

/-- The multiple of a point by an integer, which counts modulo the order of the
    group. -/
def mul (k : Int) : Point → Point
  | infinity => infinity
  | affine x y =>
    (Jacobian.ladder (.ofAffine x y) 256 (k % Curve.order).toNat).1.toPoint

/-- The multiple of the generator by an integer. -/
def mulBase (k : Int) : Point :=
  generator.mul k

end Point

end Bitcoin
