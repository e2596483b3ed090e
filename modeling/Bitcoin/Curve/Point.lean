import Bitcoin.Curve.FieldElem

/-!
# Points and the Group Law

A point is infinity or a pair of coordinates. The type does not say that a pair
lies on the curve: the group law below is a set of formulas on coordinates, and
that they lead from points of the curve to points of the curve is a theorem about
them, not a part of the data. `Point.ofCoordinates` is the checked way in.

Addition draws the line through two points. It is written out case by case:
infinity is neutral, a point and its negative add up to infinity, and a point
added to itself is doubled along the tangent.

## Main definitions

* `Point`: Infinity or a pair of coordinates.
* `Point.onCurve`: Whether a point belongs to the curve.
* `Point.add`, `Point.double`, `Point.negate`: The group law.
* `Point.generator`: The generator.
* `Point.decompress`: The point with a given first coordinate and parity.
-/

namespace Bitcoin

/-- Infinity or a pair of coordinates. -/
inductive Point where
  | infinity
  | affine (x y : FieldElem)
deriving DecidableEq

namespace Point

/-- Whether a point belongs to the curve. Infinity does. -/
def onCurve : Point → Bool
  | infinity => true
  | affine x y => y * y == x.rhs

/-- The point with the given coordinates. They must be reduced and satisfy the
    curve equation. -/
def ofCoordinates (x y : Int) : Except Error Point :=
  match FieldElem.ofInt? x, FieldElem.ofInt? y with
  | some x, some y =>
    if y * y = x.rhs then return affine x y else throw .pointNotOnCurve
  | _, _ => throw .pointNotOnCurve

/-- The generator of the group. -/
def generator : Point :=
  affine (Fin.ofNat _ Curve.generatorX) (Fin.ofNat _ Curve.generatorY)

/-- Whether a point is infinity. -/
def isInfinity : Point → Bool
  | infinity => true
  | affine _ _ => false

/-- The point with the opposite second coordinate. -/
def negate : Point → Point
  | infinity => infinity
  | affine x y => affine x (0 - y)

/-- The sum of a point with itself. Where the tangent is vertical that is
    infinity. -/
def double : Point → Point
  | infinity => infinity
  | affine x y =>
    if y = 0 then infinity
    else
      let slope := 3 * (x * x) * (y + y).inv
      let x3 := slope * slope - (x + x)
      affine x3 (slope * (x - x3) - y)

/-- The sum of two points. -/
def add : Point → Point → Point
  | infinity, q => q
  | p, infinity => p
  | affine x1 y1, affine x2 y2 =>
    if x1 = x2 then
      if y1 = y2 then double (affine x1 y1) else infinity
    else
      let slope := (y2 - y1) * (x2 - x1).inv
      let x3 := slope * slope - x1 - x2
      affine x3 (slope * (x1 - x3) - y1)

/-- The point with the given first coordinate whose second one has the given
    parity. -/
def decompress (x : Int) (odd : Bool) : Except Error Point :=
  match FieldElem.ofInt? x with
  | none => throw .pointNotOnCurve
  | some x =>
    match x.rhs.sqrt? with
    | none => throw .pointNotOnCurve
    | some y => return affine x (if y.isOdd = odd then y else 0 - y)

end Point

end Bitcoin
