import Bitcoin.Curve.Point

/-!
# Written Points

A finite point is written in one of two forms. The compressed one has thirty-three
bytes, the parity of the second coordinate and the first coordinate; the full one
has sixty-five, a marker and both coordinates. Infinity has no form. Reading a
compressed form finds the second coordinate from the curve equation, reading a
full one checks the equation.

## Main definitions

* `Sec1.compressed`, `Sec1.uncompressed`: The forms of a pair of coordinates.
* `Point.toCompressed`, `Point.toUncompressed`: The forms of a point.
* `Point.ofSec1`: The point a form stands for.
-/

namespace Bitcoin

namespace Sec1

/-- The compressed form: parity, then the first coordinate. -/
def compressed (x y : FieldElem) : Bytes :=
  (if y.isOdd then 3 else 2) :: x.toBytes

/-- The full form: a marker, then both coordinates. -/
def uncompressed (x y : FieldElem) : Bytes :=
  4 :: x.toBytes ++ y.toBytes

end Sec1

namespace Point

/-- The compressed form of a finite point. -/
def toCompressed : Point → Except Error Bytes
  | infinity => throw .pointAtInfinity
  | affine x y => return Sec1.compressed x y

/-- The full form of a finite point. -/
def toUncompressed : Point → Except Error Bytes
  | infinity => throw .pointAtInfinity
  | affine x y => return Sec1.uncompressed x y

/-- The point a written form stands for. Only the two forms above are known. -/
def ofSec1 : Bytes → Except Error Point
  | [] => throw (.invalidPublicKey .emptyPoint)
  | first :: rest =>
    if (first = 2 ∨ first = 3) ∧ rest.length = 32 then
      decompress (Bytes.toNatBE rest) (first = 3)
    else if first = 4 ∧ rest.length = 64 then
      ofCoordinates (Bytes.toNatBE (rest.take 32)) (Bytes.toNatBE (rest.drop 32))
    else throw (.invalidPublicKey (.unsupported first (rest.length + 1)))

end Point

end Bitcoin
