import Bitcoin.Curve.Params
import Bitcoin.Modular

/-!
# The Coordinate Field

Coordinates are residues modulo the field prime, so every value of the type is
reduced and equal residues are equal values. Sums, differences and products are
those of residues.

Inverses are powers: the exponent `p - 2` inverts everything but zero, which it
keeps. The prime is 3 modulo 4, so the exponent `(p + 1) / 4` gives a square root
of every square; whether it did is decided by squaring.

## Main definitions

* `FieldElem`: A residue modulo the field prime.
* `FieldElem.ofInt`: The residue of an integer.
* `FieldElem.ofInt?`: The residue an integer in range stands for.
* `FieldElem.inv`, `FieldElem.sqrt?`: Inverse and square root.
* `FieldElem.rhs`: The right-hand side of the curve equation.

## Theorems

* `FieldElem.length_toBytes`: A residue has thirty-two bytes.
-/

namespace Bitcoin

/-- A residue modulo the field prime. -/
abbrev FieldElem := Fin Curve.fieldPrime

namespace FieldElem

/-- The residue of an integer. -/
def ofInt (v : Int) : FieldElem :=
  Fin.ofNat Curve.fieldPrime (v % Curve.fieldPrime).toNat

/-- The residue that an integer already is, if it lies in range. -/
def ofInt? (v : Int) : Option FieldElem :=
  if 0 ≤ v then
    if h : v.toNat < Curve.fieldPrime then some ⟨v.toNat, h⟩ else none
  else none

/-- The power of a residue. -/
def pow (a : FieldElem) (exponent : Nat) : FieldElem :=
  ⟨Modular.powMod a.val exponent Curve.fieldPrime,
    Modular.powMod_lt _ _ Curve.fieldPrime_pos⟩

/-- The inverse of a residue, with zero for zero. -/
def inv (a : FieldElem) : FieldElem :=
  a.pow (Curve.fieldPrime - 2)

/-- A square root of a residue, if it has one. -/
def sqrt? (a : FieldElem) : Option FieldElem :=
  let root := a.pow ((Curve.fieldPrime + 1) / 4)
  if root * root = a then some root else none

/-- The constant term of the curve equation as a residue. -/
def coefficient : FieldElem :=
  Fin.ofNat Curve.fieldPrime Curve.coefficient

/-- The value `x³ + 7`. -/
def rhs (x : FieldElem) : FieldElem :=
  x * x * x + coefficient

/-- Whether the reduced value is odd. -/
def isOdd (a : FieldElem) : Bool :=
  a.val % 2 == 1

/-- The thirty-two bytes of a residue, most significant first. -/
def toBytes (a : FieldElem) : Bytes :=
  Bytes.fixedBE 32 a.val

@[simp] theorem length_toBytes (a : FieldElem) : a.toBytes.length = 32 := by
  simp [toBytes]

end FieldElem

end Bitcoin
