/-!
# Parameters of secp256k1

The curve is `y² = x³ + 7` over the integers modulo a prime of 256 bits. Its
points form a group of prime order, just below the field prime, and one of them
is fixed as the generator.

## Main definitions

* `Curve.fieldPrime`: The prime `p = 2²⁵⁶ - 2³² - 977`.
* `Curve.order`: The order `n` of the group.
* `Curve.halfOrder`: The largest `s` of a low signature.
* `Curve.coefficient`: The constant term of the equation.
* `Curve.generatorX`, `Curve.generatorY`: The coordinates of the generator.
-/

namespace Bitcoin.Curve

/-- The prime modulo which coordinates are taken. -/
def fieldPrime : Nat :=
  0xfffffffffffffffffffffffffffffffffffffffffffffffffffffffefffffc2f

/-- The number of points of the curve, infinity included. -/
def order : Nat :=
  0xfffffffffffffffffffffffffffffffebaaedce6af48a03bbfd25e8cd0364141

/-- Half the order, rounded down. -/
def halfOrder : Nat :=
  0x7fffffffffffffffffffffffffffffff5d576e7357a4501ddfe92f46681b20a0

/-- The constant term of the curve equation. -/
def coefficient : Nat := 7

/-- The generator's first coordinate. -/
def generatorX : Nat :=
  0x79be667ef9dcbbac55a06295ce870b07029bfcdb2dce28d959f2815b16f81798

/-- The generator's second coordinate. -/
def generatorY : Nat :=
  0x483ada7726a3c4655da4fbfc0e1108a8fd17b448a68554199c47d08ffb10d4b8

/-- There are residues modulo the field prime. -/
theorem fieldPrime_pos : 0 < fieldPrime := by decide

/-- There are residues modulo the group order. -/
theorem order_pos : 0 < order := by decide

/-- Numerals denote residues modulo the field prime. -/
instance neZero_fieldPrime : @NeZero Nat Zero.ofOfNat0 fieldPrime :=
  ⟨Nat.ne_of_gt fieldPrime_pos⟩

end Bitcoin.Curve
