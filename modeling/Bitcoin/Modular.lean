import Bitcoin.Error

/-!
# Modular Arithmetic

Reduction, powers and inverses of integers of any size. A modulus is positive;
zero is refused as a division by zero and a negative one as out of range, before
anything else is looked at.

Powers are taken by repeated squaring. An inverse is the coefficient that the
extended Euclidean algorithm finds, reduced; it exists exactly for the integers
coprime to the modulus.

## Main definitions

* `Modular.divRem`: Quotient and remainder, rounding toward zero.
* `Modular.reduce`: The remainder from zero up.
* `Modular.power`: A power of an integer modulo another.
* `Modular.inverse`: The multiplicative inverse.
* `Modular.powMod`: Powers of natural numbers by repeated squaring.
* `Modular.bezout`: Coefficients that express a greatest common divisor.

## Theorems

* `Modular.powMod_lt`: A power is reduced.
-/

namespace Bitcoin.Modular

/-- Quotient and remainder with the quotient rounded toward zero, so that the
    remainder has the sign of the dividend. -/
def divRem (a b : Int) : Except Error (Int × Int) :=
  if b = 0 then throw .divisionByZero else return (a.tdiv b, a.tmod b)

/-- A modulus, if it is one. -/
def modulus (m : Int) : Except Error Nat :=
  if m = 0 then throw .divisionByZero
  else if m < 0 then throw (.scalarOutOfRange .negativeModulus)
  else return m.toNat

/-- The remainder of an integer in `[0, m)`. -/
def reduce (a m : Int) : Except Error Int := do
  let m ← modulus m
  return a % m

/-- A power of a natural number modulo `m`, by repeated squaring. -/
def powMod (base exponent m : Nat) : Nat :=
  if exponent = 0 then 1 % m
  else
    let square := powMod (base * base % m) (exponent / 2) m
    if exponent % 2 = 1 then base * square % m else square
termination_by exponent

/-- A modular power is reduced. -/
theorem powMod_lt (base exponent : Nat) {m : Nat} (hm : 0 < m) :
    powMod base exponent m < m := by
  fun_induction powMod base exponent m with
  | case1 => exact Nat.mod_lt _ hm
  | case2 => exact Nat.mod_lt _ hm
  | case3 _ _ _ _ _ ih => exact ih

/-- The power of `a` with a natural exponent, modulo `m`. -/
def power (a exponent m : Int) : Except Error Int := do
  let m ← modulus m
  if exponent < 0 then throw (.scalarOutOfRange .negativeExponent)
  return powMod (a % m).toNat exponent.toNat m

/-- Coefficients `(x, y)` with `a * x + b * y` the greatest common divisor of
    `a` and `b`. -/
def bezout (a b : Nat) : Int × Int :=
  if b = 0 then (1, 0)
  else
    let (x, y) := bezout b (a % b)
    (y, x - (a / b : Nat) * y)
termination_by b
decreasing_by exact Nat.mod_lt _ (by omega)

/-- The multiplicative inverse of `a` modulo `m`, in `[0, m)`. -/
def inverse (a m : Int) : Except Error Int := do
  let m ← modulus m
  let residue := (a % m).toNat
  if residue.gcd m = 1 then return (bezout residue m).1 % m
  else throw .notInvertible

end Bitcoin.Modular
