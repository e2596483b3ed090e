import Bitcoin.Curve.FieldElem

/-!
# Signatures

A signature is a pair of scalars, residues modulo the group order other than
zero. The range is part of the scalar's type, so whatever holds a signature holds
one in range, and the encodings below need no cases for anything else.

For every signature `(r, s)` the pair `(r, n - s)` verifies too. The low form is
the one of the two with the smaller `s`.

A recovery id tells which of the points with a given `r` was the nonce point: the
parity of its second coordinate, and whether its first coordinate was reduced.

## Main definitions

* `Scalar`: A residue from one to the group order, exclusive.
* `Scalar.negate`: The residue with the opposite sign.
* `Signature`: A pair of scalars.
* `Signature.ofInts`: The signature with given components.
* `Signature.isLow`, `Signature.toLow`: The low form.
* `RecoveryId`: Which nonce point a signature comes from.
-/

namespace Bitcoin

/-- A residue from one to the group order, exclusive. -/
structure Scalar where
  /-- The residue. -/
  val : Nat
  /-- It is not zero. -/
  pos : 0 < val
  /-- It is reduced. -/
  lt : val < Curve.order
deriving DecidableEq

namespace Scalar

/-- The scalar that an integer already is, if it lies in range. -/
def ofInt? (v : Int) : Option Scalar :=
  if h : 0 < v.toNat ∧ v.toNat < Curve.order then some ⟨v.toNat, h.1, h.2⟩ else none

/-- The scalar with the opposite sign. -/
def negate (k : Scalar) : Scalar :=
  ⟨Curve.order - k.val, by have := k.lt; omega, by have := k.pos; have := k.lt; omega⟩

/-- The inverse of a number modulo the group order, with zero for the multiples
    of it. -/
def inv (k : Nat) : Nat :=
  Modular.powMod (k % Curve.order) (Curve.order - 2) Curve.order

/-- The thirty-two bytes of a scalar, most significant first. -/
def toBytes (k : Scalar) : Bytes :=
  Bytes.fixedBE 32 k.val

end Scalar

/-- An ECDSA signature. -/
structure Signature where
  r : Scalar
  s : Scalar
deriving DecidableEq

namespace Signature

/-- The signature with the given components, each checked to be in range. -/
def ofInts (r s : Int) : Except Error Signature :=
  match Scalar.ofInt? r, Scalar.ofInt? s with
  | none, _ => throw (.scalarOutOfRange (.component .r))
  | some _, none => throw (.scalarOutOfRange (.component .s))
  | some r, some s => return ⟨r, s⟩

/-- Whether the second component is no more than half the order. -/
def isLow (sig : Signature) : Bool :=
  sig.s.val ≤ Curve.halfOrder

/-- The low form of a signature. -/
def toLow (sig : Signature) : Signature :=
  if sig.isLow then sig else { sig with s := sig.s.negate }

end Signature

/-- Which of the points with a given first coordinate was the nonce point. -/
structure RecoveryId where
  /-- The second coordinate was odd. -/
  yOdd : Bool
  /-- The first coordinate was not below the group order. -/
  xReduced : Bool
deriving DecidableEq

namespace RecoveryId

/-- The id as a number below four. -/
def toByte (id : RecoveryId) : UInt8 :=
  (if id.yOdd then 1 else 0) + (if id.xReduced then 2 else 0)

/-- The id that a byte stands for. -/
def ofByte (byte : UInt8) : Except Error RecoveryId :=
  if 3 < byte then throw (.invalidRecoveryId byte)
  else return ⟨byte % 2 = 1, 2 ≤ byte⟩

/-- The id of the point with the opposite second coordinate. -/
def flipParity (id : RecoveryId) : RecoveryId :=
  { id with yOdd := !id.yOdd }

end RecoveryId

end Bitcoin
