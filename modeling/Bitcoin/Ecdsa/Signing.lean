import Bitcoin.Curve.Jacobian
import Bitcoin.Ecdsa.Nonce
import Bitcoin.Ecdsa.Signature

/-!
# Signing, Verifying, Recovering

A signer turns a nonce `k` into the point `kG`, takes its first coordinate modulo
the group order for `r`, and solves `s k = e + r d` for `s`, where `d` is the
secret and `e` the digest. A verifier solves the same equation for the point, and
compares. Recovery solves it for the key, given which of the points with first
coordinate `r` is meant.

Signing is stated over any source of nonces, a function from attempts to numbers.
A nonce that leads to infinity or to a zero component is discarded and the next
attempt is made. What comes out does not depend on where nonces come from, only
which of the valid signatures it is.

## Main definitions

* `Ecdsa.attempt`: The signature a nonce leads to.
* `Ecdsa.signWith`: Signing with a given source of nonces.
* `Ecdsa.sign`: Signing with deterministic nonces.
* `Ecdsa.verify`: Whether a signature belongs to a key and a digest.
* `Ecdsa.recover`: The key a signature belongs to.
-/

namespace Bitcoin.Ecdsa

/-- The low signature and recovery id that a nonce leads to, unless the nonce is
    unusable. -/
def attempt (secret : Scalar) (e k : Nat) : Option (Signature × RecoveryId) :=
  match Point.mulBase k with
  | .infinity => none
  | .affine x y =>
    let r := x.val % Curve.order
    let s := Scalar.inv k * (e + r * secret.val) % Curve.order
    if h : 0 < r ∧ 0 < s then
      let sig : Signature :=
        ⟨⟨r, h.1, Nat.mod_lt _ Curve.order_pos⟩, ⟨s, h.2, Nat.mod_lt _ Curve.order_pos⟩⟩
      let id : RecoveryId := ⟨y.isOdd, Curve.order ≤ x.val⟩
      some (sig.toLow, if sig.isLow then id else id.flipParity)
    else none

/-- The signature of the first usable one among the next `count` attempts. -/
def search (secret : Scalar) (e : Nat) (nonce : Nat → Nat) :
    Nat → Nat → Option (Signature × RecoveryId)
  | 0, _ => none
  | count + 1, number =>
    match attempt secret e (nonce number) with
    | some found => some found
    | none => search secret e nonce count (number + 1)

/-- How many attempts are made at a signature. -/
def maxAttempts : Nat := 0x100000000

/-- Signs a digest with nonces from the given source. -/
def signWith (nonce : Nat → Nat) (secret : Scalar) (digest : Hash256) :
    Except Error (Signature × RecoveryId) :=
  match search secret digest.toNatBE nonce maxAttempts 0 with
  | some found => return found
  | none => throw (.invalidSignature .noncesExhausted)

/-- Signs a digest with deterministic nonces. -/
def sign (secret : Scalar) (digest : Hash256) : Except Error (Signature × RecoveryId) :=
  signWith (Nonce.derive secret.val digest) secret digest

/-- Whether a signature belongs to a key and a digest. A key that is infinity or
    off the curve has no signatures. -/
def verify (key : Point) (digest : Hash256) (sig : Signature) : Bool :=
  if key.isInfinity ∨ ¬key.onCurve then false
  else
    let w := Scalar.inv sig.s.val
    let u1 := digest.toNatBE * w % Curve.order
    let u2 := sig.r.val * w % Curve.order
    match (Point.mulBase u1).add (key.mul u2) with
    | .infinity => false
    | .affine x _ => x.val % Curve.order = sig.r.val

/-- The key that a signature over a digest belongs to, given its recovery id. -/
def recover (digest : Hash256) (sig : Signature) (id : RecoveryId) : Except Error Point := do
  let r := sig.r.val
  let x := if id.xReduced then r + Curve.order else r
  if Curve.fieldPrime ≤ x then throw (.invalidSignature .xOutOfField)
  let noncePoint ← Point.decompress x id.yOdd
  let w := Scalar.inv r
  let u1 : Int := -(w * digest.toNatBE : Nat) % Curve.order
  let u2 := w * sig.s.val % Curve.order
  match (Point.mulBase u1).add (noncePoint.mul u2) with
  | .infinity => throw .pointAtInfinity
  | key => return key

end Bitcoin.Ecdsa
