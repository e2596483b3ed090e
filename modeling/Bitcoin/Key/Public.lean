import Bitcoin.Curve.Sec1
import Bitcoin.Ecdsa.Signing

/-!
# Public Keys

A public key is a finite point, so both written forms exist for every key. It is
named by its compressed form, and locked to by the digest of that form.

## Main definitions

* `PublicKey`: A finite point.
* `PublicKey.ofPoint`, `PublicKey.ofBytes`, `PublicKey.ofHex`: Reading a key.
* `PublicKey.recover`: The key a signature belongs to.
* `PublicKey.hash160`: The digest that outputs are locked to.
* `PublicKey.verify`: Whether a signature belongs to the key.
-/

namespace Bitcoin

/-- A finite point as a key. -/
structure PublicKey where
  x : FieldElem
  y : FieldElem
deriving DecidableEq

namespace PublicKey

/-- A point as a key. Infinity is none. -/
def ofPoint : Point → Except Error PublicKey
  | .infinity => throw .pointAtInfinity
  | .affine x y => return ⟨x, y⟩

/-- The key as a point. -/
def toPoint (key : PublicKey) : Point :=
  .affine key.x key.y

/-- The key with the given written form. -/
def ofBytes (bytes : Bytes) : Except Error PublicKey :=
  if bytes.isEmpty then throw (.invalidPublicKey .emptyKey)
  else Point.ofSec1 bytes >>= ofPoint

/-- The key whose written form is given in hexadecimal. -/
def ofHex (text : String) : Except Error PublicKey :=
  match Hex.decode text with
  | .ok bytes => ofBytes bytes
  | .error fault => throw (.invalidHex fault)

/-- The key that a signature over a digest belongs to. -/
def recover (digest : Hash256) (sig : Signature) (id : RecoveryId) : Except Error PublicKey :=
  Ecdsa.recover digest sig id >>= ofPoint

/-- The compressed form. -/
def compressed (key : PublicKey) : Bytes :=
  Sec1.compressed key.x key.y

/-- The full form. -/
def uncompressed (key : PublicKey) : Bytes :=
  Sec1.uncompressed key.x key.y

/-- The compressed form in hexadecimal, which names the key. -/
def toHex (key : PublicKey) : String :=
  Hex.encode key.compressed

/-- The digest of the compressed form. -/
def hash160 (key : PublicKey) : Hash160 :=
  Hash.hash160 key.compressed

/-- Whether a signature over a digest belongs to the key. -/
def verify (key : PublicKey) (digest : Hash256) (sig : Signature) : Bool :=
  Ecdsa.verify key.toPoint digest sig

end PublicKey

end Bitcoin
