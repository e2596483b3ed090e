import Bitcoin.Key.Public

/-!
# Private Keys

A private key is a scalar, written as thirty-two bytes. Its public key is the
multiple of the generator by it. That multiple is a finite point for every
scalar; the type of the multiplication does not say so, and `SecretKey.public?`
passes its answer on as it is.

## Main definitions

* `SecretKey`: A scalar as a key.
* `SecretKey.ofInt`, `SecretKey.ofBytes`, `SecretKey.ofHex`: Reading a key.
* `SecretKey.public?`: The public key.
* `SecretKey.sign`: Signing with deterministic nonces.
-/

namespace Bitcoin

/-- A scalar as a key. -/
structure SecretKey where
  scalar : Scalar
deriving DecidableEq

namespace SecretKey

/-- The key with the given scalar, which must be in range. -/
def ofInt (v : Int) : Except Error SecretKey :=
  match Scalar.ofInt? v with
  | some scalar => return ⟨scalar⟩
  | none => throw (.invalidPrivateKey .range)

/-- The key with the given thirty-two bytes. -/
def ofBytes (bytes : Bytes) : Except Error SecretKey :=
  if bytes.length ≠ 32 then throw (.invalidPrivateKey (.length bytes.length))
  else ofInt bytes.toNatBE

/-- The key whose bytes are given in hexadecimal. -/
def ofHex (text : String) : Except Error SecretKey :=
  match Hex.decode text with
  | .ok bytes => ofBytes bytes
  | .error fault => throw (.invalidHex fault)

/-- The bytes of the key. -/
def toBytes (key : SecretKey) : Bytes :=
  key.scalar.toBytes

/-- How a key is shown. Its bytes are not. -/
def hidden : String := "PrivateKey(..)"

/-- The public key. -/
def public? (key : SecretKey) : Except Error PublicKey :=
  PublicKey.ofPoint (Point.mulBase key.scalar.val)

/-- Signs a digest, and says which nonce point the signature comes from. -/
def sign (key : SecretKey) (digest : Hash256) : Except Error (Signature × RecoveryId) :=
  Ecdsa.sign key.scalar digest

end SecretKey

end Bitcoin
