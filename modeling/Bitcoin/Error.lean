import Bitcoin.Hex

/-!
# Faults of Arithmetic, Encodings and Keys

One type for everything that can go wrong below scripts and transactions. Each
constructor is a cause, with the data that its wording needs; the wording itself
stands in `Error.message` alone. A cause that comes in several kinds (the ways
in which a DER signature can be malformed, say) has a type of its own, so that a
theorem can name the kind without quoting a sentence.

`Error.kind` tells a malformed encoding from a request that is well formed and
mathematically void.

## Main definitions

* `Error`: Why an operation has no result.
* `Error.message`: The wording of an error.
* `Error.name`: Its name in reports.
* `Error.kind`: Encoding defect or domain defect.
-/

namespace Bitcoin

/-- One of the two halves of an ECDSA signature. -/
inductive Component where
  | r
  | s
deriving DecidableEq

/-- The name of a component. -/
def Component.name : Component → String
  | .r => "r"
  | .s => "s"

/-- Why an integer cannot stand where a scalar is wanted. -/
inductive ScalarFault where
  /-- A negative number has no unsigned form. -/
  | negativeValue
  /-- Powers are taken with exponents from zero on. -/
  | negativeExponent
  /-- A modulus is positive. -/
  | negativeModulus
  /-- A signature component lies from one to the group order, exclusive. -/
  | component (c : Component)
deriving DecidableEq

/-- Why bytes or a scalar are no private key. -/
inductive SecretFault where
  /-- A private key has thirty-two bytes. -/
  | length (got : Nat)
  /-- The scalar is zero or not below the group order. -/
  | range
deriving DecidableEq

/-- Why bytes are no public key. -/
inductive PublicKeyFault where
  /-- There are no bytes where a curve point is wanted. -/
  | emptyPoint
  /-- There are no bytes where a key is wanted. -/
  | emptyKey
  /-- No encoding has this first byte and this length. -/
  | unsupported (first : UInt8) (length : Nat)
deriving DecidableEq

/-- Why bytes are no DER signature. -/
inductive DerFault where
  | tooShort
  | tooLong
  | sequenceTag
  | sequenceLength
  | rOverrun
  | integerLengths
  | notInteger (c : Component)
  | zeroLength (c : Component)
  | negative (c : Component)
  | leadingZero (c : Component)
  | range (c : Component)
deriving DecidableEq

/-- Why a signature is refused for a reason other than its DER form. -/
inductive SignatureFault where
  /-- A component of a compact signature is out of range. -/
  | component (c : Component)
  /-- A recoverable signature starts with one of eight header bytes. -/
  | header (byte : UInt8)
  /-- No candidate nonce gave a signature. -/
  | noncesExhausted
  /-- The nonce point's coordinate would not lie below the field prime. -/
  | xOutOfField
deriving DecidableEq

/-- Why an operation has no result. -/
inductive Error where
  | notInvertible
  | divisionByZero
  | valueTooWide (needed width : Nat)
  | pointNotOnCurve
  | pointAtInfinity
  | scalarOutOfRange (fault : ScalarFault)
  | invalidPrivateKey (fault : SecretFault)
  | invalidPublicKey (fault : PublicKeyFault)
  | invalidDer (fault : DerFault)
  | invalidSignature (fault : SignatureFault)
  | invalidRecoveryId (id : UInt8)
  | invalidLength (expected got : Nat)
  | invalidHex (fault : Hex.Fault)
  | nonCanonicalSize
  | unexpectedEnd
deriving DecidableEq

/-- The two classes of error. -/
inductive Error.Kind where
  /-- Malformed bytes or text. -/
  | encoding
  /-- A mathematically void request. -/
  | domain
deriving DecidableEq

/-- The name of a class. -/
def Error.Kind.name : Error.Kind → String
  | .encoding => "Encoding"
  | .domain => "Domain"

/-- The wording of a scalar fault. -/
def ScalarFault.message : ScalarFault → String
  | .negativeValue => "negative values have no unsigned encoding"
  | .negativeExponent => "negative exponent"
  | .negativeModulus => "modulus must be positive"
  | .component c => s!"signature {c.name} must be in [1, n - 1]"

/-- The wording of a private key fault. -/
def SecretFault.message : SecretFault → String
  | .length got => s!"expected 32 bytes, got {got}"
  | .range => "scalar must be in [1, n - 1]"

/-- The wording of a public key fault. -/
def PublicKeyFault.message : PublicKeyFault → String
  | .emptyPoint => "empty input"
  | .emptyKey => "pubkey is empty"
  | .unsupported first length =>
    "unsupported encoding: prefix 0x" ++ Hex.encode [first] ++ s!", {length} bytes"

/-- The wording of a DER fault. -/
def DerFault.message : DerFault → String
  | .tooShort => "too short"
  | .tooLong => "too long"
  | .sequenceTag => "missing sequence tag"
  | .sequenceLength => "sequence length does not match data"
  | .rOverrun => "r length overruns signature"
  | .integerLengths => "integer lengths do not match sequence"
  | .notInteger c => s!"{c.name} is not an integer"
  | .zeroLength c => s!"{c.name} has zero length"
  | .negative c => s!"{c.name} is negative"
  | .leadingZero c => s!"{c.name} has an unnecessary leading zero"
  | .range c => s!"{c.name} is zero or not below the group order"

/-- The wording of a signature fault. A component out of range is worded as the
    scalar fault it is. -/
def SignatureFault.message : SignatureFault → String
  | .component c => "scalar out of range: " ++ (ScalarFault.component c).message
  | .header byte => "invalid compact header byte 0x" ++ Hex.encode [byte]
  | .noncesExhausted => "nonce search exhausted"
  | .xOutOfField => "recovered x is not a field element"

namespace Error

/-- The wording of an error. -/
def message : Error → String
  | .notInvertible => "value is not invertible modulo the given modulus"
  | .divisionByZero => "division by zero"
  | .valueTooWide needed width => s!"value needs {needed} bytes but only {width} are available"
  | .pointNotOnCurve => "point not on curve"
  | .pointAtInfinity => "point at infinity is not a valid public key"
  | .scalarOutOfRange fault => "scalar out of range: " ++ fault.message
  | .invalidPrivateKey fault => "invalid private key: " ++ fault.message
  | .invalidPublicKey fault => "invalid public key: " ++ fault.message
  | .invalidDer fault => "invalid DER signature: " ++ fault.message
  | .invalidSignature fault => "invalid signature: " ++ fault.message
  | .invalidRecoveryId id => s!"invalid recovery id {id}"
  | .invalidLength expected got => s!"invalid length: expected {expected}, got {got}"
  | .invalidHex fault => "invalid hex: " ++ fault.message
  | .nonCanonicalSize => "varint is not minimally encoded"
  | .unexpectedEnd => "unexpected end of data"

/-- The name of a cause in reports. -/
def name : Error → String
  | .notInvertible => "NotInvertible"
  | .divisionByZero => "DivisionByZero"
  | .valueTooWide .. => "ValueTooWide"
  | .pointNotOnCurve => "PointNotOnCurve"
  | .pointAtInfinity => "PointAtInfinity"
  | .scalarOutOfRange _ => "ScalarOutOfRange"
  | .invalidPrivateKey _ => "InvalidPrivateKey"
  | .invalidPublicKey _ => "InvalidPublicKey"
  | .invalidDer _ => "InvalidDer"
  | .invalidSignature _ => "InvalidSignature"
  | .invalidRecoveryId _ => "InvalidRecoveryId"
  | .invalidLength .. => "InvalidLength"
  | .invalidHex _ => "InvalidHex"
  | .nonCanonicalSize => "NonCanonicalVarInt"
  | .unexpectedEnd => "UnexpectedEof"

/-- Whether an error is a defect of an encoding or of the request itself. -/
def kind : Error → Kind
  | .notInvertible | .divisionByZero | .pointNotOnCurve | .pointAtInfinity
  | .scalarOutOfRange _ | .invalidPrivateKey _ => .domain
  | _ => .encoding

end Error

end Bitcoin
