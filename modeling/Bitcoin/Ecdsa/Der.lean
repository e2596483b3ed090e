import Bitcoin.Ecdsa.Signature

/-!
# The DER Form of a Signature

A signature in DER is a sequence of two integers, each with its tag and its
length: `30 length 02 rlength r 02 slength s`. Integers are signed and written
with as few bytes as possible, so a leading zero stands in front of a value whose
top bit is set and nowhere else. Nothing may follow.

The checks of the decoder are made in a fixed order, from the outer lengths to
the ranges of the two values, and the first one that fails names the fault.

## Main definitions

* `Der.integer`: The content bytes of an integer.
* `Der.encode`: The form of a signature.
* `Der.decode`: The signature a form stands for.
-/

namespace Bitcoin.Der

/-- The length of the shortest form. -/
def minLength : Nat := 8

/-- The length of the longest form. -/
def maxLength : Nat := 72

/-- The content bytes of a positive integer. -/
def integer (v : Nat) : Bytes :=
  match Bytes.ofNatBE v with
  | [] => [0]
  | first :: rest => if 0x80 ≤ first then 0 :: first :: rest else first :: rest

/-- The form of a signature. -/
def encode (sig : Signature) : Bytes :=
  let r := integer sig.r.val
  let s := integer sig.s.val
  [0x30, UInt8.ofNat (4 + r.length + s.length), 0x02, UInt8.ofNat r.length] ++ r ++
    [0x02, UInt8.ofNat s.length] ++ s

/-- The content bytes of an integer that is given with its tag and length. -/
def content (c : Component) (element : Bytes) : Except DerFault Bytes :=
  if element.headD 0 ≠ 0x02 then throw (.notInteger c)
  else
    match element.drop 2 with
    | [] => throw (.zeroLength c)
    | [only] => if 0x80 ≤ only then throw (.negative c) else return [only]
    | first :: second :: rest =>
      if 0x80 ≤ first then throw (.negative c)
      else if first = 0 ∧ second < 0x80 then throw (.leadingZero c)
      else return first :: second :: rest

/-- The scalar with the given content bytes. -/
def scalar (c : Component) (bytes : Bytes) : Except DerFault Scalar :=
  match Scalar.ofInt? bytes.toNatBE with
  | some k => return k
  | none => throw (.range c)

/-- The signature a form stands for, or its fault. -/
def parse (bytes : Bytes) : Except DerFault Signature := do
  let length := bytes.length
  if length < minLength then throw .tooShort
  if maxLength < length then throw .tooLong
  if bytes.getD 0 0 ≠ 0x30 then throw .sequenceTag
  if (bytes.getD 1 0).toNat ≠ length - 2 then throw .sequenceLength
  let rLength := (bytes.getD 3 0).toNat
  if length ≤ 5 + rLength then throw .rOverrun
  let sLength := (bytes.getD (5 + rLength) 0).toNat
  if rLength + sLength + 6 ≠ length then throw .integerLengths
  let rBytes ← content .r ((bytes.drop 2).take (2 + rLength))
  let sBytes ← content .s (bytes.drop (4 + rLength))
  return ⟨← scalar .r rBytes, ← scalar .s sBytes⟩

/-- The signature a form stands for. -/
def decode (bytes : Bytes) : Except Error Signature :=
  (parse bytes).mapError .invalidDer

end Bitcoin.Der
