import Bitcoin.Error

/-!
# Signed Integers of Any Size

Curve values and script numbers are integers without a bound. Here are their
written forms: hexadecimal text and the unsigned big-endian form of a given
width, together with the width itself.

## Main definitions

* `Integer.ofHex`: The integer a hexadecimal text stands for.
* `Integer.toHex`, `Integer.parse?`: The hexadecimal form of an integer, written and
  read.
* `Integer.toFixedBE`: The big-endian form of a given width.
* `Integer.bitLength`: How many bits the magnitude has.
-/

namespace Bitcoin.Integer

/-- The integer a text of hexadecimal digits stands for. One leading `0x` is
    skipped, and an odd number of digits is filled up with a zero in front. -/
def ofHex (text : String) : Except Error Int := do
  let digits :=
    match text.toList with
    | '0' :: 'x' :: rest => rest
    | cs => cs
  if digits.isEmpty then throw (.invalidHex .empty)
  let written := String.ofList digits
  let padded := if written.utf8ByteSize % 2 = 1 then String.ofList ('0' :: digits) else written
  match Hex.decode padded with
  | .ok bytes => return bytes.toNatBE
  | .error fault => throw (.invalidHex fault)

/-- The hexadecimal form of an integer: a sign if it is negative, then the
    magnitude without leading zeros. -/
def toHex (v : Int) : String :=
  (if v < 0 then "-" else "") ++ Hex.ofNat v.natAbs

/-- The number that a row of hexadecimal digits stands for. -/
def ofDigits? (digits : List Char) : Option Nat :=
  digits.foldlM (fun n c => (Hex.digitValue? c).map (16 * n + ·)) 0

/-- The integer with the given hexadecimal form. Leading zeros are let through. -/
def parse? (text : String) : Option Int :=
  match text.toList with
  | '-' :: digits => (ofDigits? digits).map fun n => -n
  | digits => (ofDigits? digits).map fun n => n

/-- How many bits the magnitude of an integer has. -/
def bitLength (v : Int) : Nat :=
  if v = 0 then 0 else v.natAbs.log2 + 1

/-- The big-endian form of `width` bytes. It exists for the integers from zero
    up whose minimal form is no longer than that. -/
def toFixedBE (width : Nat) (v : Int) : Except Error Bytes :=
  if v < 0 then throw (.scalarOutOfRange .negativeValue)
  else
    let needed := (Bytes.ofNatBE v.toNat).length
    if width < needed then throw (.valueTooWide needed width)
    else return Bytes.fixedBE width v.toNat

/-- The integer as a signed 64-bit word, if it fits. -/
def toInt64? (v : Int) : Option Int64 :=
  if -0x8000000000000000 ≤ v ∧ v < 0x8000000000000000 then some (Int64.ofInt v) else none

end Bitcoin.Integer
