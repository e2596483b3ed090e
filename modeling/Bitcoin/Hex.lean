import Bitcoin.Bytes

/-!
# Hexadecimal Text

Bytes are shown as two lowercase digits each, the high half first. Reading
accepts digits of both cases and refuses everything else, and it says what it
met first: an odd number of bytes of text is reported before any character is
looked at, and otherwise the first character that is no digit is reported by
its leading byte and its position. All characters before that one are digits,
hence one byte long, so the position counts characters and bytes alike.

## Main definitions

* `Hex.encode`: The digits of a byte string.
* `Hex.decode`: The bytes a text of digits stands for.
* `Hex.Fault`: Why a text stands for no bytes.
* `Hex.ofNat`: The digits of a number, without leading zeros.
-/

namespace Bitcoin.Hex

/-- Why a text is not the hexadecimal form of anything. -/
inductive Fault where
  /-- There is no digit where a number is wanted. -/
  | empty
  /-- The text has an odd number of bytes. -/
  | oddLength
  /-- The character that starts with this byte at this position is no digit. -/
  | badDigit (byte : UInt8) (position : Nat)
deriving DecidableEq

/-- The lowercase digit for a value below sixteen. -/
def digit (value : Nat) : Char :=
  Nat.digitChar value

/-- The value of a digit of either case. -/
def digitValue? (c : Char) : Option Nat :=
  if '0' ≤ c ∧ c ≤ '9' then some (c.toNat - '0'.toNat)
  else if 'a' ≤ c ∧ c ≤ 'f' then some (c.toNat - 'a'.toNat + 10)
  else if 'A' ≤ c ∧ c ≤ 'F' then some (c.toNat - 'A'.toNat + 10)
  else none

/-- The two digits of a byte. -/
def byteDigits (b : UInt8) : List Char :=
  [digit (b.toNat / 16), digit (b.toNat % 16)]

/-- The digits of a byte string, two for each byte. -/
def encode (bytes : Bytes) : String :=
  String.ofList (bytes.flatMap byteDigits)

/-- The digits of a number, most significant first, without leading zeros. Zero
    is written with one digit. -/
def ofNat (n : Nat) : String :=
  String.ofList (Nat.toDigits 16 n)

/-- The first byte of a character's encoding. -/
def leadByte (c : Char) : UInt8 :=
  (String.utf8EncodeChar c).headD 0

/-- The values of a row of digits. The first character that is no digit is
    reported with its position, where the row starts at `position`; the values
    already read stand in `done`, last one first. -/
def digitValues (position : Nat) (done : List Nat) : List Char → Except Fault (List Nat)
  | [] => .ok done.reverse
  | c :: rest =>
    match digitValue? c with
    | some value => digitValues (position + 1) (value :: done) rest
    | none => .error (.badDigit (leadByte c) position)

/-- The bytes with the given halves, high half first. -/
def joinHalves : List Nat → Bytes
  | high :: low :: rest => UInt8.ofNat (16 * high + low) :: joinHalves rest
  | _ => []

/-- The bytes a text of digits stands for. -/
def decode (text : String) : Except Fault Bytes :=
  if text.utf8ByteSize % 2 = 1 then .error .oddLength
  else (digitValues 0 [] text.toList).map joinHalves

/-- A character with this number, shown between quotes. What has no visible
    shape of its own is shown by an escape: the usual letter where there is one
    and the number in hexadecimal otherwise. The range is that of one byte. -/
def quoteByte (b : UInt8) : String :=
  let n := b.toNat
  let shown :=
    if n = 0 then "\\0"
    else if n = 9 then "\\t"
    else if n = 10 then "\\n"
    else if n = 13 then "\\r"
    else if n = 39 then "\\'"
    else if n = 92 then "\\\\"
    else if n < 32 ∨ (127 ≤ n ∧ n ≤ 160) ∨ n = 173 then "\\u\x7b" ++ ofNat n ++ "\x7d"
    else String.singleton (Char.ofNat n)
  "'" ++ shown ++ "'"

/-- The wording of a fault. -/
def Fault.message : Fault → String
  | .empty => "empty string"
  | .oddLength => "Odd number of digits"
  | .badDigit b position => s!"Invalid character {quoteByte b} at position {position}"

end Bitcoin.Hex
