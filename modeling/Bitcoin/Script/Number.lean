import Bitcoin.Bytes

/-!
# Script Numbers

Numbers in scripts are byte strings, least significant byte first, with the sign
in the top bit of the last byte. The empty string is zero. A last byte that holds
nothing but a sign is superfluous unless the byte before it needs its own top
bit, so a minimal string exists for every number and no other string is minimal.

Numbers have no range. Which strings may be read as operands, by length and by
minimality, is for the reader to say.

## Main definitions

* `Number.encode`: The minimal string of a number.
* `Number.decode`: The number of any string.
* `Number.isMinimal`: Whether a string has no superfluous byte.
* `Number.clamp`: The nearest number in a signed word's range.
* `Element.isTrue`: The truth value of a string.
-/

namespace Bitcoin

namespace Number

/-- The minimal string of a number. -/
def encode (n : Int) : Bytes :=
  let magnitude := Bytes.ofNatLE n.natAbs
  match magnitude.getLast? with
  | none => []
  | some top =>
    -- The sign needs a byte of its own where the top bit is taken.
    if 0x80 ≤ top then magnitude ++ [if n < 0 then 0x80 else 0x00]
    else if n < 0 then magnitude.dropLast ++ [top ||| 0x80]
    else magnitude

/-- The number that a string stands for, minimal or not. -/
def decode (bytes : Bytes) : Int :=
  match bytes.getLast? with
  | none => 0
  | some top =>
    let magnitude : Int := Bytes.toNatLE (bytes.dropLast ++ [top &&& 0x7f])
    if 0x80 ≤ top then -magnitude else magnitude

/-- Whether the last byte of a string is needed, given the bytes before it, last
    one first. -/
def needsLast (last : UInt8) : Bytes → Bool
  | [] => last &&& 0x7f ≠ 0
  | before :: _ => last &&& 0x7f ≠ 0 ∨ 0x80 ≤ before

/-- Whether a string has no superfluous byte. -/
def isMinimal (bytes : Bytes) : Bool :=
  match bytes.reverse with
  | [] => true
  | last :: before => needsLast last before

/-- The nearest number that a signed word can hold, given the magnitude of the
    least one. -/
def clamp (bound : Nat) (n : Int) : Int :=
  max (-bound) (min (bound - 1) n)

end Number

namespace Element

/-- The truth value of a string: some byte is not zero, and it is not only a sign
    in the last byte. -/
def isTrue : Bytes → Bool
  | [] => false
  | [last] => last ≠ 0 ∧ last ≠ 0x80
  | byte :: rest => if byte = 0 then isTrue rest else true

/-- The string of a truth value. -/
def ofBool (b : Bool) : Bytes :=
  if b then [1] else []

end Element

end Bitcoin
