import Bitcoin.Script.Error

/-!
# Pushes

A push is an opcode, perhaps the length of its payload, and the payload. The
length is written in the opcode itself up to 75, and otherwise in one, two or
four bytes behind one of three opcodes. What is built here uses the smallest of
these that can hold the length; what is read may use any.

## Main definitions

* `Push.lengthWidth`: How many bytes of length follow an opcode.
* `Push.header`: What stands before a payload of a given length.
* `Push.encode`: A payload with its header.
* `Push.encodeAll`: Several pushes in a row.
* `Bytes.split?`: The first so many bytes and the rest.
-/

namespace Bitcoin

/-- The first `count` bytes and the rest, if there are so many. -/
def Bytes.split? (count : Nat) (bytes : Bytes) : Option (Bytes × Bytes) :=
  let taken := bytes.take count
  if taken.length < count then none else some (taken, bytes.drop count)

namespace Push

/-- How many bytes of length follow an opcode. -/
def lengthWidth (op : UInt8) : Nat :=
  if op = Opcode.pushData1 then 1
  else if op = Opcode.pushData2 then 2
  else if op = Opcode.pushData4 then 4
  else 0

/-- What stands before a payload of the given length. -/
def header (length : Nat) : Except ScriptError Bytes :=
  if length ≤ Opcode.maxDirect.toNat then return [UInt8.ofNat length]
  else if length ≤ 0xff then return Opcode.pushData1 :: Bytes.fixedLE 1 length
  else if length ≤ 0xffff then return Opcode.pushData2 :: Bytes.fixedLE 2 length
  else if length ≤ 0xffffffff then return Opcode.pushData4 :: Bytes.fixedLE 4 length
  else throw (.dataTooBig length)

/-- A payload with what stands before it. -/
def encode (data : Bytes) : Except ScriptError Bytes := do
  return (← header data.length) ++ data

/-- Several pushes in a row, where the first of them has the given number. -/
def encodeFrom (index : Nat) : List Bytes → Except ScriptError Bytes
  | [] => return []
  | data :: rest => do
    let first ← (encode data).mapError fun _ => .partTooBig index
    return first ++ (← encodeFrom (index + 1) rest)

/-- Several pushes in a row. -/
def encodeAll (parts : List Bytes) : Except ScriptError Bytes :=
  encodeFrom 0 parts

end Push

end Bitcoin
