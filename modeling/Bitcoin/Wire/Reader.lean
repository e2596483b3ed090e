import Bitcoin.Error

/-!
# Reading from the Front

A reader takes bytes from the front of a string and leaves the rest. It keeps
what it has taken also when it fails: a read made of several parts that stops in
the middle has consumed the parts before. A single read that asks for more bytes
than there are takes none.

## Main definitions

* `Reader`: A computation that consumes bytes and may fail.
* `Reader.take`: The next bytes, so many of them.
* `Reader.nat`: The next bytes as a little-endian number.
* `Reader.u8`, `Reader.u16`, `Reader.u32`, `Reader.u64`: The next word.
* `Reader.vec`: The next bytes with their number in the type.
* `Reader.remaining`: How many bytes are left.
-/

namespace Bitcoin

/-- A computation that consumes bytes from the front and may fail. -/
abbrev Reader := EStateM Error Bytes

namespace Reader

/-- The next `count` bytes. -/
def take (count : Nat) : Reader Bytes := fun bytes =>
  let taken := bytes.take count
  if taken.length < count then .error .unexpectedEnd bytes
  else .ok taken (bytes.drop count)

/-- The next `size` bytes, with their number in the type. -/
def vec (size : Nat) : Reader (ByteVec size) := fun bytes =>
  match ByteVec.ofBytes? size (bytes.take size) with
  | some taken => .ok taken (bytes.drop size)
  | none => .error .unexpectedEnd bytes

/-- The next `width` bytes as a little-endian number. -/
def nat (width : Nat) : Reader Nat := do
  return (← take width).toNatLE

/-- The next byte. -/
def u8 : Reader UInt8 := do
  return UInt8.ofNat (← nat 1)

/-- The next two bytes as a word. -/
def u16 : Reader UInt16 := do
  return UInt16.ofNat (← nat 2)

/-- The next four bytes as a word. -/
def u32 : Reader UInt32 := do
  return UInt32.ofNat (← nat 4)

/-- The next eight bytes as a word. -/
def u64 : Reader UInt64 := do
  return UInt64.ofNat (← nat 8)

/-- How many bytes are left. -/
def remaining : Reader Nat := do
  return (← get).length

end Reader

end Bitcoin
