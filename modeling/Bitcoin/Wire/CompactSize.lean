import Bitcoin.Wire.Reader

/-!
# Compact Sizes

Counts and lengths are written in one, three, five or nine bytes. A size below
253 is its own byte; above that, one of the three remaining byte values announces
a word of two, four or eight bytes. Only the shortest form is accepted: a word
that would have fitted into a shorter one is refused when it is read.

## Main definitions

* `CompactSize.encode`: The bytes of a size.
* `CompactSize.length`: How many there are.
* `CompactSize.read`: The next size of a reader.
* `CompactSize.decode`: The size at the front of a string, with its length.
-/

namespace Bitcoin.CompactSize

/-- How many bytes a size takes. -/
def length (size : UInt64) : Nat :=
  if size < 0xfd then 1
  else if size ≤ 0xffff then 3
  else if size ≤ 0xffffffff then 5
  else 9

/-- The bytes of a size. -/
def encode (size : UInt64) : Bytes :=
  if size < 0xfd then [size.toUInt8]
  else if size ≤ 0xffff then 0xfd :: Bytes.fixedLE 2 size.toNat
  else if size ≤ 0xffffffff then 0xfe :: Bytes.fixedLE 4 size.toNat
  else 0xff :: Bytes.fixedLE 8 size.toNat

/-- The size of a list, as it is written in front of the list. -/
def ofLength (length : Nat) : UInt64 :=
  UInt64.ofNat length

/-- The size in the next `width` bytes, refused below `least`, where a shorter
    form would have done. -/
def readWord (width least : Nat) : Reader UInt64 := do
  let value ← Reader.nat width
  if value < least then throw .nonCanonicalSize
  return UInt64.ofNat value

/-- The size whose first byte has been read. -/
def readFrom (first : UInt8) : Reader UInt64 :=
  if first = 0xff then readWord 8 0x100000000
  else if first = 0xfe then readWord 4 0x10000
  else if first = 0xfd then readWord 2 0xfd
  else return first.toUInt64

/-- The next size. -/
def read : Reader UInt64 := do
  readFrom (← Reader.u8)

/-- The size at the front of a string, and how many bytes it takes there. -/
def decode (bytes : Bytes) : Except Error (UInt64 × Nat) :=
  match read bytes with
  | .ok size rest => return (size, bytes.length - rest.length)
  | .error e _ => throw e

end Bitcoin.CompactSize
