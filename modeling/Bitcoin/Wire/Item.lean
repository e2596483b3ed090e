import Bitcoin.Wire.CompactSize

/-!
# Items on the Wire

Every message is a row of items of eight kinds. An item is written without a
tag, so a reader must know the format of the next item, and for raw bytes their
number too; `Item.format` is that knowledge, and reading an item's format from
its bytes gives the item back.

## Main definitions

* `Item`: A value that is written as one unit.
* `Item.encode`: The bytes of an item.
* `Item.Format`: What a reader has to know about an item.
* `Item.read`: The next item of a given format.
-/

namespace Bitcoin

/-- A value that is written as one unit. -/
inductive Item where
  | u8 (value : UInt8)
  | u16 (value : UInt16)
  | u32 (value : UInt32)
  | u64 (value : UInt64)
  /-- A size in its shortest form. -/
  | size (value : UInt64)
  /-- A digest. -/
  | hash (value : ByteVec 32)
  /-- Bytes as they are. -/
  | raw (bytes : Bytes)
  /-- Bytes with their number in front. -/
  | block (bytes : Bytes)
deriving DecidableEq

/-- What a reader has to know about an item. -/
inductive Item.Format where
  | u8
  | u16
  | u32
  | u64
  | size
  | hash
  | raw (count : Nat)
  | block
deriving DecidableEq

namespace Item

/-- Bytes with their number in front. -/
def encodeBlock (bytes : Bytes) : Bytes :=
  CompactSize.encode (CompactSize.ofLength bytes.length) ++ bytes

/-- The bytes of an item. -/
def encode : Item → Bytes
  | .u8 value => [value]
  | .u16 value => Bytes.fixedLE 2 value.toNat
  | .u32 value => Bytes.fixedLE 4 value.toNat
  | .u64 value => Bytes.fixedLE 8 value.toNat
  | .size value => CompactSize.encode value
  | .hash value => value.bytes
  | .raw bytes => bytes
  | .block bytes => encodeBlock bytes

/-- The format of an item. -/
def format : Item → Format
  | .u8 _ => .u8
  | .u16 _ => .u16
  | .u32 _ => .u32
  | .u64 _ => .u64
  | .size _ => .size
  | .hash _ => .hash
  | .raw bytes => .raw bytes.length
  | .block _ => .block

/-- The next bytes behind their number. -/
def readBlock : Reader Bytes := do
  Reader.take (← CompactSize.read).toNat

/-- The next item of a format. -/
def read : Format → Reader Item
  | .u8 => return .u8 (← Reader.u8)
  | .u16 => return .u16 (← Reader.u16)
  | .u32 => return .u32 (← Reader.u32)
  | .u64 => return .u64 (← Reader.u64)
  | .size => return .size (← CompactSize.read)
  | .hash => return .hash (← Reader.vec 32)
  | .raw count => return .raw (← Reader.take count)
  | .block => return .block (← readBlock)

end Item

end Bitcoin
