import Bitcoin.Error
import Bitcoin.Hash
import Bitcoin.Json

/-!
# Transaction Identifiers

A transaction is named by its double digest. On the wire the thirty-two bytes
stand as the digest function gives them; people and programs that talk about
transactions write them in the opposite order, as sixty-four hexadecimal digits.
Identifiers are ordered by their bytes on the wire.

## Main definitions

* `TxId`: An identifier, in wire order.
* `TxId.ofBytes`, `TxId.ofHex`, `TxId.ofJson?`: Reading an identifier.
* `TxId.display`: The digits in display order.
-/

namespace Bitcoin

/-- The identifier of a transaction, in wire order. -/
structure TxId where
  hash : Hash256
deriving DecidableEq

namespace TxId

/-- The identifier whose bytes are all zero. -/
def zero : TxId :=
  ⟨ByteVec.zero 32⟩

/-- The identifier with the given bytes in wire order. -/
def ofBytes (bytes : Bytes) : Except Error TxId :=
  match ByteVec.ofBytes? 32 bytes with
  | some hash => return ⟨hash⟩
  | none => throw (.invalidLength 32 bytes.length)

/-- The identifier with the given digits in display order. -/
def ofHex (text : String) : Except Error TxId :=
  match Hex.decode text with
  | .ok bytes => ofBytes bytes.reverse
  | .error fault => throw (.invalidHex fault)

/-- The identifier a JSON string holds in display order. -/
def ofJson? (document : Json) : Option TxId := do
  (ofHex (← document.string?)).toOption

/-- The identifier that names the given data. -/
def ofDoubleHash (data : Bytes) : TxId :=
  ⟨Hash.sha256d data⟩

/-- The bytes in wire order. -/
def bytes (id : TxId) : Bytes :=
  id.hash.bytes

/-- The digits in display order. -/
def display (id : TxId) : String :=
  Hex.encode id.bytes.reverse

/-- The identifier as a JSON string. -/
def toJson (id : TxId) : Json :=
  .ofString id.display

/-- Identifiers compare by their bytes in wire order. -/
def compare (a b : TxId) : Ordering :=
  Ord.compare a.bytes b.bytes

end TxId

end Bitcoin
