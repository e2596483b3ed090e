import Bitcoin.Transaction.Basic
import Bitcoin.Transaction.Error

/-!
# Reading Transactions

The parts of a transaction are read in the order in which they are written, and
the first one that cannot be read is reported. A count is checked before any
item is read: what is left must be able to hold that many items of the smallest
kind, so no short message can ask for a long list.

## Main definitions

* `TxReader`: Computations that read parts of transactions.
* `TxIn.read`, `TxOut.read`, `Transaction.read`: The next record.
* `Transaction.ofBytes`, `Transaction.ofHex`: Reading a whole string.
-/

namespace Bitcoin

/-- A computation that consumes bytes from the front and may fail in some part. -/
abbrev TxReader := EStateM WireFault Bytes

namespace TxReader

/-- Reads a part. -/
def part {α : Type} (part : Part) (reader : Reader α) : TxReader α := fun bytes =>
  match reader bytes with
  | .ok value rest => .ok value rest
  | .error e rest => .error (.reading part e) rest

/-- Reads the number of items of which each takes at least so many bytes. -/
def count (label : Part) (minSize : Nat) : TxReader Nat := do
  let size := (← part label CompactSize.read).toNat
  let remaining := (← get).length
  if remaining / minSize < size then throw (.count label size remaining)
  return size

/-- Reads so many items. -/
def many {α : Type} (reader : TxReader α) : Nat → TxReader (List α)
  | 0 => return []
  | count + 1 => do
    let first ← reader
    return first :: (← many reader count)

end TxReader

/-- The bytes of the smallest input. -/
def TxIn.minSize : Nat := 41

/-- The bytes of the smallest output. -/
def TxOut.minSize : Nat := 9

/-- Reads an input. -/
def TxIn.read : TxReader TxIn := do
  let prevTxId ← TxReader.part .previousTxId (Reader.vec 32)
  let vout ← TxReader.part .outputIndex Reader.u32
  let unlocking ← TxReader.part .unlockingScript Item.readBlock
  let sequence ← TxReader.part .sequence Reader.u32
  return { prevTxId := ⟨prevTxId⟩, vout, unlocking := ⟨unlocking⟩, sequence }

/-- Reads an output. -/
def TxOut.read : TxReader TxOut := do
  let satoshis ← TxReader.part .satoshis Reader.u64
  let locking ← TxReader.part .lockingScript Item.readBlock
  return { satoshis, locking := ⟨locking⟩ }

namespace Transaction

/-- Reads a transaction. -/
def read : TxReader Transaction := do
  let version ← TxReader.part .version Reader.u32
  let inputs ← TxReader.many TxIn.read (← TxReader.count .inputCount TxIn.minSize)
  let outputs ← TxReader.many TxOut.read (← TxReader.count .outputCount TxOut.minSize)
  let lockTime ← TxReader.part .lockTime Reader.u32
  return { version, inputs, outputs, lockTime }

/-- The transaction with the given bytes, which must be all of them. -/
def ofBytes (bytes : Bytes) : Except WireFault Transaction :=
  match read bytes with
  | .ok tx [] => return tx
  | .ok _ rest => throw (.trailing rest.length)
  | .error fault _ => throw fault

/-- The transaction whose bytes are given in hexadecimal. -/
def ofHex (text : String) : Except WireFault Transaction :=
  match Hex.decode text with
  | .ok bytes => ofBytes bytes
  | .error fault => throw (.invalidHex fault)

end Transaction

end Bitcoin
