import Bitcoin.Script.Basic
import Bitcoin.TxId
import Bitcoin.Wire.Item

/-!
# Transactions

A transaction moves money from outputs of earlier transactions to outputs of its
own. Each input names an output and brings a script to unlock it; each output
holds an amount and the script that locks it. The whole may not be valid before
its lock time.

Everything is written in a fixed order, numbers with the least significant byte
first, lists and scripts with their length in front. A transaction is named by
the double digest of these bytes.

## Main definitions

* `TxIn`, `TxOut`, `Transaction`: The three records.
* `Transaction.encode`: The bytes of a transaction.
* `Transaction.txId`: Its name.
-/

namespace Bitcoin

/-- An input: which output it spends, and by what right. -/
structure TxIn where
  /-- The transaction that holds the spent output. -/
  prevTxId : TxId
  /-- The number of the spent output there. -/
  vout : UInt32
  unlocking : Script
  /-- The relative lock time, or all ones for a final input. -/
  sequence : UInt32 := 0xffffffff
deriving DecidableEq

/-- An output: an amount and the script that locks it. -/
structure TxOut where
  satoshis : UInt64
  locking : Script
deriving DecidableEq

/-- A transaction. -/
structure Transaction where
  version : UInt32 := 1
  inputs : List TxIn := []
  outputs : List TxOut := []
  /-- The block height, or the time, before which it is not final. -/
  lockTime : UInt32 := 0
deriving DecidableEq

/-- The bytes of a word of thirty-two bits. -/
def encodeWord (word : UInt32) : Bytes :=
  Bytes.fixedLE 4 word.toNat

/-- The bytes of a list, with its length in front. -/
def encodeList {α : Type} (encode : α → Bytes) (items : List α) : Bytes :=
  CompactSize.encode (CompactSize.ofLength items.length) ++ items.flatMap encode

/-- The bytes of an input. -/
def TxIn.encode (input : TxIn) : Bytes :=
  input.prevTxId.bytes ++ encodeWord input.vout ++ Item.encodeBlock input.unlocking.bytes ++
    encodeWord input.sequence

/-- The bytes of an output. -/
def TxOut.encode (output : TxOut) : Bytes :=
  Bytes.fixedLE 8 output.satoshis.toNat ++ Item.encodeBlock output.locking.bytes

namespace Transaction

/-- The bytes of a transaction. -/
def encode (tx : Transaction) : Bytes :=
  encodeWord tx.version ++ encodeList TxIn.encode tx.inputs ++
    encodeList TxOut.encode tx.outputs ++ encodeWord tx.lockTime

/-- The bytes in hexadecimal. -/
def toHex (tx : Transaction) : String :=
  Hex.encode tx.encode

/-- The name of a transaction. -/
def txId (tx : Transaction) : TxId :=
  .ofDoubleHash tx.encode

/-- The transaction with an input replaced. -/
def setInput (tx : Transaction) (index : Nat) (input : TxIn) : Transaction :=
  { tx with inputs := tx.inputs.set index input }

end Transaction

end Bitcoin
