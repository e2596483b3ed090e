import Bitcoin.Transaction.Basic

/-!
# Transactions as JSON

A transaction is also exchanged as a JSON record, with identifiers in display
order and scripts in hexadecimal. All fields must be given; what else an object
holds is passed over.

## Main definitions

* `Transaction.toJson`, `Transaction.ofJson?`: Writing and reading a document.
-/

namespace Bitcoin

/-- The fields of a record, all of which must be given. -/
def Json.allFields? (names : List String) (document : Json) : Option (List Json) := do
  (← document.fields? names).mapM id

/-- A word of thirty-two bits. -/
def Json.word32? (document : Json) : Option UInt32 := do
  return UInt32.ofNat (← document.natBelow? 0x100000000)

/-- A word of sixty-four bits. -/
def Json.word64? (document : Json) : Option UInt64 := do
  return UInt64.ofNat (← document.natBelow? 0x10000000000000000)

namespace TxIn

/-- The names of the fields of an input, in order. -/
def names : List String :=
  ["prev_txid", "vout", "unlocking_script", "sequence"]

/-- An input as a document. -/
def toJson (input : TxIn) : Json :=
  .ofMembers (names.zip [input.prevTxId.toJson, .ofNat input.vout.toNat, input.unlocking.toJson,
    .ofNat input.sequence.toNat])

/-- The input that a document gives. -/
def ofJson? (document : Json) : Option TxIn := do
  match ← document.allFields? names with
  | [prevTxId, vout, unlocking, sequence] =>
    return { prevTxId := ← TxId.ofJson? prevTxId, vout := ← vout.word32?
             unlocking := ← Script.ofJson? unlocking, sequence := ← sequence.word32? }
  | _ => none

end TxIn

namespace TxOut

/-- The names of the fields of an output, in order. -/
def names : List String :=
  ["satoshis", "locking_script"]

/-- An output as a document. -/
def toJson (output : TxOut) : Json :=
  .ofMembers (names.zip [.ofNat output.satoshis.toNat, output.locking.toJson])

/-- The output that a document gives. -/
def ofJson? (document : Json) : Option TxOut := do
  match ← document.allFields? names with
  | [satoshis, locking] =>
    return { satoshis := ← satoshis.word64?, locking := ← Script.ofJson? locking }
  | _ => none

end TxOut

namespace Transaction

/-- The names of the fields of a transaction, in order. -/
def names : List String :=
  ["version", "inputs", "outputs", "lock_time"]

/-- A transaction as a document. -/
def toJson (tx : Transaction) : Json :=
  .ofMembers (names.zip [.ofNat tx.version.toNat, .array (tx.inputs.map TxIn.toJson),
    .array (tx.outputs.map TxOut.toJson), .ofNat tx.lockTime.toNat])

/-- The transaction that a document gives. -/
def ofJson? (document : Json) : Option Transaction := do
  match ← document.allFields? names with
  | [version, inputs, outputs, lockTime] =>
    return { version := ← version.word32?, inputs := ← (← inputs.items?).mapM TxIn.ofJson?
             outputs := ← (← outputs.items?).mapM TxOut.ofJson?, lockTime := ← lockTime.word32? }
  | _ => none

end Transaction

end Bitcoin
