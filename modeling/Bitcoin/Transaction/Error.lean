import Bitcoin.Error
import Bitcoin.Script.Error

/-!
# Faults of Transactions

Reading a transaction can fail in any of its parts, and the part is named. What
else can go wrong is an input that does not exist, a list of outputs that does
not fit, and a signature that would commit to nothing.

## Main definitions

* `Part`: The parts that are read one by one.
* `WireFault`: Why bytes are no transaction.
* `TransactionError`: Why an operation on a transaction has no result.
* `TransactionError.message`, `TransactionError.name`: Its wording and its name.
-/

namespace Bitcoin

/-- The parts of a transaction that are read one by one. -/
inductive Part where
  | version
  | inputCount
  | previousTxId
  | outputIndex
  | unlockingScript
  | sequence
  | outputCount
  | satoshis
  | lockingScript
  | lockTime
deriving DecidableEq

/-- The name of a part. -/
def Part.name : Part → String
  | .version => "version"
  | .inputCount => "input count"
  | .previousTxId => "previous txid"
  | .outputIndex => "output index"
  | .unlockingScript => "unlocking script"
  | .sequence => "sequence number"
  | .outputCount => "output count"
  | .satoshis => "satoshis"
  | .lockingScript => "locking script"
  | .lockTime => "lock time"

/-- Why bytes are no transaction. -/
inductive WireFault where
  /-- A part could not be read. -/
  | reading (part : Part) (error : Error)
  /-- What is left cannot hold so many items. -/
  | count (part : Part) (count remaining : Nat)
  /-- Something follows the transaction. -/
  | trailing (count : Nat)
  | invalidHex (fault : Hex.Fault)
deriving DecidableEq

/-- The wording of a fault. -/
def WireFault.message : WireFault → String
  | .reading part error => "reading " ++ part.name ++ ": " ++ error.message
  | .count part size left => part.name ++ s!" {size} exceeds remaining {left} bytes"
  | .trailing size => s!"trailing {size} bytes after transaction"
  | .invalidHex fault => "invalid hex: " ++ fault.message

/-- Why an operation on a transaction has no result. -/
inductive TransactionError where
  /-- There is no input with this number among so many. -/
  | inputIndex (index count : Nat)
  /-- Each input needs the output that it spends. -/
  | previousOutputs (inputs outputs : Nat)
  | wire (fault : WireFault)
  /-- The signature would commit to an output that is not there. -/
  | nothingToSign (index outputs : Nat)
  | script (error : ScriptError)
  | primitive (error : Error)
deriving DecidableEq

namespace TransactionError

/-- The wording of an error. -/
def message : TransactionError → String
  | .inputIndex index count => s!"input index {index} out of range (tx has {count} inputs)"
  | .previousOutputs inputs outputs =>
    s!"{outputs} previous outputs supplied for {inputs} inputs"
  | .wire fault => "serialization error: " ++ fault.message
  | .nothingToSign index outputs =>
    "signing error: " ++
      s!"SIGHASH_SINGLE for input {index} but the transaction has {outputs} outputs"
  | .script error => "script error: " ++ error.message
  | .primitive error => "primitives error: " ++ error.message

/-- The name of a cause in reports. -/
def name : TransactionError → String
  | .inputIndex .. => "InputIndexOutOfRange"
  | .previousOutputs .. => "PrevOutputCountMismatch"
  | .wire _ => "SerializationError"
  | .nothingToSign .. => "SigningError"
  | .script _ => "Script"
  | .primitive _ => "Primitives"

end TransactionError

end Bitcoin
