import Bitcoin.Machine.Run
import Bitcoin.Transaction.Checking
import Bitcoin.Transaction.Error

/-!
# Verifying Transactions

An input is verified by running its script and that of the output it spends. The
output is given, since it belongs to another transaction.

The inputs of a transaction do not depend on each other, so they may be shared
out: each worker gets a run of consecutive inputs, all runs but perhaps the last
of the same length, and the verdicts are put together in order.

## Main definitions

* `Transaction.verifyInput`: The verdict on one input.
* `Transaction.shares`: The inputs of each worker.
* `Transaction.verifyAll`: The verdicts on all inputs.
-/

namespace Bitcoin.Transaction

/-- The verdict on an input that spends an output. -/
def judgeInput (tx : Transaction) (flags : Flags) (limits : Limits) (index : Nat) (input : TxIn)
    (spent : TxOut) : Verdict :=
  let rules : Rules := { flags, limits, context? := some tx.context, input := index }
  Machine.execute rules input.unlocking spent.locking

/-- The verdict on the numbered input, given the output it spends. -/
def verifyInput (tx : Transaction) (index : Nat) (spent : TxOut) (flags : Flags)
    (limits : Limits) : Except TransactionError Verdict :=
  match tx.inputs[index]? with
  | some input => return tx.judgeInput flags limits index input spent
  | none => throw (.inputIndex index tx.inputs.length)

/-- A list cut into pieces of `size` items, the last of which may be shorter, where
    `count` pieces are known to be enough. -/
def pieces {α : Type} (size : Nat) : (count : Nat) → List α → List (List α)
  | 0, _ => []
  | count + 1, items =>
    if items.isEmpty then [] else items.take size :: pieces size count (items.drop size)

/-- The items that each of some workers gets. There is at least one worker, and no
    more than there are items. -/
def shares {α : Type} (workers : Nat) (items : List α) : List (List α) :=
  let workers := min (max 1 workers) items.length
  pieces ((items.length + workers - 1) / workers) workers items

/-- The verdicts on all inputs, given the outputs they spend in the same order. -/
def verifyAll (tx : Transaction) (spent : List TxOut) (flags : Flags) (limits : Limits)
    (workers : Nat) : Except TransactionError (List Verdict) :=
  if spent.length ≠ tx.inputs.length then
    throw (.previousOutputs tx.inputs.length spent.length)
  else
    let jobs := (tx.inputs.zip spent).zipIdx
    let judge (job : (TxIn × TxOut) × Nat) : Verdict :=
      tx.judgeInput flags limits job.2 job.1.1 job.1.2
    return (shares workers jobs).flatMap (·.map judge)

end Bitcoin.Transaction
