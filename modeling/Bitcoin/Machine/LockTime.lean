import Bitcoin.Machine.Frame

/-!
# Lock Times

Two operations compare the top element with the time of the spending transaction
and leave it where it is. Both quantities are of one of two kinds, told apart by
a threshold: below it they count blocks, from it on they are times. Different
kinds cannot be compared.

An absolute lock compares with the lock time of the transaction, which is void if
the input is final. A relative lock compares with the sequence number of the
input, of which only the kind and the low sixteen bits count; a bit of its own
disables it, on either side with a different effect.

## Main definitions

* `LockTime.compare`: The comparison of quantities of either kind.
* `LockTime.checkAbsolute`, `LockTime.checkRelative`: The two locks.
* `LockTime.execute`: What a lock time operation does.
-/

namespace Bitcoin.LockTime

/-- The first absolute lock time that is a time. -/
def threshold : Nat := 500000000

/-- The greatest length of a required lock time. -/
def maxLength : Nat := 5

/-- The sequence number of a final input. -/
def finalSequence : UInt32 := 0xffffffff

/-- The bit that disables a relative lock. -/
def disabledBit : Nat := 31

/-- The bit of a relative lock that is a time. -/
def timeFlag : Nat := 0x400000

/-- The bits of a relative lock that are compared. -/
def relativeMask : Nat := 0x40ffff

/-- Refuses a lock time that is less than the required one or of another kind. -/
def compare (threshold found required : Nat) : Except Fault Unit :=
  if (found < threshold) ≠ (required < threshold) then throw (.lockTimeKind found required)
  else if found < required then throw (.lockTimeAhead found required)
  else return ()

/-- Refuses a transaction whose lock time is less than the required one, or void. -/
def checkAbsolute (context : Context) (input required : Nat) : Except Fault Unit := do
  compare threshold context.lockTime.toNat required
  if context.sequence input = finalSequence then throw .finalInput

/-- Refuses an input whose relative lock is less than the required one, or void. -/
def checkRelative (context : Context) (input required : Nat) : Except Fault Unit := do
  if context.version < 2 then throw (.transactionVersion context.version)
  let sequence := context.sequence input
  if sequence.toNat.testBit disabledBit then throw (.sequenceDisabled sequence)
  compare timeFlag (sequence.toNat &&& relativeMask) (required &&& relativeMask)

/-- The number of the operation without effect that each lock has replaced. -/
def nopNumber : LockTimeOp → Nat
  | .absolute => 2
  | .relative => 3

/-- The flag that puts a lock into force. -/
def flag : LockTimeOp → Flags
  | .absolute => .absoluteLock
  | .relative => .relativeLock

/-- Takes note of the required lock time, which stays on the stack. -/
def required (rules : Rules) : Exec Nat := do
  let n ← Stack.peekNumber 0 ⟨maxLength, rules.has .minimalData⟩
  if n < 0 then throw (.negativeLockTime n)
  return n.toNat

/-- What a lock time operation that is in force does. A required relative lock that
    is disabled asks for nothing, not even for a transaction. -/
def check (rules : Rules) : LockTimeOp → Exec Unit
  | .absolute => do
    let wanted ← required rules
    let context ← Exec.context rules .absoluteLock
    Exec.lift (checkAbsolute context rules.input wanted)
  | .relative => do
    let wanted ← required rules
    if !wanted.testBit disabledBit then
      let context ← Exec.context rules .relativeLock
      Exec.lift (checkRelative context rules.input wanted)

/-- What a lock time operation does. -/
def execute (rules : Rules) (op : LockTimeOp) : Exec Unit :=
  if rules.has (flag op) then check rules op
  else if rules.has .discourageNops then throw (.discouragedNop (nopNumber op))
  else return ()

end Bitcoin.LockTime
