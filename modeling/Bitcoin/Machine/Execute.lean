import Bitcoin.Machine.Arithmetic
import Bitcoin.Machine.Crypto
import Bitcoin.Machine.Flow
import Bitcoin.Machine.LockTime
import Bitcoin.Machine.Shuffle

/-!
# One Instruction

Some rules hold for every instruction of a script, whether it takes effect or
not: pushes are not too long, operations are not too many, and disabled opcodes
do not occur. After that, an instruction in a half of a block that is not live is
passed over unless it belongs to the structure of blocks.

## Main definitions

* `Instruction.perform`: What an instruction does where it takes effect.
* `Instruction.execute`: What an instruction does.
-/

namespace Bitcoin.Instruction

/-- Pushes the payload of an instruction. -/
def pushData (rules : Rules) (instruction : Instruction) : Exec Unit := do
  if rules.has .minimalData then Exec.lift instruction.requireMinimal
  Stack.push instruction.data

/-- Pushes whether the top two elements, which are removed, are the same bytes. -/
def pushEqual : StackM Unit := do
  let a ← Stack.pop
  let b ← Stack.pop
  Stack.pushBool (a = b)

/-- Pushes the length of the top element, which stays. -/
def pushSize : StackM Unit := do
  Stack.pushNumber (← Stack.peek 0).length

/-- What an instruction does where it takes effect. -/
def perform (rules : Rules) (instruction : Instruction) : Exec Unit :=
  match instruction.operation with
  | .pushData => instruction.pushData rules
  | .pushNumber n => Stack.pushNumber n
  | .flow op => Flow.execute rules instruction.op op
  | .stack op => Shuffle.execute rules op
  | .size => pushSize
  | .equal => pushEqual
  | .equalVerify => do
    pushEqual
    Exec.verifyTop .equal
  | .arithmetic op => Arithmetic.execute rules op
  | .crypto op => Crypto.execute rules op
  | .lockTime op => LockTime.execute rules op
  | .upgradableNop =>
    -- They are numbered from one, and the first of them is 0xb0.
    if rules.has .discourageNops then throw (.discouragedNop (instruction.op.toNat - 0xaf))
    else return ()
  | .disabled => throw (.disabledOpcode instruction.op)
  | .reserved => throw (.reservedOpcode instruction.op)
  | .invalid => throw (.invalidOpcode instruction.op)

/-- What an instruction does. -/
def execute (rules : Rules) (instruction : Instruction) : Exec Unit := do
  let limit := rules.limits.elementSize
  if limit < instruction.data.length then throw (.elementTooBig instruction.data.length limit)
  if Opcode.sixteen < instruction.op then Exec.countOperations rules 1
  if instruction.operation = .disabled then throw (.disabledOpcode instruction.op)
  if (← get).isLive ∨ instruction.operation.isConditional then instruction.perform rules

end Bitcoin.Instruction
