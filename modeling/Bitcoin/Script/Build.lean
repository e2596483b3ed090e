import Bitcoin.Script.Basic
import Bitcoin.Script.Number

/-!
# Building Scripts

A script is built by adding to its end: a payload, some opcodes, a number. An
addition either adds whole chunks or is refused, so what is built from nothing
always decodes. A number is added as the opcode that pushes it, where there is
one, and as a push of its minimal string otherwise.

## Main definitions

* `Script.addPush`, `Script.addOpcodes`, `Script.addNumber`: The three additions.
-/

namespace Bitcoin.Script

/-- The script with further bytes at its end. -/
def add (script : Script) (bytes : Bytes) : Script :=
  ⟨script.bytes ++ bytes⟩

/-- Adds a payload with the smallest header. -/
def addPush (script : Script) (data : Bytes) : Except ScriptError Script := do
  return script.add (← Push.encode data)

/-- Whether an opcode cannot stand without a payload. -/
def needsPayload (op : UInt8) : Bool :=
  op ≠ Opcode.zero ∧ Opcode.isPush op

/-- Adds opcodes that have no payload. -/
def addOpcodes (script : Script) (ops : Bytes) : Except ScriptError Script :=
  match ops.find? needsPayload with
  | some op => throw (.missingPayload op)
  | none => return script.add ops

/-- Adds a number. -/
def addNumber (script : Script) (n : Int) : Except ScriptError Script :=
  if n = 0 then return script.add [Opcode.zero]
  else if n = -1 then return script.add [Opcode.negativeOne]
  else if 1 ≤ n ∧ n ≤ 16 then return script.add [Opcode.small n.toNat]
  else script.addPush (Number.encode n)

end Bitcoin.Script
