import Bitcoin.Machine.Context
import Bitcoin.Machine.Program

/-!
# The State of a Running Script

A frame holds what instructions work on. Only the main stack outlives a script;
the alt stack, the open blocks, the operation count and the mark of the last code
separator begin afresh with the next one.

The mark is kept as the instructions that follow it, which is all that anybody
asks of it. Questions to the context are recorded, latest first; no instruction
looks at the record.

An instruction that fails leaves the frame as it had changed it so far.

## Main definitions

* `Frame`, `Frame.start`: The state of a running script.
* `Frame.isLive`: Whether instructions take effect.
* `Exec`: Computations on a frame.
* `Exec.countOperations`, `Exec.verifyTop`: Steps that several operations share.
-/

namespace Bitcoin

/-- The state of a running script. -/
structure Frame where
  stack : Stack
  alt : Stack := []
  /-- The open blocks, innermost first. Each is true in its live half. -/
  blocks : List Bool := []
  /-- How many operations have been met. -/
  operations : Nat := 0
  /-- The instructions that signatures commit to. -/
  signed : Program
  /-- The instructions that are still to come. -/
  next : Program
  /-- What the context has been asked, latest first. -/
  checks : List SignatureCheck := []
deriving DecidableEq

namespace Frame

/-- The state in which a script starts on a stack. -/
def start (stack : Stack) (program : Program) (checks : List SignatureCheck) : Frame :=
  { stack, signed := program, next := program, checks }

/-- Whether instructions take effect, which they do in the live halves of all open
    blocks. -/
def isLive (frame : Frame) : Bool :=
  frame.blocks.all id

/-- How many elements there are on both stacks. -/
def depth (frame : Frame) : Nat :=
  frame.stack.length + frame.alt.length

/-- The script that some signatures commit to: what follows the last code
    separator, without the pushes of these signatures. -/
def scriptCode (frame : Frame) (sigs : List Bytes) : Script :=
  (sigs.foldl Program.removePush frame.signed).unparse

end Frame

/-- A computation on a frame. -/
abbrev Exec := EStateM Fault Frame

namespace Exec

/-- A computation on the main stack. -/
def onStack {α : Type} (action : StackM α) : Exec α := fun frame =>
  match action frame.stack with
  | .ok value stack => .ok value { frame with stack }
  | .error fault stack => .error fault { frame with stack }

instance : MonadLift StackM Exec := ⟨onStack⟩

/-- The result of a computation that needs no frame. -/
def lift {α : Type} (result : Except Fault α) : Exec α :=
  match result with
  | .ok value => return value
  | .error fault => throw fault

/-- Counts operations against their limit. -/
def countOperations (rules : Rules) (count : Nat) : Exec Unit := do
  modify fun frame => { frame with operations := frame.operations + count }
  if rules.limits.operations < (← get).operations then
    throw (.tooManyOperations rules.limits.operations)

/-- Removes the top element and fails unless it is true. -/
def verifyTop (check : Check) : Exec Unit := do
  let passed ← Stack.popBool
  if !passed then throw (.failedCheck check)

/-- The context, where there is one. -/
def context (rules : Rules) (use : TransactionUse) : Exec Context :=
  match rules.context? with
  | some context => return context
  | none => throw (.noTransaction use)

end Exec

end Bitcoin
