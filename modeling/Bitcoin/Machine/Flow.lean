import Bitcoin.Machine.Frame

/-!
# Blocks and Failure on Purpose

A block is opened by a condition, has two halves, and is closed. Turning to the
other half is a toggle: a block may have any number of halves, and they are live
by turns. A block opened where nothing takes effect asks for no condition and has
no live half at first; turning makes it true by itself, but the block around it
still keeps everything in it from taking effect.

## Main definitions

* `Flow.openBlock`, `Flow.turn`, `Flow.close`: The three operations on blocks.
* `Flow.execute`: What an operation on the flow does.
-/

namespace Bitcoin.Flow

/-- Takes a condition from the stack. -/
def popCondition (rules : Rules) (op : UInt8) : Exec Bool := do
  if (← get).stack.isEmpty then throw (.noBlock op)
  let element ← Stack.pop
  if rules.has .minimalIf ∧ element ≠ [] ∧ element ≠ [1] then throw (.unclearCondition op element)
  return Element.isTrue element

/-- Opens a block whose first half is live for the given condition. -/
def openBlock (rules : Rules) (op : UInt8) (wanted : Bool) : Exec Unit := do
  let live ←
    if (← get).isLive then
      pure ((← popCondition rules op) == wanted)
    else pure false
  modify fun frame => { frame with blocks := live :: frame.blocks }

/-- Turns to the other half of the innermost block. -/
def turn (op : UInt8) : Exec Unit := fun frame =>
  match frame.blocks with
  | [] => .error (.noBlock op) frame
  | live :: outer => .ok () { frame with blocks := (!live) :: outer }

/-- Closes the innermost block. -/
def close (op : UInt8) : Exec Unit := fun frame =>
  match frame.blocks with
  | [] => .error (.noBlock op) frame
  | _ :: outer => .ok () { frame with blocks := outer }

/-- What an operation on the flow does. -/
def execute (rules : Rules) (op : UInt8) : FlowOp → Exec Unit
  | .nop => return ()
  | .ifTrue => openBlock rules op true
  | .ifFalse => openBlock rules op false
  | .ifVersion | .ifNotVersion => throw (.versionBlock op)
  | .otherwise => turn op
  | .endIf => close op
  | .verify => Exec.verifyTop .verify
  | .earlyReturn => throw .earlyReturn

end Bitcoin.Flow
