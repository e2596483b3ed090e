import Bitcoin.Machine.Frame

/-!
# Moving Elements About

Most of these operations are those of the stack with fixed numbers. Two take the
position from the stack, and two exchange an element with the alt stack.

## Main definitions

* `Shuffle.popIndex`: A position taken from the stack.
* `Shuffle.execute`: What an operation on the stack does.
-/

namespace Bitcoin.Shuffle

/-- Takes a position from the stack. A number out of the range of a word of thirty-two
    bits counts as the nearest one in it. -/
def popIndex (rules : Rules) : Exec Nat := do
  let index := Number.clamp 0x80000000 (← Stack.popNumber rules.numbers)
  if index < 0 then throw (.negativeIndex index)
  return index.toNat

/-- Moves the top element to the alt stack. -/
def toAlt : Exec Unit := do
  let element ← Stack.pop
  modify fun frame => { frame with alt := element :: frame.alt }

/-- Moves the top element of the alt stack back. -/
def fromAlt : Exec Unit := fun frame =>
  match frame.alt with
  | [] => .error .altStackEmpty frame
  | element :: alt => .ok () { frame with stack := element :: frame.stack, alt }

/-- Copies the top element if it is true. -/
def dupIfTrue : StackM Unit := do
  let element ← Stack.peek 0
  if Element.isTrue element then Stack.push element

/-- What an operation on the stack does. -/
def execute (rules : Rules) : StackOp → Exec Unit
  | .toAlt => toAlt
  | .fromAlt => fromAlt
  | .drop2 => Stack.drop 2
  | .dup2 => Stack.dup 2
  | .dup3 => Stack.dup 3
  | .over2 => Stack.copyOver 2
  | .rot2 => Stack.rot 2
  | .swap2 => Stack.swap 2
  | .dupIfTrue => dupIfTrue
  | .depth => do Stack.pushNumber (← get).stack.length
  | .drop => Stack.drop 1
  | .dup => Stack.dup 1
  | .nip => discard (Stack.nip 1 : Exec Bytes)
  | .over1 => Stack.copyOver 1
  | .pick => do Stack.pick (← popIndex rules)
  | .roll => do Stack.roll (← popIndex rules)
  | .rot => Stack.rot 1
  | .swap => Stack.swap 1
  | .tuck => Stack.tuck

end Bitcoin.Shuffle
