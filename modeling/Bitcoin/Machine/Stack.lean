import Bitcoin.Machine.Fault
import Bitcoin.Script.Number

/-!
# The Stack

A stack is a list of byte strings with its top in front, and positions count from
the top. An operation that fails keeps what it has done so far: a pop that finds
an element which is no number has removed that element.

The operations on several elements are repetitions of one step. Copying the
element at position `n - 1` to the top `n` times duplicates the top `n` elements,
since each copy moves the next element to that position; moving works alike. As
the depth never sinks below what the first step needs, either all steps succeed
or the first one fails and nothing has happened.

Where several rows of `n` elements take part, the position is a product, and it is
computed with words. Once the product does not fit into a word, the position is that
of some other element, which may well be there.

## Main definitions

* `Stack`, `StackM`: A stack, and computations on one.
* `Stack.peek`, `Stack.nip`, `Stack.push`, `Stack.pop`: Single elements.
* `NumberRule`, `Stack.popNumber`, `Stack.peekNumber`: Elements as numbers.
* `Stack.pick`, `Stack.roll`: Copying and moving an element to the top.
* `Stack.rowsEnd`: The position at the end of several rows.
* `Stack.dup`, `Stack.copyOver`, `Stack.swap`, `Stack.rot`, `Stack.drop`: Several
  elements at once.
-/

namespace Bitcoin

/-- Byte strings, top first. -/
abbrev Stack := List Bytes

/-- A computation on a stack. -/
abbrev StackM := EStateM Fault Stack

/-- Which byte strings are accepted as numbers. -/
structure NumberRule where
  /-- The greatest length. -/
  maxLength : Nat
  /-- Whether only minimal strings are. -/
  minimal : Bool
deriving DecidableEq

/-- The number that an accepted string stands for. -/
def NumberRule.read (rule : NumberRule) (element : Bytes) : Except Fault Int :=
  if rule.maxLength < element.length then throw (.numberTooBig element rule.maxLength)
  else if rule.minimal ∧ ¬Number.isMinimal element then throw (.numberNotMinimal element)
  else return Number.decode element

/-- Refuses a string that is not minimal. -/
def Number.requireMinimal (element : Bytes) : Except Fault Unit :=
  if Number.isMinimal element then return () else throw (.numberNotMinimal element)

namespace Stack

/-- The result of a computation that needs no stack. -/
def lift {α : Type} (result : Except Fault α) : StackM α :=
  match result with
  | .ok value => return value
  | .error fault => throw fault

/-- The element at a position. -/
def peek (index : Nat) : StackM Bytes := fun stack =>
  match stack[index]? with
  | some element => .ok element stack
  | none => .error (.stackIndex index stack.length) stack

/-- Removes the element at a position. -/
def nip (index : Nat) : StackM Bytes := fun stack =>
  match stack[index]? with
  | some element => .ok element (stack.eraseIdx index)
  | none => .error (.stackIndex index stack.length) stack

/-- Puts an element on top. -/
def push (element : Bytes) : StackM Unit := fun stack =>
  .ok () (element :: stack)

/-- Puts the minimal string of a number on top. -/
def pushNumber (n : Int) : StackM Unit :=
  push (Number.encode n)

/-- Puts a truth value on top. -/
def pushBool (b : Bool) : StackM Unit :=
  push (Element.ofBool b)

/-- Removes the top element. -/
def pop : StackM Bytes :=
  nip 0

/-- Removes the top element and reads it as a number. -/
def popNumber (rule : NumberRule) : StackM Int := do
  lift (rule.read (← pop))

/-- Removes the top element and reads it as a truth value. -/
def popBool : StackM Bool := do
  return Element.isTrue (← pop)

/-- Removes the top `count` elements, top first. -/
def popMany : Nat → StackM (List Bytes)
  | 0 => return []
  | count + 1 => do
    let first ← pop
    return first :: (← popMany count)

/-- Reads the element at a position as a number. -/
def peekNumber (index : Nat) (rule : NumberRule) : StackM Int := do
  lift (rule.read (← peek index))

/-- Copies the element at a position to the top. -/
def pick (index : Nat) : StackM Unit := do
  push (← peek index)

/-- Moves the element at a position to the top. -/
def roll (index : Nat) : StackM Unit := do
  push (← nip index)

/-- Does the same so many times. -/
def times : Nat → StackM Unit → StackM Unit
  | 0, _ => return ()
  | count + 1, action => do
    action
    times count action

/-- Copies the top `n` elements to the top. -/
def dup (n : Nat) : StackM Unit :=
  times n (pick (n - 1))

/-- The position of the last element of so many rows of `n` elements. What exceeds a word in
    the product is lost. -/
def rowsEnd (rows n : UInt64) : UInt64 :=
  rows * n - 1

/-- Copies the `n` elements below the top `n` to the top. -/
def copyOver (n : UInt64) : StackM Unit :=
  times n.toNat (pick (rowsEnd 2 n).toNat)

/-- Moves the `n` elements below the top `n` to the top. -/
def swap (n : UInt64) : StackM Unit :=
  times n.toNat (roll (rowsEnd 2 n).toNat)

/-- Moves the `n` elements below the top `2 * n` to the top. -/
def rot (n : UInt64) : StackM Unit :=
  times n.toNat (roll (rowsEnd 3 n).toNat)

/-- Removes the top `n` elements. -/
def drop (n : Nat) : StackM Unit := fun stack =>
  if stack.length < n then .error (.stackIndex (n - 1) stack.length) stack
  else .ok () (List.drop n stack)

/-- Puts a copy of the top element below the second one. -/
def tuck : StackM Unit := do
  let first ← pop
  let second ← pop
  push first
  push second
  push first

end Stack

end Bitcoin
