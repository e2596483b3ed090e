import Bitcoin.Machine.Frame

/-!
# Arithmetic

Operands are read from the stack under the rule on numbers, the topmost one
first; the result is a number without any bound on its length. Truth values are
the numbers zero and one, whose minimal strings are those of the two truth
values.

## Main definitions

* `UnaryOp.apply`, `BinaryOp.apply`: The functions computed.
* `Arithmetic.execute`: What an arithmetic operation does.
-/

namespace Bitcoin

/-- The number of a truth value. -/
def Number.ofBool (b : Bool) : Int :=
  if b then 1 else 0

/-- The function of one number that is computed. -/
def UnaryOp.apply (op : UnaryOp) (n : Int) : Int :=
  match op with
  | .increment => n + 1
  | .decrement => n - 1
  | .negate => -n
  | .abs => n.natAbs
  | .not => Number.ofBool (n = 0)
  | .notZero => Number.ofBool (n ≠ 0)

/-- The function of two numbers that is computed, where `a` is the deeper one. -/
def BinaryOp.apply (op : BinaryOp) (a b : Int) : Int :=
  match op with
  | .add => a + b
  | .sub => a - b
  | .boolAnd => Number.ofBool (a ≠ 0 ∧ b ≠ 0)
  | .boolOr => Number.ofBool (a ≠ 0 ∨ b ≠ 0)
  | .equal => Number.ofBool (a = b)
  | .notEqual => Number.ofBool (a ≠ b)
  | .less => Number.ofBool (a < b)
  | .greater => Number.ofBool (a > b)
  | .atMost => Number.ofBool (a ≤ b)
  | .atLeast => Number.ofBool (a ≥ b)
  | .min => Min.min a b
  | .max => Max.max a b

namespace Arithmetic

/-- Replaces the top number by a function of it. -/
def unary (rule : NumberRule) (op : UnaryOp) : StackM Unit := do
  let n ← Stack.popNumber rule
  Stack.pushNumber (op.apply n)

/-- Replaces the top two numbers by a function of them. -/
def binary (rule : NumberRule) (op : BinaryOp) : StackM Unit := do
  let b ← Stack.popNumber rule
  let a ← Stack.popNumber rule
  Stack.pushNumber (op.apply a b)

/-- Replaces a number and two bounds above it by whether the number is at least the
    lower bound and below the upper one. -/
def within (rule : NumberRule) : StackM Unit := do
  let upper ← Stack.popNumber rule
  let lower ← Stack.popNumber rule
  let n ← Stack.popNumber rule
  Stack.pushBool (lower ≤ n ∧ n < upper)

/-- What an arithmetic operation does. -/
def execute (rules : Rules) : ArithmeticOp → Exec Unit
  | .unary op => unary rules.numbers op
  | .binary op => binary rules.numbers op
  | .within => within rules.numbers
  | .equalVerify => do
    binary rules.numbers .equal
    Exec.verifyTop .numEqual

end Arithmetic

end Bitcoin
