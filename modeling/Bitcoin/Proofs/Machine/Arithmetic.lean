import Bitcoin.Proofs.Machine.Exec
import Bitcoin.Proofs.Machine.Form
import Bitcoin.Proofs.Script.MinimalNumber
import Mathlib.Data.List.Basic

/-!
# What Arithmetic Operations Compute

The operations on numbers differ in how many operands they take and in what they compute,
and in nothing else. Each takes its operands from the top, and only then computes, so the
first operand that is refused decides how an operation fails, and what it computes decides
the rest. One description covers all of them: operands, a result of exact integer
arithmetic or none, and the minimal strings of the result.

Whether an operand is accepted depends on its length and maybe on its form, never on its
number. An accepted string of some width holds a number of that width. What is computed
outgrows it by a byte at most, and nothing overflows, whatever the width is.

## Main definitions

* `ArithmeticOp.arity`, `ArithmeticOp.result?`: The operands and the exact result of an
  operation.
* `NumberRule.Accepts`, `NumberRule.Refuses`: Which elements are operands, and how the
  others fail.
* `Arithmetic.Holds`, `Arithmetic.Refused`, `Arithmetic.Unequal`: A stack that holds the
  operands, one that does not, and one with two that are not equal.
* `Arithmetic.operands`, `Arithmetic.finish`: The two halves of every operation.

## Theorems

* `Arithmetic.execute_eq`: Every operation takes its operands and then computes.
* `Arithmetic.operands_ok`, `Arithmetic.operands_error`: How operands are taken.
* `ArithmeticOp.fits_of_result?`: The width of a result.
* `Arithmetic.computes_or_fails`: The three ways in which an operation can end.
* `Arithmetic.execute_exact`: Failures, results, and their widths.
-/

namespace Bitcoin

namespace ArithmeticOp

/-- How many operands an operation takes. -/
def arity : ArithmeticOp → Nat
  | .unary _ => 1
  | .binary _ => 2
  | .within => 3
  | .equalVerify => 2

/-- What an operation leaves in place of its operands, the deepest of which comes first.
    Only the check of equality leaves nothing, and nothing but a false equality is refused. -/
def result? : ArithmeticOp → List Int → Option (List Int)
  | .unary .increment, [n] => some [n + 1]
  | .unary .decrement, [n] => some [n - 1]
  | .unary .negate, [n] => some [-n]
  | .unary .abs, [n] => some [|n|]
  | .unary .not, [n] => some [if n = 0 then 1 else 0]
  | .unary .notZero, [n] => some [if n = 0 then 0 else 1]
  | .binary .add, [a, b] => some [a + b]
  | .binary .sub, [a, b] => some [a - b]
  | .binary .boolAnd, [a, b] => some [if a ≠ 0 ∧ b ≠ 0 then 1 else 0]
  | .binary .boolOr, [a, b] => some [if a ≠ 0 ∨ b ≠ 0 then 1 else 0]
  | .binary .equal, [a, b] => some [if a = b then 1 else 0]
  | .binary .notEqual, [a, b] => some [if a = b then 0 else 1]
  | .binary .less, [a, b] => some [if a < b then 1 else 0]
  | .binary .greater, [a, b] => some [if b < a then 1 else 0]
  | .binary .atMost, [a, b] => some [if a ≤ b then 1 else 0]
  | .binary .atLeast, [a, b] => some [if b ≤ a then 1 else 0]
  | .binary .min, [a, b] => some [min a b]
  | .binary .max, [a, b] => some [max a b]
  | .within, [n, lower, upper] => some [if lower ≤ n ∧ n < upper then 1 else 0]
  | .equalVerify, [a, b] => if a = b then some [] else none
  | _, _ => none

variable {op : ArithmeticOp} {values results : List Int}

/-- An operation on one number always has a result. -/
theorem result?_unary (f : UnaryOp) (n : Int) : (unary f).result? [n] = some [f.apply n] := by
  cases f with
  | abs => exact congrArg (fun m => some [m]) (Int.abs_eq_natAbs n)
  | not => simp [result?, UnaryOp.apply, Number.ofBool]
  | notZero => simp [result?, UnaryOp.apply, Number.ofBool]
  | _ => rfl

/-- So has one that leaves a number for two. -/
theorem result?_binary (f : BinaryOp) (a b : Int) :
    (binary f).result? [a, b] = some [f.apply a b] := by
  cases f with
  | add => rfl
  | sub => rfl
  | min => rfl
  | max => rfl
  | _ => simp [result?, BinaryOp.apply, Number.ofBool]

-- What lies deeper is what the top is subtracted from.
example : (binary .sub).result? [5, 3] = some [2] := rfl

/-- The operands of an operation, for each kind of operation. -/
theorem cases_of_length (h : values.length = op.arity) :
    (∃ f n, op = .unary f ∧ values = [n]) ∨
      (∃ f a b, op = .binary f ∧ values = [a, b]) ∨
      (∃ n lower upper, op = .within ∧ values = [n, lower, upper]) ∨
      ∃ a b, op = .equalVerify ∧ values = [a, b] := by
  -- The arity of the operation says how many operands there are.
  cases op with
  | unary f =>
      rcases List.length_eq_one_iff.mp h with ⟨n, rfl⟩
      exact .inl ⟨f, n, rfl, rfl⟩
  | binary f =>
      rcases List.length_eq_two.mp h with ⟨a, b, rfl⟩
      exact .inr (.inl ⟨f, a, b, rfl, rfl⟩)
  | within =>
      rcases List.length_eq_three.mp h with ⟨n, lower, upper, rfl⟩
      exact .inr (.inr (.inl ⟨n, lower, upper, rfl, rfl⟩))
  | equalVerify =>
      rcases List.length_eq_two.mp h with ⟨a, b, rfl⟩
      exact .inr (.inr (.inr ⟨a, b, rfl, rfl⟩))

/-- With all its operands an operation has a result, but for an equality that is false. -/
theorem result?_eq_none_iff (h : values.length = op.arity) :
    op.result? values = none ↔ op = .equalVerify ∧ ∃ a b, values = [a, b] ∧ a ≠ b := by
  rcases cases_of_length h with ⟨f, n, rfl, rfl⟩ | ⟨f, a, b, rfl, rfl⟩ |
    ⟨n, lower, upper, rfl, rfl⟩ | ⟨a, b, rfl, rfl⟩
  · simp [result?_unary]
  · simp [result?_binary]
  · simp [result?]
  · by_cases hsame : a = b
    · simp [result?, hsame]
    · simp [result?, hsame]

/-- No result outgrows the operands by more than a byte. -/
theorem fits_of_result? {width : Nat} (h : values.length = op.arity)
    (hvalues : ∀ n ∈ values, Number.Fits width n) (hresults : op.result? values = some results) :
    ∀ n ∈ results, Number.Fits (width + 1) n := by
  rcases cases_of_length h with ⟨f, n, rfl, rfl⟩ | ⟨f, a, b, rfl, rfl⟩ |
    ⟨n, lower, upper, rfl, rfl⟩ | ⟨a, b, rfl, rfl⟩
  · rw [result?_unary, Option.some.injEq] at hresults
    rw [← hresults, List.forall_mem_singleton]
    exact .unary f (hvalues n List.mem_cons_self)
  · rw [result?_binary, Option.some.injEq] at hresults
    rw [← hresults, List.forall_mem_singleton]
    refine .binary f (hvalues a List.mem_cons_self) (hvalues b ?_)
    exact List.mem_cons_of_mem _ List.mem_cons_self
  · rw [result?, Option.some.injEq] at hresults
    rw [← hresults, List.forall_mem_singleton]
    have htruth := @Number.fits_ofBool width (decide (lower ≤ n ∧ n < upper))
    simpa [Number.ofBool] using htruth
  · -- The comparison leaves nothing, or no result at all.
    by_cases hsame : a = b
    · rw [result?, if_pos hsame, Option.some.injEq] at hresults
      rw [← hresults]
      exact List.forall_mem_nil _
    · rw [result?, if_neg hsame] at hresults
      exact absurd hresults (by simp only [reduceCtorEq, not_false_eq_true])

end ArithmeticOp

namespace NumberRule

/-- The elements that can be operands. -/
def Accepts (rule : NumberRule) (element : Bytes) : Prop :=
  element.length ≤ rule.maxLength ∧ (rule.minimal = true → Number.isMinimal element = true)

/-- What is wrong with an element, or with there being none. The length comes first. -/
inductive Refuses (rule : NumberRule) : Option Bytes → Violation → Prop where
  | missing : Refuses rule none .stackOperation
  | tooLong {element} (h : rule.maxLength < element.length) :
      Refuses rule (some element) .numberTooBig
  | notMinimal {element} (hfits : element.length ≤ rule.maxLength)
      (hrule : rule.minimal = true) (hform : ¬Number.isMinimal element = true) :
      Refuses rule (some element) .minimalData

variable {rule : NumberRule} {element : Bytes} {violation : Violation}

/-- An element is a number under the rule, or it is refused for one reason. -/
theorem accepts_or_refuses (rule : NumberRule) (element : Bytes) :
    rule.Accepts element ∨ ∃ violation, rule.Refuses (some element) violation := by
  by_cases hlong : rule.maxLength < element.length
  · exact .inr ⟨_, .tooLong hlong⟩
  · by_cases hform : rule.minimal = true ∧ ¬Number.isMinimal element = true
    · exact .inr ⟨_, .notMinimal (Nat.not_lt.mp hlong) hform.1 hform.2⟩
    · exact .inl ⟨Nat.not_lt.mp hlong, fun hrule => not_not.mp fun hc => hform ⟨hrule, hc⟩⟩

theorem read_of_accepts (h : rule.Accepts element) :
    rule.read element = .ok (Number.decode element) :=
  read_eq_ok.mpr ⟨Nat.not_lt.mpr h.1, fun hform => hform.2 (h.2 hform.1), rfl⟩

/-- The reading fails for this reason. -/
theorem read_of_refuses (h : rule.Refuses (some element) violation) :
    ∃ fault, rule.read element = .error fault ∧ fault.violation = violation := by
  unfold read
  rcases h with _ | hlong | ⟨hfits, hrule, hform⟩
  · rw [if_pos hlong]
    exact ⟨_, rfl, rfl⟩
  · rw [if_neg (Nat.not_lt.mpr hfits), if_pos ⟨hrule, hform⟩]
    exact ⟨_, rfl, rfl⟩

end NumberRule

namespace Arithmetic

/-- One of so many elements from the top is refused, and none above it is. -/
def Refused (rule : NumberRule) (count : Nat) (stack : Stack) (violation : Violation) : Prop :=
  ∃ index < count, (∀ element ∈ stack.take index, rule.Accepts element) ∧
    rule.Refuses stack[index]? violation

/-- A stack whose top elements are the operands of an operation, the deepest first. -/
structure Holds (rule : NumberRule) (op : ArithmeticOp) (stack : Stack)
    (elements below : List Bytes) : Prop where
  stack_eq : stack = elements.reverse ++ below
  length_eq : elements.length = op.arity
  accepts : ∀ element ∈ elements, rule.Accepts element

/-- Two operands that are not equal, the second one on top. -/
def Unequal (rule : NumberRule) (stack : Stack) : Prop :=
  ∃ a b below, stack = b :: a :: below ∧ rule.Accepts a ∧ rule.Accepts b ∧
    Number.decode a ≠ Number.decode b

/-- Takes so many numbers from the stack. The deepest comes first. -/
def operands (rule : NumberRule) : Nat → Exec (List Int)
  | 0 => return []
  | count + 1 => do
    let top ← Stack.popNumber rule
    return (← operands rule count) ++ [top]

/-- Puts the result on the stack, where there is one. -/
def finish (op : ArithmeticOp) (values : List Int) : Exec Unit :=
  match op.result? values with
  | some results =>
    modify fun frame => { frame with stack := results.map Number.encode ++ frame.stack }
  | none => throw (.failedCheck .numEqual)

theorem finish_unary (f : UnaryOp) (n : Int) :
    finish (.unary f) [n] = Exec.onStack (Stack.pushNumber (f.apply n)) := by
  unfold finish
  rw [ArithmeticOp.result?_unary]
  rfl

theorem finish_binary (f : BinaryOp) (a b : Int) :
    finish (.binary f) [a, b] = Exec.onStack (Stack.pushNumber (f.apply a b)) := by
  unfold finish
  rw [ArithmeticOp.result?_binary]
  rfl

/-- A bound that is reached is outside if it is the upper one. -/
theorem finish_within (n lower upper : Int) : finish .within [n, lower, upper] =
    Exec.onStack (Stack.pushBool (lower ≤ n ∧ n < upper)) := by
  unfold Stack.pushBool
  rw [← Number.encode_ofBool]
  by_cases hwithin : lower ≤ n ∧ n < upper
  · simp only [finish, ArithmeticOp.result?, if_pos hwithin, decide_eq_true hwithin]
    rfl
  · simp only [finish, ArithmeticOp.result?, if_neg hwithin, decide_eq_false hwithin]
    rfl

/-- A true equality is pushed and taken away again, and so is a false one. -/
theorem finish_equalVerify (a b : Int) : finish .equalVerify [a, b] = (do
    Exec.onStack (Stack.pushNumber (BinaryOp.equal.apply a b))
    Exec.verifyTop .numEqual) := by
  funext frame
  unfold Stack.pushNumber BinaryOp.apply
  rw [Number.encode_ofBool]
  by_cases hsame : a = b
  · simp only [finish, ArithmeticOp.result?, if_pos hsame, decide_eq_true hsame]
    rfl
  · simp only [finish, ArithmeticOp.result?, if_neg hsame, decide_eq_false hsame]
    rfl

/-- Every operation takes its operands and then computes. -/
theorem execute_eq (rules : Rules) (op : ArithmeticOp) :
    execute rules op = operands rules.numbers op.arity >>= finish op := by
  -- Each of them pops its operands one by one and then does the rest.
  cases op with
  | unary f =>
      simp only [ArithmeticOp.arity, operands, bind_assoc, pure_bind, List.nil_append, finish_unary]
      exact Exec.onStack_bind _ _
  | binary f =>
      change Exec.onStack (binary rules.numbers f) = _
      simp only [ArithmeticOp.arity, operands, bind_assoc, pure_bind, List.nil_append,
        List.cons_append, finish_binary, binary, Exec.onStack_bind]
      rfl
  | within =>
      change Exec.onStack (within rules.numbers) = _
      simp only [ArithmeticOp.arity, operands, bind_assoc, pure_bind, List.nil_append,
        List.cons_append, finish_within, within, Exec.onStack_bind]
      rfl
  | equalVerify =>
      change (Exec.onStack (binary rules.numbers .equal) >>= fun _ => Exec.verifyTop .numEqual) = _
      simp only [ArithmeticOp.arity, operands, bind_assoc, pure_bind, List.nil_append,
        List.cons_append, finish_equalVerify, binary, Exec.onStack_bind]
      rfl

variable {rule : NumberRule} {frame : Frame} {violation : Violation}

/-- The topmost elements are read as numbers if all of them are accepted. The induction is on
    what is taken, top first. -/
theorem operands_ok {taken below : Stack} (hstack : frame.stack = taken ++ below)
    (h : ∀ element ∈ taken, rule.Accepts element) :
    operands rule taken.length frame =
      .ok (taken.reverse.map Number.decode) { frame with stack := below } := by
  induction taken generalizing frame with
  | nil =>
      rw [List.nil_append] at hstack
      rw [← hstack]
      rfl
  | cons top taken ih =>
      rw [List.forall_mem_cons] at h
      -- The top is popped first and is the last operand.
      have hpop := Exec.popNumber_ok hstack (NumberRule.read_of_accepts h.1)
      rw [List.length_cons, operands, Steps.bind_ok hpop]
      refine Eq.trans (Steps.bind_ok (ih rfl h.2)) ?_
      rw [List.reverse_cons, List.map_append]
      rfl

/-- A number that is missing or refused is the reason of the failure. -/
theorem popNumber_error (h : rule.Refuses frame.stack.head? violation) :
    ∃ fault after, (Stack.popNumber rule : Exec Int) frame = .error fault after ∧
      fault.violation = violation := by
  -- Nothing is there, or what is there is popped and refused.
  rcases hstack : frame.stack with _ | ⟨top, rest⟩
  · rw [hstack] at h
    cases h
    have hpop : Stack.popNumber rule frame.stack = .error (.stackIndex 0 0) [] := by
      rw [hstack]
      rfl
    exact ⟨_, _, Exec.onStack_error hpop, rfl⟩
  · rw [hstack] at h
    rcases NumberRule.read_of_refuses h with ⟨fault, hread, hfault⟩
    have htop : Stack.pop frame.stack = .ok top rest := Stack.pop_eq_ok.mpr hstack
    have hpop : Stack.popNumber rule frame.stack = .error fault rest := by
      rw [Stack.popNumber, Steps.bind_ok htop, hread]
      rfl
    exact ⟨fault, _, Exec.onStack_error hpop, hfault⟩

/-- The first element that is refused is what the whole fails by. -/
theorem operands_error {count : Nat} (h : Refused rule count frame.stack violation) :
    ∃ fault after, operands rule count frame = .error fault after ∧
      fault.violation = violation := by
  induction count generalizing frame with
  | zero =>
      rcases h with ⟨index, hindex, -, -⟩
      exact absurd hindex (Nat.not_lt_zero index)
  | succ count ih =>
      rcases h with ⟨index, hindex, habove, hrefused⟩
      -- Either the top is refused, or it is accepted and something below it is refused.
      by_cases hfirst : rule.Refuses frame.stack.head? violation
      · rcases popNumber_error hfirst with ⟨fault, after, hpop, hfault⟩
        exact ⟨fault, after, Steps.bind_error hpop, hfault⟩
      · rcases hstack : frame.stack with _ | ⟨top, rest⟩
        · rw [hstack] at hfirst hrefused
          exact absurd hrefused hfirst
        · rw [hstack] at habove hrefused hfirst
          rcases index with _ | index
          · exact absurd hrefused hfirst
          · rw [List.take_succ_cons, List.forall_mem_cons] at habove
            have hpop := Exec.popNumber_ok hstack (NumberRule.read_of_accepts habove.1)
            have hbelow : Refused rule count rest violation :=
              ⟨index, Nat.lt_of_succ_lt_succ hindex, habove.2, hrefused⟩
            rcases @ih { frame with stack := rest } hbelow with ⟨fault, after, hrest, hfault⟩
            refine ⟨fault, after, ?_, hfault⟩
            rw [operands, Steps.bind_ok hpop]
            exact Steps.bind_error hrest

/-- A stack holds so many operands, or one of them is refused. -/
theorem taken_or_refused (rule : NumberRule) (count : Nat) (stack : Stack) :
    (∃ taken below, stack = taken ++ below ∧ taken.length = count ∧
      ∀ element ∈ taken, rule.Accepts element) ∨
    ∃ violation, Refused rule count stack violation := by
  induction count generalizing stack with
  | zero => exact .inl ⟨[], stack, rfl, rfl, nofun⟩
  | succ count ih =>
      -- From the top downwards, the first element that is missing or refused is the bad one.
      rcases stack with _ | ⟨top, rest⟩
      · exact .inr ⟨_, 0, Nat.succ_pos count, nofun, .missing⟩
      rcases rule.accepts_or_refuses top with htop | ⟨violation, htop⟩
      · rcases ih rest with ⟨taken, below, rfl, rfl, htaken⟩ | ⟨violation, index, hindex, habove, h⟩
        · exact .inl ⟨top :: taken, below, rfl, rfl, List.forall_mem_cons.mpr ⟨htop, htaken⟩⟩
        · refine .inr ⟨violation, index + 1, Nat.succ_lt_succ hindex, ?_, h⟩
          rw [List.take_succ_cons, List.forall_mem_cons]
          exact ⟨htop, habove⟩
      · exact .inr ⟨violation, 0, Nat.succ_pos count, nofun, htop⟩

section
variable {rules : Rules} {op : ArithmeticOp} {elements below : List Bytes} {results : List Int}

theorem Holds.length_map {stack : Stack} (h : Holds rule op stack elements below) :
    (elements.map Number.decode).length = op.arity := by
  rw [List.length_map, h.length_eq]

/-- With its operands on the stack an operation computes. -/
theorem Holds.execute_eq (h : Holds rules.numbers op frame.stack elements below) :
    execute rules op frame =
      finish op (elements.map Number.decode) { frame with stack := below } := by
  have htaken := operands_ok h.stack_eq fun element hmem =>
    h.accepts element (List.mem_reverse.mp hmem)
  rw [List.reverse_reverse, List.length_reverse, h.length_eq] at htaken
  rw [Arithmetic.execute_eq, Steps.bind_ok htaken]

/-- With operands and results, the operation replaces the one by the other. -/
theorem Holds.execute_ok (h : Holds rules.numbers op frame.stack elements below)
    (hresults : op.result? (elements.map Number.decode) = some results) :
    execute rules op frame =
      .ok () { frame with stack := results.map Number.encode ++ below } := by
  rw [h.execute_eq, finish, hresults]
  rfl

/-- Whatever is computed of operands of some width has at most one byte more, and it is an
    operand for operations that allow so much. -/
theorem Holds.read_result (h : Holds rules.numbers op frame.stack elements below)
    (hresults : op.result? (elements.map Number.decode) = some results) :
    ∀ n ∈ results, (Number.encode n).length ≤ rules.limits.numberLength + 1 ∧
      NumberRule.read ⟨rules.limits.numberLength + 1, true⟩ (Number.encode n) = .ok n := by
  intro n hn
  have hvalues : ∀ m ∈ elements.map Number.decode,
      Number.Fits rules.limits.numberLength m := by
    intro m hm
    rcases List.mem_map.mp hm with ⟨element, helement, rfl⟩
    exact Number.fits_decode (h.accepts element helement).1
  have hfits := ArithmeticOp.fits_of_result? h.length_map hvalues hresults n hn
  exact ⟨Number.length_encode_le hfits, Number.read_encode hfits true⟩

/-- Two numbers that differ are a failure of the comparison. -/
theorem execute_of_unequal (h : Unequal rules.numbers frame.stack) :
    ∃ after, execute rules .equalVerify frame = .error (.failedCheck .numEqual) after := by
  rcases h with ⟨a, b, below, hstack, ha, hb, hvalues⟩
  have helements : ∀ element ∈ [a, b], rules.numbers.Accepts element := by
    rw [List.forall_mem_cons, List.forall_mem_singleton]
    exact ⟨ha, hb⟩
  have hholds : Holds rules.numbers .equalVerify frame.stack [a, b] below :=
    ⟨hstack, rfl, helements⟩
  refine ⟨{ frame with stack := below }, ?_⟩
  rw [hholds.execute_eq, finish]
  simp only [List.map_cons, List.map_nil, ArithmeticOp.result?, if_neg hvalues]
  rfl

/-- The first bad operand is a failure of each operation. -/
theorem execute_of_refused (h : Refused rules.numbers op.arity frame.stack violation) :
    ∃ fault after, execute rules op frame = .error fault after ∧
      fault.violation = violation := by
  rcases operands_error h with ⟨fault, after, htaken, hfault⟩
  refine ⟨fault, after, ?_, hfault⟩
  rw [execute_eq, Steps.bind_error htaken]

/-- An operation computes, finds two numbers not equal, or lacks an operand. -/
theorem computes_or_fails (rules : Rules) (op : ArithmeticOp) (stack : Stack) :
    (∃ elements below results, Holds rules.numbers op stack elements below ∧
      op.result? (elements.map Number.decode) = some results) ∨
    (op = .equalVerify ∧ Unequal rules.numbers stack) ∨
    ∃ violation, Refused rules.numbers op.arity stack violation := by
  rcases taken_or_refused rules.numbers op.arity stack with
    ⟨taken, below, rfl, hlength, haccepts⟩ | hrefused
  · have hholds : Holds rules.numbers op (taken ++ below) taken.reverse below := by
      refine ⟨by rw [List.reverse_reverse], by rw [List.length_reverse, hlength], ?_⟩
      exact fun element hmem => haccepts element (List.mem_reverse.mp hmem)
    -- All operands are numbers. Only the comparison may still have no result.
    rcases hresult : op.result? (taken.reverse.map Number.decode) with _ | results
    · rcases (ArithmeticOp.result?_eq_none_iff hholds.length_map).mp hresult with
        ⟨rfl, x, y, hxy, hne⟩
      rcases List.length_eq_two.mp hlength with ⟨b, a, rfl⟩
      rw [List.forall_mem_cons, List.forall_mem_singleton] at haccepts
      cases hxy
      exact .inr (.inl ⟨rfl, a, b, below, rfl, haccepts.2, haccepts.1, hne⟩)
    · exact .inl ⟨taken.reverse, below, results, hholds, hresult⟩
  · exact .inr (.inr hrefused)

end

/-- An arithmetic operation fails exactly if one of its operands is missing, too long, or not
    minimal where this is asked for, or if an equality that it checks is false; what is wrong
    with the first such operand from the top is what it fails by. Otherwise it replaces its
    operands by the minimal strings of its exact result and changes nothing else. These have
    at most a byte more than operands may have, and they are read back as what they are. -/
theorem execute_exact (rules : Rules) (op : ArithmeticOp) (frame : Frame) :
    (∀ violation, (∃ fault after, execute rules op frame = .error fault after ∧
        fault.violation = violation) ↔
      Refused rules.numbers op.arity frame.stack violation ∨
        (op = .equalVerify ∧ Unequal rules.numbers frame.stack ∧ violation = .numEqualVerify)) ∧
    (∀ after, execute rules op frame = .ok () after ↔ ∃ elements below results,
      Holds rules.numbers op frame.stack elements below ∧
      op.result? (elements.map Number.decode) = some results ∧
      after = { frame with stack := results.map Number.encode ++ below }) ∧
    ∀ elements below results, Holds rules.numbers op frame.stack elements below →
      op.result? (elements.map Number.decode) = some results →
      ∀ n ∈ results, (Number.encode n).length ≤ rules.limits.numberLength + 1 ∧
        NumberRule.read ⟨rules.limits.numberLength + 1, true⟩ (Number.encode n) = .ok n := by
  refine ⟨fun violation => ⟨?_, ?_⟩, fun after => ⟨?_, ?_⟩, ?_⟩
  · -- Exactly one of three things happens, so a failure is one of the two that fail.
    rintro ⟨fault, after, hfails, rfl⟩
    rcases computes_or_fails rules op frame.stack with
      ⟨elements, below, results, hholds, hresults⟩ | ⟨rfl, hunequal⟩ | ⟨violation, hrefused⟩
    · rw [hholds.execute_ok hresults] at hfails
      exact absurd hfails (by simp only [reduceCtorEq, not_false_eq_true])
    · rcases execute_of_unequal hunequal with ⟨after', hthere⟩
      cases hthere.symm.trans hfails
      exact .inr ⟨rfl, hunequal, rfl⟩
    · rcases execute_of_refused hrefused with ⟨fault', after', hthere, rfl⟩
      cases hthere.symm.trans hfails
      exact .inl hrefused
  · intro h
    rcases h with hrefused | ⟨rfl, hunequal, rfl⟩
    · exact execute_of_refused hrefused
    · rcases execute_of_unequal hunequal with ⟨after, hthere⟩
      exact ⟨_, after, hthere, rfl⟩
  · -- For the same reason a success is the one that computes.
    intro hok
    rcases computes_or_fails rules op frame.stack with
      ⟨elements, below, results, hholds, hresults⟩ | ⟨rfl, hunequal⟩ | ⟨violation, hrefused⟩
    · cases (hholds.execute_ok hresults).symm.trans hok
      exact ⟨elements, below, results, hholds, hresults, rfl⟩
    · rcases execute_of_unequal hunequal with ⟨after', hthere⟩
      exact absurd (hthere.symm.trans hok) (by simp only [reduceCtorEq, not_false_eq_true])
    · rcases execute_of_refused hrefused with ⟨fault, after', hthere, -⟩
      exact absurd (hthere.symm.trans hok) (by simp only [reduceCtorEq, not_false_eq_true])
  · rintro ⟨elements, below, results, hholds, hresults, rfl⟩
    exact hholds.execute_ok hresults
  · intro elements below results hholds hresults
    exact hholds.read_result hresults

end Arithmetic

end Bitcoin
