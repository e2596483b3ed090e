import Bitcoin.Machine.Crypto
import Bitcoin.Proofs.Result

/-!
# Steps on a Frame

What an operation does is known once it is known what each of its steps does.
Some steps are those of many operations: results that need no frame, elements
taken from the stack, operations counted, the context asked for. They are
described here, as equivalences where something is to be learnt from their
success, and otherwise under the conditions under which they succeed.

## Main definitions

* `Exec.after`: The frame that a computation leaves in any case.

## Theorems

* `Exec.lift_eq_ok`, `Exec.stackLift_eq_ok`, `Exec.onStack_eq_ok`: Success of what has
  been lifted.
* `Exec.onStack_bind`: A sequence that has been lifted.
* `Exec.peek_eq_ok`: An element looked at.
* `Exec.pop_eq_ok`, `Exec.popMany_ok`, `Exec.popNumber_ok`: Elements from the stack.
* `Exec.countOperations_ok`, `Exec.context_eq_ok`: Operations within their limit, and the
  context.
-/

namespace Bitcoin

/-- Popping takes the top off a stack that has one. -/
theorem Stack.pop_eq_ok {stack below : Stack} {top : Bytes} :
    pop stack = .ok top below ↔ stack = top :: below := by
  rcases stack with _ | ⟨first, rest⟩
  · simp [pop, nip]
  · simp [pop, nip]

namespace Exec

variable {rules : Rules} {frame frame' : Frame}

/-- The frame that a computation leaves, whether it succeeds or not. -/
def after {α : Type} (x : Exec α) (frame : Frame) : Frame :=
  match x frame with
  | .ok _ frame' => frame'
  | .error _ frame' => frame'

theorem after_of_ok {α : Type} {x : Exec α} {a : α} (h : x frame = .ok a frame') :
    x.after frame = frame' := by
  rw [after, h]

theorem after_of_error {α : Type} {x : Exec α} {fault : Fault}
    (h : x frame = .error fault frame') : x.after frame = frame' := by
  rw [after, h]

/-- A result that needs no frame leaves the frame alone. -/
theorem lift_eq_ok {α : Type} {result : Except Fault α} {a : α} :
    lift result frame = .ok a frame' ↔ result = .ok a ∧ frame = frame' := by
  rcases result with fault | value
  · exact ⟨fun h => absurd h (Steps.throw_ne_ok fault a),
      fun h => absurd h.1 (by simp only [reduceCtorEq, not_false_eq_true])⟩
  · change EStateM.Result.ok value frame = _ ↔ _
    rw [EStateM.Result.ok.injEq, Except.ok.injEq]

theorem stackLift_eq_ok {α : Type} {result : Except Fault α} {a : α} {stack stack' : Stack} :
    Stack.lift result stack = .ok a stack' ↔ result = .ok a ∧ stack = stack' := by
  rcases result with fault | value
  · exact ⟨fun h => absurd h (Steps.throw_ne_ok fault a),
      fun h => absurd h.1 (by simp only [reduceCtorEq, not_false_eq_true])⟩
  · change EStateM.Result.ok value stack = _ ↔ _
    rw [EStateM.Result.ok.injEq, Except.ok.injEq]

/-- An element that is looked at stays where it is. -/
theorem peek_eq_ok {index : Nat} {element : Bytes} {stack stack' : Stack} :
    Stack.peek index stack = .ok element stack' ↔
      stack[index]? = some element ∧ stack = stack' := by
  rw [Stack.peek]
  rcases stack[index]? with _ | found
  · simp only [reduceCtorEq, false_and]
  · simp only [EStateM.Result.ok.injEq, Option.some.injEq]

/-- A computation on the main stack leaves the rest of the frame alone. -/
theorem onStack_eq_ok {α : Type} {action : StackM α} {a : α} :
    onStack action frame = .ok a frame' ↔
      ∃ stack, action frame.stack = .ok a stack ∧ frame' = { frame with stack } := by
  rw [onStack]
  rcases action frame.stack with ⟨value, stack⟩ | ⟨fault, stack⟩
  · simp only [EStateM.Result.ok.injEq]
    constructor
    · rintro ⟨rfl, rfl⟩
      exact ⟨stack, ⟨rfl, rfl⟩, rfl⟩
    · rintro ⟨_, ⟨rfl, rfl⟩, rfl⟩
      exact ⟨rfl, rfl⟩
  · simp only [reduceCtorEq, false_and, exists_false]

/-- A fault keeps the rest of the frame. -/
theorem onStack_error {α : Type} {action : StackM α} {fault : Fault} {stack : Stack}
    (h : action frame.stack = .error fault stack) :
    onStack action frame = .error fault { frame with stack } := by
  simp only [onStack, h]

/-- Steps on the main stack are steps on the frame. -/
theorem onStack_bind {α β : Type} (action : StackM α) (rest : α → StackM β) :
    onStack (action >>= rest) = onStack action >>= fun a => onStack (rest a) := by
  funext frame
  rcases haction : action frame.stack with ⟨a, stack⟩ | ⟨fault, stack⟩
  · have hfirst : onStack action frame = .ok a { frame with stack } :=
      onStack_eq_ok.mpr ⟨stack, haction, rfl⟩
    rw [Steps.bind_ok hfirst]
    simp only [onStack, Steps.bind_ok haction]
  · rw [Steps.bind_error (onStack_error haction)]
    exact onStack_error (Steps.bind_error haction)

theorem pop_eq_ok {top : Bytes} :
    (Stack.pop : Exec Bytes) frame = .ok top frame' ↔
      ∃ below, frame.stack = top :: below ∧ frame' = { frame with stack := below } := by
  refine onStack_eq_ok.trans (exists_congr fun below => and_congr_left fun _ => ?_)
  exact Stack.pop_eq_ok

theorem pop_ok {top : Bytes} {rest : Stack} (h : frame.stack = top :: rest) :
    (Stack.pop : Exec Bytes) frame = .ok top { frame with stack := rest } :=
  pop_eq_ok.mpr ⟨rest, h, rfl⟩

/-- Several elements are taken, top first. -/
theorem popMany_ok {taken rest : List Bytes} (h : frame.stack = taken ++ rest) :
    (Stack.popMany taken.length : Exec (List Bytes)) frame
      = .ok taken { frame with stack := rest } := by
  -- On the bare stack first, where what is left does not change from step to step.
  have hpop : ∀ taken : List Bytes,
      Stack.popMany taken.length (taken ++ rest) = .ok taken rest := by
    intro taken
    induction taken with
    | nil => rfl
    | cons first taken ih =>
        have hfirst : Stack.pop (first :: (taken ++ rest)) = .ok first (taken ++ rest) := rfl
        rw [List.length_cons, Stack.popMany, List.cons_append, Steps.bind_ok hfirst,
          Steps.bind_ok ih]
        rfl
  refine onStack_eq_ok.mpr ⟨rest, ?_, rfl⟩
  rw [h]
  exact hpop taken

theorem popNumber_ok {rule : NumberRule} {top : Bytes} {rest : Stack} {n : Int}
    (h : frame.stack = top :: rest) (hread : rule.read top = .ok n) :
    (Stack.popNumber rule : Exec Int) frame = .ok n { frame with stack := rest } := by
  have hpop : Stack.pop (top :: rest) = .ok top rest := rfl
  have hnumber : Stack.popNumber rule (top :: rest) = .ok n rest := by
    rw [Stack.popNumber, Steps.bind_ok hpop, hread]
    rfl
  refine onStack_eq_ok.mpr ⟨rest, ?_, rfl⟩
  rw [h]
  exact hnumber

/-- Operations that stay within their limit are counted. -/
theorem countOperations_ok {count : Nat} (h : frame.operations + count ≤ rules.limits.operations) :
    countOperations rules count frame
      = .ok () { frame with operations := frame.operations + count } := by
  -- The limit is compared with the count that has already been raised.
  change (if rules.limits.operations < frame.operations + count
    then throw (.tooManyOperations rules.limits.operations) else pure () : Exec Unit) _ = _
  rw [if_neg (by omega)]
  rfl

-- One that exceeds the limit has been counted all the same.
theorem countOperations_error {count : Nat}
    (h : rules.limits.operations < frame.operations + count) :
    countOperations rules count frame = .error (.tooManyOperations rules.limits.operations)
      { frame with operations := frame.operations + count } := by
  change (if rules.limits.operations < frame.operations + count
    then throw (.tooManyOperations rules.limits.operations) else pure () : Exec Unit) _ = _
  rw [if_pos h]
  rfl

/-- Operations are counted only as long as they stay within their limit. -/
theorem countOperations_eq_ok {count : Nat} :
    countOperations rules count frame = .ok () frame' ↔
      frame.operations + count ≤ rules.limits.operations ∧
      { frame with operations := frame.operations + count } = frame' := by
  change (if rules.limits.operations < frame.operations + count
    then throw (.tooManyOperations rules.limits.operations) else pure () : Exec Unit) _ = _ ↔ _
  refine Steps.refuse_eq_ok.trans (and_congr Nat.not_lt ?_)
  exact ⟨fun h => (EStateM.Result.ok.inj h).2, fun h => congrArg (EStateM.Result.ok ()) h⟩

/-- The transaction is there, and asking for it changes nothing. -/
theorem context_eq_ok {context : Context} {use : TransactionUse} :
    Exec.context rules use frame = .ok context frame' ↔
      rules.context? = some context ∧ frame = frame' := by
  rw [Exec.context]
  rcases rules.context? with _ | found
  · exact ⟨fun h => absurd h (Steps.throw_ne_ok _ context),
      fun h => absurd h.1 (by simp only [reduceCtorEq, not_false_eq_true])⟩
  · change EStateM.Result.ok found frame = _ ↔ _
    rw [EStateM.Result.ok.injEq, Option.some.injEq]

end Exec

end Bitcoin
