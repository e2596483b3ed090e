import Bitcoin.Proofs.Machine.Rounds

/-!
# Where a Transaction Is Wanted

Scripts can be run without a transaction, and most of them never ask for one. Those
that do ask fail for want of it, at the instruction that asks. Up to there nothing has
depended on whether there is a transaction, so a run without one tells what a run with
any transaction comes to, unless it fails for that reason.

Two machines run side by side that differ in nothing but their transactions. An
instruction asks for the transaction before it asks the transaction for anything, so
whatever it does after that need not be compared.

## Main definitions

* `Exec.Follows`: Computations that agree unless a transaction is wanted.
* `Rules.withContext?`, `Machine.withContext?`: Rules and machines with a transaction or
  without.
* `Machine.Wanting`: A machine that has failed for want of a transaction.

## Theorems

* `Exec.Follows.bind`, `Exec.Follows.wanting`: Sequences, and where comparing stops.
* `Instruction.follows_execute`: One instruction.
* `Machine.executeNext_withContext?`: An instruction that asks the transaction for nothing new.
* `Machine.wanting_or_step`, `Machine.wanting_or_runFor`: One step, and many.
* `Machine.execute_eq_or_noTransaction`: Runs without a transaction and with one.
-/

namespace Bitcoin

namespace Exec

/-- The second computation does what the first one does, unless that fails for want of
    a transaction. -/
def Follows {α : Type} (bare given : Exec α) : Prop :=
  ∀ frame, (∃ use frame', bare frame = .error (.noTransaction use) frame') ∨
    given frame = bare frame

namespace Follows

variable {α β : Type}

theorem refl (x : Exec α) : Follows x x :=
  fun _ => .inr rfl

/-- A computation follows another one as long as nothing is missing. -/
theorem bind {x x' : Exec α} {f f' : α → Exec β} (hx : Follows x x')
    (hf : ∀ a, Follows (f a) (f' a)) : Follows (x >>= f) (x' >>= f') := by
  intro frame
  rcases hx frame with ⟨use, frame', hwanting⟩ | hsame
  · exact .inl ⟨use, frame', Steps.bind_error hwanting⟩
  · rcases hresult : x frame with ⟨a, between⟩ | ⟨fault, between⟩
    · rw [hresult] at hsame
      rw [Steps.bind_ok hresult, Steps.bind_ok hsame]
      exact hf a between
    · rw [hresult] at hsame
      rw [Steps.bind_error hresult, Steps.bind_error hsame]
      exact .inr rfl

-- What stands behind a refusal that is met does not matter, so it may differ.
theorem guard {x x' : Exec α} {k k' : β → Exec α} {c : Prop} [Decidable c] {fault : Fault}
    (hx : Follows x x') : Follows (if c then MonadExcept.throw fault >>= k else x)
      (if c then MonadExcept.throw fault >>= k' else x') := by
  by_cases hc : c
  · rw [if_pos hc, if_pos hc]
    exact fun _ => .inr rfl
  · rw [if_neg hc, if_neg hc]
    exact hx

theorem ite {x x' y y' : Exec α} {c : Prop} [Decidable c] (hx : Follows x x')
    (hy : Follows y y') : Follows (if c then x else y) (if c then x' else y') := by
  by_cases hc : c
  · rw [if_pos hc, if_pos hc]
    exact hx
  · rw [if_neg hc, if_neg hc]
    exact hy

/-- Where a transaction is asked for and there is none, nothing behind matters. -/
theorem wanting {rules : Rules} (hnone : rules.context? = none) {use : TransactionUse}
    {f : Context → Exec α} {y : Exec α} : Follows (context rules use >>= f) y := by
  intro frame
  refine .inl ⟨use, frame, Steps.bind_error ?_⟩
  rw [context, hnone]
  rfl

end Follows

end Exec

/-- The rules with a transaction, or without. -/
def Rules.withContext? (rules : Rules) (context? : Option Context) : Rules :=
  { rules with context? }

open Exec (Follows)

variable {rules : Rules} {context : Context}

/-- The transaction is asked for after the elements are taken, and before anything is checked. -/
theorem Crypto.follows_execute (op : CryptoOp) :
    Follows (execute (rules.withContext? none) op)
      (execute (rules.withContext? (some context)) op) := by
  have hsig : Follows (checkSig (rules.withContext? none))
      (checkSig (rules.withContext? (some context))) :=
    .bind (.refl _) fun _ => .bind (.refl _) fun _ => .wanting rfl
  have hmultiSig : Follows (checkMultiSig (rules.withContext? none))
      (checkMultiSig (rules.withContext? (some context))) :=
    .bind (.refl _) fun _ => .bind (.refl _) fun _ => .bind (.refl _) fun _ =>
      .bind (.refl _) fun _ => .bind (.refl _) fun _ => .bind (.refl _) fun _ =>
        .guard (.wanting rfl)
  cases op with
  | checkSig => exact hsig
  | checkSigVerify => exact .bind hsig fun _ => .refl _
  | checkMultiSig => exact hmultiSig
  | checkMultiSigVerify => exact .bind hmultiSig fun _ => .refl _
  | _ => exact .refl _

-- A relative lock that is disabled asks for no transaction, so it is the same for both.
theorem LockTime.follows_execute (op : LockTimeOp) :
    Follows (execute (rules.withContext? none) op)
      (execute (rules.withContext? (some context)) op) := by
  have hcheck : Follows (check (rules.withContext? none) op)
      (check (rules.withContext? (some context)) op) := by
    cases op with
    | absolute => exact .bind (.refl _) fun _ => .wanting rfl
    | relative => exact .bind (.refl _) fun _ => .ite (.wanting rfl) (.refl _)
  exact .ite hcheck (.refl _)

namespace Instruction

theorem follows_perform (instruction : Instruction) :
    Follows (instruction.perform (rules.withContext? none))
      (instruction.perform (rules.withContext? (some context))) := by
  rw [perform, perform]
  cases instruction.operation with
  | crypto op => exact Crypto.follows_execute op
  | lockTime op => exact LockTime.follows_execute op
  | _ => exact .refl _

/-- An instruction does the same with a transaction as without, unless it wants one. -/
theorem follows_execute (instruction : Instruction) :
    Follows (instruction.execute (rules.withContext? none))
      (instruction.execute (rules.withContext? (some context))) := by
  have hperform : Follows (do if (← get).isLive ∨ instruction.operation.isConditional then
      instruction.perform (rules.withContext? none)) (do
      if (← get).isLive ∨ instruction.operation.isConditional then
        instruction.perform (rules.withContext? (some context))) :=
    .bind (.refl _) fun _ => .ite (follows_perform instruction) (.refl _)
  exact .guard <| .ite (.bind (.refl _) fun _ => .guard hperform) (.guard hperform)

/-- With the next instruction taken off and the limits checked, it is the same. -/
theorem follows_advance (instruction : Instruction) (rest : Program) :
    Follows (instruction.advance (rules.withContext? none) rest)
      (instruction.advance (rules.withContext? (some context)) rest) :=
  .bind (.refl _) fun _ => .bind (follows_execute instruction) fun _ => .refl _

end Instruction

namespace Machine

/-- The machine with a transaction, or without. -/
def withContext? (m : Machine) (context? : Option Context) : Machine :=
  { m with rules := m.rules.withContext? context? }

/-- The machine has failed for want of a transaction. -/
def Wanting (m : Machine) : Prop :=
  ∃ failure, m.status = .failed failure ∧ failure.violation = .noTransaction

variable {m : Machine}

-- What happens between scripts depends on no transaction.
theorem endScript_withContext? (m : Machine) (context? : Option Context) :
    (m.withContext? context?).endScript = m.endScript.withContext? context? := by
  have hopen : ∀ m : Machine, m.frame.blocks ≠ [] →
      m.endScript = m.fail (.of (.openBlock m.stage.role)) := by
    intro m h
    rw [endScript, if_pos h]
  -- The last check of the stack does not look at the transaction.
  have hconclude : (m.withContext? context?).conclude = m.conclude.withContext? context? := by
    rcases hjudge : judge m.rules m.frame.stack with fault | _
    · have hgiven : judge (m.withContext? context?).rules (m.withContext? context?).frame.stack
          = .error fault := hjudge
      rw [conclude, conclude, hgiven, hjudge]
      rfl
    · have hgiven : judge (m.withContext? context?).rules (m.withContext? context?).frame.stack
          = .ok () := hjudge
      rw [conclude, conclude, hgiven, hjudge]
      rfl
  -- A closed script goes on to the next one or is the last one, by the stage.
  by_cases hblocks : m.frame.blocks = []
  · rcases hstage : m.stage with locking | (_ | saved) | _
    · rw [endScript_unlocking hblocks hstage,
        endScript_unlocking (m := m.withContext? context?) hblocks hstage]
      rfl
    · rw [endScript_last hblocks (.inl hstage),
        endScript_last (m := m.withContext? context?) hblocks (.inl hstage), hconclude]
    · rcases hloaded : redeemProgram m.rules m.frame.stack saved with failure | loaded
      · rw [endScript_unloaded hblocks hstage hloaded,
          endScript_unloaded (m := m.withContext? context?) hblocks hstage hloaded]
        rfl
      · rw [endScript_locking hblocks hstage hloaded,
          endScript_locking (m := m.withContext? context?) hblocks hstage hloaded]
        rfl
    · rw [endScript_last hblocks (.inr hstage),
        endScript_last (m := m.withContext? context?) hblocks (.inr hstage), hconclude]
  · rw [hopen m hblocks, hopen (m.withContext? context?) hblocks]
    rfl

/-- An instruction that does the same with both transactions takes both machines to the same
    place. -/
theorem executeNext_withContext? {instruction : Instruction} {rest : Program}
    {a b : Option Context}
    (h : instruction.advance (m.rules.withContext? b) rest m.frame
      = instruction.advance (m.rules.withContext? a) rest m.frame) :
    ∃ after : Machine,
      (m.withContext? a).executeNext instruction rest = after.withContext? a ∧
      (m.withContext? b).executeNext instruction rest = after.withContext? b := by
  rcases hfirst : instruction.advance (m.rules.withContext? a) rest m.frame
    with ⟨_, frame⟩ | ⟨fault, frame⟩
  · have hsecond := h.trans hfirst
    rw [executeNext_of_ok (m := m.withContext? a) hfirst,
      executeNext_of_ok (m := m.withContext? b) hsecond]
    by_cases hend : rest.isEmpty = true
    · rw [if_pos hend, if_pos hend]
      -- The same frame is reached, and the script may end with it.
      let after : Machine := { m with frame }
      exact ⟨after.endScript, endScript_withContext? after _, endScript_withContext? after _⟩
    · rw [if_neg hend, if_neg hend]
      exact ⟨{ m with frame }, rfl, rfl⟩
  · have hsecond := h.trans hfirst
    rw [executeNext_of_fault (m := m.withContext? a) hfirst,
      executeNext_of_fault (m := m.withContext? b) hsecond]
    exact ⟨{ m with frame }.fail _, rfl, rfl⟩

-- The instruction decides: it fails for want of a transaction, or both machines go on alike.
theorem wanting_or_executeNext (m : Machine) (context : Context) (instruction : Instruction)
    (rest : Program) :
    ((m.withContext? none).executeNext instruction rest).Wanting ∨ ∃ after : Machine,
      (m.withContext? none).executeNext instruction rest = after.withContext? none ∧
      (m.withContext? (some context)).executeNext instruction rest
        = after.withContext? (some context) := by
  have hfollows : Follows (instruction.advance (m.rules.withContext? none) rest)
      (instruction.advance (m.rules.withContext? (some context)) rest) :=
    Instruction.follows_advance instruction rest
  rcases hfollows m.frame with ⟨use, frame, hwanting⟩ | hsame
  · rw [executeNext_of_fault (m := m.withContext? none) hwanting]
    exact .inl ⟨_, rfl, rfl⟩
  · exact .inr (executeNext_withContext? hsame)

/-- One step of both machines. -/
theorem wanting_or_step (m : Machine) (context : Context) :
    (m.withContext? none).step.Wanting ∨ ∃ after : Machine,
      (m.withContext? none).step = after.withContext? none ∧
      (m.withContext? (some context)).step = after.withContext? (some context) := by
  have hhalted : ∀ context?, m.status ≠ .running →
      (m.withContext? context?).step = m.withContext? context? := fun context? h =>
    runFor_of_halted (m := m.withContext? context?) h 1
  by_cases hrunning : m.status = .running
  · rcases hnext : m.frame.next with _ | ⟨instruction, rest⟩
    · -- At the end of a script nobody asks for the transaction.
      have hstep : ∀ context?, (m.withContext? context?).step
          = m.endScript.withContext? context? := by
        intro context?
        rw [← endScript_withContext?, step_of_end (m := m.withContext? context?) hrunning hnext]
      exact .inr ⟨_, hstep _, hstep _⟩
    · rw [step_of_next (m := m.withContext? none) hrunning hnext,
        step_of_next (m := m.withContext? (some context)) hrunning hnext]
      exact wanting_or_executeNext m context instruction rest
  · exact .inr ⟨m, hhalted _ hrunning, hhalted _ hrunning⟩

/-- A run that has failed for want of a transaction stays there. -/
theorem runFor_of_wanting (h : m.Wanting) (count : Nat) : (runFor count m).Wanting := by
  rcases h with ⟨failure, hfailed, hviolation⟩
  rw [runFor_of_halted (halted_of_failed hfailed)]
  exact ⟨failure, hfailed, hviolation⟩

/-- So many steps of both machines. -/
theorem wanting_or_runFor (m : Machine) (context : Context) (count : Nat) :
    (runFor count (m.withContext? none)).Wanting ∨ ∃ after : Machine,
      runFor count (m.withContext? none) = after.withContext? none ∧
      runFor count (m.withContext? (some context)) = after.withContext? (some context) := by
  induction count generalizing m with
  | zero => exact .inr ⟨m, rfl, rfl⟩
  | succ count ih =>
      rw [runFor, runFor]
      rcases wanting_or_step m context with hwanting | ⟨after, hbare, hgiven⟩
      · exact .inl (runFor_of_wanting hwanting count)
      · rw [hbare, hgiven]
        exact ih after

-- How many steps a script takes is read off the frame, which both machines share.
theorem wanting_or_finishScript (m : Machine) (context : Context) :
    (m.withContext? none).finishScript.Wanting ∨ ∃ after : Machine,
      (m.withContext? none).finishScript = after.withContext? none ∧
      (m.withContext? (some context)).finishScript = after.withContext? (some context) :=
  wanting_or_runFor m context m.scriptSteps

/-- All steps of both machines. -/
theorem wanting_or_run (m : Machine) (context : Context) :
    (m.withContext? none).run.Wanting ∨ ∃ after : Machine,
      (m.withContext? none).run = after.withContext? none ∧
      (m.withContext? (some context)).run = after.withContext? (some context) := by
  rw [run, run]
  rcases wanting_or_finishScript m context with hwanting | ⟨first, hbare, hgiven⟩
  · exact .inl (runFor_of_wanting (runFor_of_wanting hwanting _) _)
  rw [hbare, hgiven]
  rcases wanting_or_finishScript first context with hwanting | ⟨second, hbare, hgiven⟩
  · exact .inl (runFor_of_wanting hwanting _)
  rw [hbare, hgiven]
  exact wanting_or_finishScript second context

/-- Whether a run can start, and how, depends on no transaction. -/
theorem start_withContext? (rules : Rules) (unlocking locking : Script)
    (context? : Option Context) :
    start (rules.withContext? context?) unlocking locking
      = (withContext? · context?) <$> start rules unlocking locking := by
  rw [start, start]
  simp only [apply_ite ((withContext? · context?) <$> ·), map_bind, map_pure]
  rfl

/-- A run without a transaction either fails because a transaction is wanted, or comes to
    what a run with any transaction comes to, to the wording and the place of a failure. -/
theorem execute_eq_or_noTransaction (rules : Rules) (context : Context)
    (unlocking locking : Script) :
    (∃ failure, execute { rules with context? := none } unlocking locking = .failure failure ∧
      failure.violation = .noTransaction) ∨
    execute { rules with context? := none } unlocking locking
      = execute { rules with context? := some context } unlocking locking := by
  change (∃ failure, execute (rules.withContext? none) _ _ = _ ∧ _) ∨
    execute (rules.withContext? none) _ _ = execute (rules.withContext? (some context)) _ _
  rw [execute, execute, start_withContext?, start_withContext?]
  -- Before the first instruction nothing is asked for either.
  rcases start rules unlocking locking with failure | m
  · exact .inr rfl
  · rcases wanting_or_run m context with ⟨failure, hfailed, hviolation⟩ | ⟨after, hbare, hgiven⟩
    · refine .inl ⟨failure, ?_, hviolation⟩
      change (m.withContext? none).run.verdict = _
      rw [verdict, hfailed]
    · right
      change (m.withContext? none).run.verdict = (m.withContext? (some context)).run.verdict
      rw [hbare, hgiven]
      rfl

end Machine

end Bitcoin
