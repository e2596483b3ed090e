import Bitcoin.Proofs.Machine.Refines
import Bitcoin.Proofs.Machine.Run

/-!
# Relaxed Rules Accept More

If two scripts succeed under some rules, they succeed under every relaxation of
these rules: taking flags away and raising limits never turns success into
failure. Seen from the other side, rules that are made stricter only refuse more,
which is what lets nodes adopt them one by one.

Two machines run side by side on the same scripts, one under each set of rules.
As long as the stricter one has not failed, both are in the same frame, with one
exception. The stricter rules may know redeem scripts where the laxer ones do
not, and then the laxer machine is done when the stricter one has a script more
to go. It has succeeded by then, because the stricter machine goes on only from a
true element. That it could have been refused for other elements below is ruled
out by the condition under which a run may start at all: whoever asks for a clean
stack knows redeem scripts.

## Main definitions

* `Stage.Matches`: Stages of two machines in the same script.
* `Machine.Alike`: Two machines in step.
* `Machine.Simulates`: What holds of the two machines all along.

## Theorems

* `Machine.simulates_endScript`: At the end of a script.
* `Machine.simulates_step`: One step of both machines.
* `Machine.simulates_runFor`, `Machine.simulates_run`: Many steps, and all of them.
* `Machine.execute_of_relaxes`: Success under stricter rules is success under laxer ones.
-/

namespace Bitcoin

/-- Stages of a stricter and a laxer machine in the same script. Where only the stricter
    one has a redeem script to come, the laxer one does not ask for a clean stack. -/
inductive Stage.Matches (rules : Rules) : (strict lax : Stage) → Prop where
  | unlocking (locking : Program) : Matches rules (.unlocking locking) (.unlocking locking)
  | locking (saved : Option Stack) : Matches rules (.locking saved) (.locking saved)
  | skipped (saved : Stack) (h : rules.has .cleanStack ≠ true) :
      Matches rules (.locking (some saved)) (.locking none)
  | redeem : Matches rules .redeem .redeem

namespace Machine

/-- A stricter and a laxer machine in step. -/
structure Alike (strict lax : Machine) : Prop where
  relaxes : lax.rules.Relaxes strict.rules
  locks : lax.rules.has .discourageNops = true →
    ∀ op, lax.rules.has (LockTime.flag op) = strict.rules.has (LockTime.flag op)
  /-- What the laxer machine redeems the stricter one redeems too, and otherwise the
      laxer one does not ask for a clean stack. -/
  redeems : lax.redeems = strict.redeems ∨
    (lax.redeems = false ∧ lax.rules.has .cleanStack ≠ true)
  stage : Stage.Matches lax.rules strict.stage lax.stage
  frame : lax.frame = strict.frame
  running : lax.status = .running ∧ strict.status = .running

/-- What holds of the two machines all along. -/
inductive Simulates (strict lax : Machine) : Prop where
  | failed (failure : Failure) (h : strict.status = .failed failure)
  | succeeded (h : lax.status = .succeeded)
  | alike (h : Alike strict lax)

variable {strict lax : Machine}

theorem Alike.withFrame (h : Alike strict lax) (frame : Frame) :
    Alike { strict with frame } { lax with frame } :=
  ⟨h.relaxes, h.locks, h.redeems, h.stage, rfl, h.running⟩

/-- Both enter the same program with the same stack. -/
theorem Alike.enter (h : Alike strict lax) {stage stage' : Stage}
    (hstage : Stage.Matches lax.rules stage' stage) (stack : Stack) (program : Program) :
    Alike (strict.enter stage' stack program) (lax.enter stage stack program) :=
  ⟨h.relaxes, h.locks, h.redeems, hstage, by rw [Machine.enter, Machine.enter, h.frame],
    h.running⟩

/-- A stack that passes the stricter last check passes the other one. -/
theorem judge_mono {lax strict : Rules} (h : lax.Relaxes strict) {stack : Stack}
    (hjudge : judge strict stack = .ok ()) : judge lax stack = .ok () := by
  rcases judge_eq_ok.mp hjudge with ⟨htrue, hclean⟩
  exact judge_eq_ok.mpr ⟨htrue, fun hc => hclean ⟨h.has hc.1, hc.2⟩⟩

/-- The last check ends both. -/
theorem simulates_conclude (h : Alike strict lax) : Simulates strict.conclude lax.conclude := by
  rcases hjudge : judge strict.rules strict.frame.stack with fault | _
  · refine .failed (.of fault) ?_
    rw [conclude, hjudge]
    rfl
  · refine .succeeded ?_
    rw [conclude, h.frame, judge_mono h.relaxes hjudge]

/-- A redeem script that may be executed under the stricter rules may be under the others. -/
theorem redeemProgram_mono {lax strict : Rules} (h : lax.Relaxes strict) {stack saved : Stack}
    {loaded : Program × Stack} (hloaded : redeemProgram strict stack saved = .ok loaded) :
    redeemProgram lax stack saved = .ok loaded := by
  rcases redeemProgram_eq_ok.mp hloaded with ⟨htrue, script, hsaved, hsize, hparse⟩
  exact redeemProgram_eq_ok.mpr ⟨htrue, script, hsaved, Nat.le_trans hsize h.scriptSize, hparse⟩

/-- At the end of a script both machines go on to the next one, except where the laxer
    one is done. -/
theorem simulates_endScript (h : Alike strict lax) :
    Simulates strict.endScript lax.endScript := by
  by_cases hopen : strict.frame.blocks ≠ []
  · refine .failed (.of (.openBlock strict.stage.role)) ?_
    rw [endScript, if_pos hopen]
    rfl
  rw [endScript, endScript, if_neg hopen, if_neg (h.frame ▸ hopen), h.frame]
  generalize hs : strict.stage = s
  generalize hl : lax.stage = l
  have hstage : Stage.Matches lax.rules s l := hs ▸ hl ▸ h.stage
  cases hstage with
  | unlocking locking =>
      -- Both go on to the locking script, and keep the stack for a redeem script or not.
      refine .alike (h.enter ?_ _ _)
      rcases h.redeems with hsame | ⟨hlax, hclean⟩
      · rw [hsame]
        exact .locking _
      · rw [hlax]
        rcases strict.redeems with _ | _
        · exact .locking none
        · exact .skipped _ hclean
  | locking saved =>
      rcases saved with _ | saved
      · exact simulates_conclude h
      · simp only []
        rcases hloaded : redeemProgram strict.rules strict.frame.stack saved with failure | loaded
        · exact .failed failure rfl
        · rw [redeemProgram_mono h.relaxes hloaded]
          exact .alike (h.enter .redeem _ _)
  | skipped saved hclean =>
      -- The laxer machine is done, the stricter one is about to load a script.
      simp only []
      rcases hloaded : redeemProgram strict.rules strict.frame.stack saved with failure | loaded
      · exact .failed failure rfl
      · -- The element on top is true, which is all that the laxer machine asks for.
        have hjudge : judge lax.rules lax.frame.stack = .ok () := by
          rw [h.frame]
          exact judge_eq_ok.mpr ⟨(redeemProgram_eq_ok.mp hloaded).1, fun hc => hclean hc.1⟩
        refine .succeeded ?_
        rw [conclude, hjudge]
  | redeem => exact simulates_conclude h

/-- One instruction of both machines. -/
theorem simulates_executeNext (h : Alike strict lax) (instruction : Instruction)
    (rest : Program) :
    Simulates (strict.executeNext instruction rest) (lax.executeNext instruction rest) := by
  have hrefines := Instruction.refines_execute h.relaxes h.locks instruction
  rw [executeNext, executeNext, h.frame]
  rcases hresult : instruction.execute strict.rules { strict.frame with next := rest }
    with ⟨_, frame⟩ | ⟨fault, frame⟩
  · -- The instruction has succeeded, so both machines are in the same new frame.
    rw [hrefines _ _ _ hresult]
    simp only []
    rcases hdepth : checkDepth strict.rules frame with fault | _
    · exact .failed _ rfl
    · rw [checkDepth_eq_ok.mpr (Nat.le_trans (checkDepth_eq_ok.mp hdepth) h.relaxes.stackDepth)]
      by_cases hend : rest.isEmpty = true
      · simp only [if_pos hend]
        exact simulates_endScript (h.withFrame frame)
      · simp only [if_neg hend]
        exact .alike (h.withFrame frame)
  · exact .failed _ rfl

/-- One step of both machines. -/
theorem simulates_step (h : Simulates strict lax) : Simulates strict.step lax.step := by
  cases h with
  | failed failure h =>
      refine .failed failure ?_
      rw [step, h]
      exact h
  | succeeded h =>
      refine .succeeded ?_
      rw [step, h]
      exact h
  -- Both are still running, with the same frame, so they are at the same instruction or both at an
  -- end.
  | alike h =>
      rw [step, step, h.running.1, h.running.2, h.frame]
      rcases strict.frame.next with _ | ⟨instruction, rest⟩
      · exact simulates_endScript h
      · exact simulates_executeNext h instruction rest

/-- So does any number of steps. -/
theorem simulates_runFor (h : Simulates strict lax) (count : Nat) :
    Simulates (runFor count strict) (runFor count lax) := by
  induction count generalizing strict lax with
  | zero => exact h
  | succ count ih => exact ih (simulates_step h)

-- How many steps this takes is read off the frame, so machines in step take the same
-- number. A machine that has halted takes none.
theorem simulates_finishScript (h : Simulates strict lax) :
    Simulates strict.finishScript lax.finishScript := by
  cases h with
  | failed failure h =>
      refine .failed failure ?_
      rw [finishScript, runFor_of_halted (by rw [h]; exact nofun)]
      exact h
  | succeeded h =>
      refine .succeeded ?_
      rw [finishScript, runFor_of_halted (by rw [h]; exact nofun)]
      exact h
  | alike h =>
      -- The steps that a script takes are counted by its program.
      have hsteps : lax.scriptSteps = strict.scriptSteps := by
        rw [scriptSteps, scriptSteps, h.frame]
      rw [finishScript, finishScript, hsteps]
      exact simulates_runFor (.alike h) _

theorem simulates_run (h : Simulates strict lax) : Simulates strict.run lax.run :=
  simulates_finishScript (simulates_finishScript (simulates_finishScript h))

/-- Where stricter rules let a run start, laxer ones do, and the machines are in step. -/
theorem alike_of_start {lax strict : Rules} (h : lax.Relaxes strict)
    (hclean : lax.has .cleanStack = true → lax.has .p2sh = true)
    (hlocks : lax.has .discourageNops = true →
      ∀ op, lax.has (LockTime.flag op) = strict.has (LockTime.flag op))
    {unlocking locking : Script} {m : Machine} (hstart : start strict unlocking locking = .ok m) :
    ∃ m', start lax unlocking locking = .ok m' ∧ Alike m m' := by
  rcases start_eq_ok.mp hstart with
    ⟨_, hunlocking, hlocking, hpush, hredeem, first, hfirst, second, hsecond, rfl⟩
  have hredeems : (lax.has .p2sh && locking.isP2SH) = true →
      (strict.has .p2sh && locking.isP2SH) = true := by
    intro hc
    rw [Bool.and_eq_true] at hc ⊢
    exact ⟨h.has hc.1, hc.2⟩
  refine ⟨_, start_eq_ok.mpr ⟨fun hc => hc.2 (hclean hc.1),
    Nat.le_trans hunlocking h.scriptSize, Nat.le_trans hlocking h.scriptSize,
    fun hc => hpush ⟨h.has hc.1, hc.2⟩, fun hc => hredeem ⟨hredeems hc.1, hc.2⟩,
    first, hfirst, second, hsecond, rfl⟩, ?_⟩
  refine ⟨h, hlocks, ?_, .unlocking second, rfl, rfl, rfl⟩
  -- Without redeem scripts the laxer rules cannot ask for a clean stack.
  by_cases hp2sh : lax.has .p2sh = true
  · left
    change (lax.has .p2sh && locking.isP2SH) = (strict.has .p2sh && locking.isP2SH)
    rw [hp2sh, h.has hp2sh]
  · right
    refine ⟨?_, fun hc => hp2sh (hclean hc)⟩
    change (lax.has .p2sh && locking.isP2SH) = false
    rw [Bool.eq_false_iff.mpr hp2sh, Bool.false_and]

/-- Success under stricter rules is success under laxer ones, whatever the scripts and
    the transaction. The laxer rules ask for a clean stack only along with redeem
    scripts, and they refuse operations without effect only where the flags of the
    lock times are those of the stricter rules. -/
theorem execute_of_relaxes {lax strict : Rules} (h : lax.Relaxes strict)
    (hclean : lax.has .cleanStack = true → lax.has .p2sh = true)
    (hlocks : lax.has .discourageNops = false ∨
      (lax.has .absoluteLock = strict.has .absoluteLock ∧
        lax.has .relativeLock = strict.has .relativeLock))
    {unlocking locking : Script} (hsuccess : execute strict unlocking locking = .success) :
    execute lax unlocking locking = .success := by
  -- The condition on the two lock times, for either of them.
  have hflags : lax.has .discourageNops = true →
      ∀ op, lax.has (LockTime.flag op) = strict.has (LockTime.flag op) := by
    intro hnops op
    rcases hlocks with hnone | ⟨habsolute, hrelative⟩
    · exact absurd hnops (by rw [hnone]; exact Bool.false_ne_true)
    · cases op with
      | absolute => exact habsolute
      | relative => exact hrelative
  rw [execute] at hsuccess
  rcases hstart : start strict unlocking locking with failure | m
  · rw [hstart] at hsuccess
    exact nomatch hsuccess
  · rw [hstart] at hsuccess
    change m.run.verdict = .success at hsuccess
    rcases alike_of_start h hclean hflags hstart with ⟨m', hstart', halike⟩
    rw [execute, hstart']
    change m'.run.verdict = .success
    -- Only a success under the stricter rules is left.
    cases simulates_run (.alike halike) with
    | failed failure hfailed =>
        rw [verdict, hfailed] at hsuccess
        exact nomatch hsuccess
    | succeeded hsucceeded => rw [verdict, hsucceeded]
    | alike hrun => rw [verdict, hrun.running.1]

/-- A block that runs under minimal conditions, for a clean stack and within a limit of
    two operations also runs without all this. -/
theorem execute_of_relaxes_block :
    let strict : Rules := { flags := ⟨1 ||| 256 ||| 2048⟩, limits := { operations := 2 } }
    let lax : Rules := { flags := .none }
    lax.Relaxes strict ∧ execute strict ⟨[0x51]⟩ ⟨[0x63, 0x51, 0x68]⟩ = .success ∧
      execute lax ⟨[0x51]⟩ ⟨[0x63, 0x51, 0x68]⟩ = .success := by
  intro strict lax
  have hrelaxes : lax.Relaxes strict :=
    ⟨by decide, by decide, by decide, by decide, by decide, by decide, by decide, rfl, rfl⟩
  have hstrict : execute strict ⟨[0x51]⟩ ⟨[0x63, 0x51, 0x68]⟩ = .success := by
    decide +kernel
  exact ⟨hrelaxes, hstrict,
    execute_of_relaxes hrelaxes (by decide) (Or.inl (by decide)) hstrict⟩

end Machine

end Bitcoin
