import Bitcoin.Proofs.Machine.Evaluation
import Mathlib.Logic.Basic

/-!
# What One Step Can Do

A machine that runs either has nothing left of its script, or it executes an
instruction. That instruction fails, or it is the last one, or there are more. Where a
script ends the machine halts or enters the next script, and there are only two ways
to enter one.

Whatever is kept by each of these few moves is kept by a whole run.

## Main definitions

* `Machine.Enters`: The ways from one script into the next.

## Theorems

* `Machine.executeNext_of_ok`, `Machine.executeNext_of_fault`: The step of an instruction.
* `Machine.endScript_unlocking`, `Machine.endScript_locking`, `Machine.endScript_last`: The end
  of a script.
* `Machine.step_cases`, `Machine.endScript_cases`: All that can happen in a step.
* `Machine.rules_runFor`: The rules never change.
* `Machine.depth_of_step`, `Machine.depth_of_runFor`: The depth in the midst of a block.
-/

namespace Bitcoin.Machine

variable {m : Machine} {instruction : Instruction} {rest : Program} {frame : Frame}

theorem halted_of_failed {failure : Failure} (h : m.status = .failed failure) :
    m.status ≠ .running := by
  rw [h]
  exact nofun

theorem halted_of_succeeded (h : m.status = .succeeded) : m.status ≠ .running := by
  rw [h]
  exact nofun

/-- The script may end with the instruction. -/
theorem executeNext_of_ok (h : instruction.advance m.rules rest m.frame = .ok () frame) :
    m.executeNext instruction rest =
      if rest.isEmpty then { m with frame }.endScript else { m with frame } := by
  rcases Instruction.advance_eq_ok.mp h with ⟨hexecute, hdepth⟩
  rw [executeNext, hexecute]
  simp only [checkDepth_eq_ok.mpr hdepth]

/-- A failure in the step of an instruction is located at the instruction. -/
theorem executeNext_of_fault {fault : Fault}
    (h : instruction.advance m.rules rest m.frame = .error fault frame) :
    m.executeNext instruction rest =
      { m with frame }.fail ((Failure.of fault).locate m.stage.role instruction.offset) := by
  rw [executeNext]
  rcases hexecute : instruction.execute m.rules { m.frame with next := rest }
    with ⟨_, after⟩ | ⟨fault', after⟩
  · -- The instruction itself succeeds, so the stacks have become too deep.
    rcases hdepth : checkDepth m.rules after with fault' | _
    · have hadvance : instruction.advance m.rules rest m.frame = .error fault' after := by
        refine (Steps.bind_ok rfl).trans ((Steps.bind_ok hexecute).trans ?_)
        change Exec.lift (checkDepth m.rules after) after = _
        rw [hdepth]
        rfl
      cases hadvance.symm.trans h
      simp only [hdepth]
    · rw [Instruction.advance_eq_ok.mpr ⟨hexecute, checkDepth_eq_ok.mp hdepth⟩] at h
      exact absurd h (by simp)
  · have hadvance : instruction.advance m.rules rest m.frame = .error fault' after :=
      (Steps.bind_ok rfl).trans (Steps.bind_error hexecute)
    cases hadvance.symm.trans h
    rfl

-- What comes next in the frame after an instruction is what it has been given.
theorem next_of_advance (h : instruction.advance m.rules rest m.frame = .ok () frame) :
    frame.next = rest :=
  (Instruction.done_of_execute (Instruction.advance_eq_ok.mp h).1).next

theorem step_of_next (hrunning : m.status = .running)
    (hnext : m.frame.next = instruction :: rest) : m.step = m.executeNext instruction rest := by
  rw [step, hrunning, hnext]

theorem step_of_end (hrunning : m.status = .running) (hnext : m.frame.next = []) :
    m.step = m.endScript := by
  rw [step, hrunning, hnext]

/-- The locking script is entered with the stack, which is saved if a redeem script may follow. -/
theorem endScript_unlocking {second : Program} (hblocks : m.frame.blocks = [])
    (hstage : m.stage = .unlocking second) :
    m.endScript = m.enter (.locking (if m.redeems then some m.frame.stack else none))
      m.frame.stack second := by
  rw [endScript, if_neg (not_not.mpr hblocks), hstage]

/-- The redeem script is entered with the rest of the stack that has been saved. -/
theorem endScript_locking {saved : Stack} {loaded : Program × Stack}
    (hblocks : m.frame.blocks = []) (hstage : m.stage = .locking (some saved))
    (hloaded : redeemProgram m.rules m.frame.stack saved = .ok loaded) :
    m.endScript = m.enter .redeem loaded.2 loaded.1 := by
  rw [endScript, if_neg (not_not.mpr hblocks), hstage]
  simp only [hloaded]

/-- Where there is no redeem script, the machine fails. -/
theorem endScript_unloaded {saved : Stack} {failure : Failure} (hblocks : m.frame.blocks = [])
    (hstage : m.stage = .locking (some saved))
    (hloaded : redeemProgram m.rules m.frame.stack saved = .error failure) :
    m.endScript = m.fail failure := by
  rw [endScript, if_neg (not_not.mpr hblocks), hstage]
  simp only [hloaded]

/-- Where no script follows, the stack is judged. -/
theorem endScript_last (hblocks : m.frame.blocks = [])
    (hstage : m.stage = .locking none ∨ m.stage = .redeem) : m.endScript = m.conclude := by
  rw [endScript, if_neg (not_not.mpr hblocks)]
  rcases hstage with hstage | hstage
  · rw [hstage]
  · rw [hstage]

/-- The stage, the stack and the program with which a machine enters the next script. -/
inductive Enters (m : Machine) : Stage → Stack → Program → Prop
  | locking {second : Program} (h : m.stage = .unlocking second) :
      Enters m (.locking (if m.redeems then some m.frame.stack else none)) m.frame.stack second
  | redeem {saved : Stack} {loaded : Program × Stack} (h : m.stage = .locking (some saved))
      (hloaded : redeemProgram m.rules m.frame.stack saved = .ok loaded) :
      Enters m .redeem loaded.2 loaded.1

/-- At the end of a script the machine halts, with all else as it was, or enters the next
    one. -/
theorem endScript_cases (m : Machine) :
    (∃ status, status ≠ .running ∧ m.endScript = { m with status }) ∨
      ∃ stage stack program, m.Enters stage stack program ∧
        m.endScript = m.enter stage stack program := by
  have hfail (failure : Failure) : ∃ status, status ≠ .running ∧
      m.fail failure = { m with status } :=
    ⟨.failed failure, halted_of_failed (m := m.fail failure) rfl, rfl⟩
  have hconclude : ∃ status, status ≠ .running ∧ m.conclude = { m with status } := by
    rw [conclude]
    split
    · exact ⟨.succeeded, halted_of_succeeded (m := { m with status := .succeeded }) rfl, rfl⟩
    · exact hfail _
  -- A block that is open is a failure, whatever the stage.
  by_cases hblocks : m.frame.blocks = []
  · rcases (⟨m.stage, rfl⟩ : ∃ stage, m.stage = stage) with ⟨second | (_ | saved) | _, hstage⟩
    · rw [endScript_unlocking hblocks hstage]
      exact .inr ⟨_, _, _, .locking hstage, rfl⟩
    · rw [endScript_last hblocks (.inl hstage)]
      exact .inl hconclude
    · rcases hloaded : redeemProgram m.rules m.frame.stack saved with failure | loaded
      · rw [endScript_unloaded hblocks hstage hloaded]
        exact .inl (hfail failure)
      · rw [endScript_locking hblocks hstage hloaded]
        exact .inr ⟨_, _, _, .redeem hstage hloaded, rfl⟩
    · rw [endScript_last hblocks (.inr hstage)]
      exact .inl hconclude
  · rw [endScript, if_pos hblocks]
    exact .inl (hfail _)

/-- A step of a machine that runs. -/
theorem step_cases (hrunning : m.status = .running) :
    (m.frame.next = [] ∧ m.step = m.endScript) ∨
      ∃ instruction rest, m.frame.next = instruction :: rest ∧
        ((∃ fault frame, instruction.advance m.rules rest m.frame = .error fault frame ∧
          m.step = { m with frame }.fail
            ((Failure.of fault).locate m.stage.role instruction.offset)) ∨
        ∃ frame, instruction.advance m.rules rest m.frame = .ok () frame ∧
          (rest = [] ∧ m.step = { m with frame }.endScript ∨
            rest ≠ [] ∧ m.step = { m with frame })) := by
  rcases hnext : m.frame.next with _ | ⟨instruction, rest⟩
  · exact .inl ⟨rfl, step_of_end hrunning hnext⟩
  · refine .inr ⟨instruction, rest, rfl, ?_⟩
    rw [step_of_next hrunning hnext]
    -- The instruction succeeds, and was the last one or not, or it fails.
    rcases hadvance : instruction.advance m.rules rest m.frame with ⟨_, frame⟩ | ⟨fault, frame⟩
    · rw [executeNext_of_ok hadvance]
      refine .inr ⟨frame, rfl, ?_⟩
      rcases rest with _ | ⟨following, rest⟩
      · exact .inl ⟨rfl, rfl⟩
      · exact .inr ⟨List.cons_ne_nil _ _, rfl⟩
    · exact .inl ⟨fault, frame, rfl, executeNext_of_fault hadvance⟩

/-- Rules never change. -/
theorem rules_endScript (m : Machine) : m.endScript.rules = m.rules := by
  rcases m.endScript_cases with ⟨status, _, h⟩ | ⟨stage, stack, program, _, h⟩
  · rw [h]
  · rw [h]
    rfl

theorem rules_step (m : Machine) : m.step.rules = m.rules := by
  by_cases hrunning : m.status = .running
  · rcases step_cases hrunning with ⟨_, h⟩ | ⟨instruction, rest, _,
      ⟨fault, frame, _, h⟩ | ⟨frame, _, ⟨_, h⟩ | ⟨_, h⟩⟩⟩
    · rw [h, rules_endScript]
    · rw [h]
      rfl
    · rw [h, rules_endScript]
    · rw [h]
  · have hstep : m.step = m := runFor_of_halted hrunning 1
    rw [hstep]

/-- The rules never change. -/
theorem rules_runFor (count : Nat) (m : Machine) : (runFor count m).rules = m.rules := by
  induction count generalizing m with
  | zero => rfl
  | succ count ih => rw [runFor, ih, rules_step]

/-- A machine that runs after a step has been running before. -/
theorem running_of_step (h : m.step.status = .running) : m.status = .running := by
  refine not_not.mp fun hhalted => ?_
  have hstep : m.step = m := runFor_of_halted hhalted 1
  exact hhalted (hstep ▸ h)

/-- A script is entered without open blocks. -/
theorem blocks_of_endScript (h : m.endScript.status = .running) :
    m.endScript.frame.blocks = [] := by
  rcases m.endScript_cases with ⟨status, hhalted, hend⟩ | ⟨stage, stack, program, _, hend⟩
  · rw [hend] at h
    exact absurd h hhalted
  · rw [hend]
    rfl

/-- Blocks are opened by instructions, and behind each instruction the depth has been
    checked. -/
theorem depth_of_step (hrunning : m.step.status = .running) (hblocks : m.step.frame.blocks ≠ []) :
    m.step.frame.depth ≤ m.rules.limits.stackDepth := by
  rcases step_cases (running_of_step hrunning) with ⟨_, h⟩ | ⟨instruction, rest, _,
    ⟨fault, frame, _, h⟩ | ⟨frame, hadvance, ⟨_, h⟩ | ⟨_, h⟩⟩⟩
  · rw [h] at hrunning hblocks
    exact absurd (blocks_of_endScript hrunning) hblocks
  · rw [h] at hrunning
    cases hrunning
  · rw [h] at hrunning hblocks
    exact absurd (blocks_of_endScript hrunning) hblocks
  · rw [h]
    exact (Instruction.advance_eq_ok.mp hadvance).2

/-- A run goes on from where its first part has led. -/
theorem runFor_add (m : Machine) (count count' : Nat) :
    runFor (count + count') m = runFor count' (runFor count m) := by
  induction count generalizing m with
  | zero => rw [Nat.zero_add, runFor]
  | succ count ih => rw [Nat.succ_add, runFor, ih, runFor]

theorem runFor_succ (count : Nat) (m : Machine) : runFor (count + 1) m = (runFor count m).step :=
  runFor_add m count 1

/-- In the midst of a block the stacks are no deeper than they may be. -/
theorem depth_of_runFor {count : Nat} (hfirst : m.frame.blocks = [])
    (hrunning : (runFor count m).status = .running) (hblocks : (runFor count m).frame.blocks ≠ []) :
    (runFor count m).frame.depth ≤ m.rules.limits.stackDepth := by
  rcases count with _ | count
  · exact absurd hfirst hblocks
  · rw [runFor_succ] at hrunning hblocks ⊢
    rw [← rules_runFor count m]
    exact depth_of_step hrunning hblocks

end Bitcoin.Machine
