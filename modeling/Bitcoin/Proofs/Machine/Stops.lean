import Bitcoin.Proofs.Machine.Step

/-!
# Where a Program Stops

The instructions of a program are executed one in each step. So if the program fails, then at
one of them, which is known by those before it: so many steps have been taken in the script,
and the machine was running after each. The step behind them halts the machine, with a
failure that has the place of the instruction.

This is carried from the instruction that fails back to the front of the program, by one
instruction at a time.

## Main definitions

* `Machine.StopsAt`: A script that is executed up to an instruction that fails.

## Theorems

* `Machine.StopsAt.head`, `Machine.StopsAt.cons`: The instruction that fails, and one in front
  that does not.
* `Machine.stopsAt_of_run`: A program that fails.
* `Machine.StopsAt.finishScript`: The round in which it does.
* `Machine.next_of_run`: A program that does not fail.
-/

namespace Bitcoin.Machine

variable {m : Machine} {role : Role} {before behind rest program : Program}
  {instruction : Instruction} {frame : Frame} {fault : Fault} {failure : Failure}

/-- From the beginning of a script the machine executes its instructions, one in each step, up
    to one at which it halts with a failure. The failure has the place of this instruction. -/
structure StopsAt (m : Machine) (role : Role) (before : Program) (instruction : Instruction)
    (behind : Program) (failure : Failure) : Prop where
  executes : ∀ done ≤ before.length, (runFor done m).status = .running ∧
    (runFor done m).stage.role = role ∧
    (runFor done m).frame.next = (before ++ instruction :: behind).drop done
  halts : (runFor (before.length + 1) m).status = .failed failure
  located : failure.location? = some ⟨role, instruction.offset⟩

/-- An instruction that fails at once. -/
theorem StopsAt.head (hrunning : m.status = .running) (hnext : m.frame.next = instruction :: rest)
    (h : instruction.advance m.rules rest m.frame = .error fault frame) :
    m.StopsAt m.stage.role [] instruction rest
      ((Failure.of fault).locate m.stage.role instruction.offset) := by
  have hstep : runFor 1 m = { m with frame }.fail
      ((Failure.of fault).locate m.stage.role instruction.offset) :=
    (step_of_next hrunning hnext).trans (executeNext_of_fault h)
  refine ⟨fun done hdone => ?_, congrArg status hstep, rfl⟩
  rw [Nat.le_zero.mp hdone]
  exact ⟨hrunning, rfl, hnext⟩

/-- One more instruction in front, which is executed without a failure. -/
theorem StopsAt.cons {first : Instruction} (hrunning : m.status = .running)
    (hrole : m.stage.role = role)
    (hnext : m.frame.next = first :: (before ++ instruction :: behind))
    (h : m.step.StopsAt role before instruction behind failure) :
    m.StopsAt role (first :: before) instruction behind failure := by
  refine ⟨fun done hdone => ?_, h.halts, h.located⟩
  rcases done with _ | done
  · exact ⟨hrunning, hrole, hnext⟩
  · exact h.executes done (Nat.le_of_succ_le_succ hdone)

/-- A program that fails does so at one of its instructions, and the machine with it. -/
theorem stopsAt_of_run (hnext : m.frame.next = program) (hrunning : m.status = .running)
    (h : program.run m.rules m.frame = .error fault frame) :
    ∃ before instruction behind failure, program = before ++ instruction :: behind ∧
      m.StopsAt m.stage.role before instruction behind failure := by
  induction program generalizing m with
  | nil => cases h
  | cons first rest ih =>
      rcases hadvance : first.advance m.rules rest m.frame with ⟨_, between⟩ | ⟨fault', after⟩
      · rw [Program.run, Steps.bind_ok hadvance] at h
        -- There are instructions left, or nothing would have failed.
        have hrest : ¬rest.isEmpty = true := by
          intro hempty
          rw [List.isEmpty_iff.mp hempty] at h
          cases h
        have hstep : m.step = { m with frame := between } := by
          rw [step_of_next hrunning hnext, executeNext_of_ok hadvance, if_neg hrest]
        rcases ih (m := { m with frame := between }) (next_of_advance hadvance) hrunning h with
          ⟨before, instruction, behind, failure, rfl, hstops⟩
        exact ⟨first :: before, instruction, behind, failure, rfl,
          .cons hrunning rfl hnext (hstep ▸ hstops)⟩
      · exact ⟨[], first, rest, _, rfl, .head hrunning hnext hadvance⟩

-- The round is over by then.
theorem StopsAt.finishScript (h : m.StopsAt role before instruction behind failure) :
    m.finishScript.status = .failed failure := by
  have hnext : m.frame.next = before ++ instruction :: behind :=
    (h.executes 0 (Nat.zero_le _)).2.2
  have hsteps : m.scriptSteps = before.length + 1 + behind.length := by
    rw [scriptSteps, hnext, List.length_append, List.length_cons]
    omega
  rw [Machine.finishScript, hsteps, runFor_add, runFor_of_halted (halted_of_failed h.halts),
    h.halts]

theorem next_of_run (hnext : m.frame.next = program)
    (h : program.run m.rules m.frame = .ok () frame) : frame.next = [] := by
  induction program generalizing m with
  | nil =>
      cases h
      exact hnext
  | cons instruction rest ih =>
      rcases Program.run_cons_eq_ok.mp h with ⟨between, hadvance, hrest⟩
      exact ih (m := { m with frame := between }) (next_of_advance hadvance) hrest

end Bitcoin.Machine
