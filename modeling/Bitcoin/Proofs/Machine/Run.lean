import Bitcoin.Machine.Run
import Bitcoin.Proofs.Result

/-!
# What Runs Go Through

The checks around a run are taken apart here: what is known of a machine that has
been started, of a stack that has passed the judgement, and of a redeem script
that has been loaded. A machine that has halted stays as it is through any number
of steps.

## Theorems

* `Machine.start_eq_ok`: What a start has checked, and the machine it gives.
* `Machine.judge_eq_ok`: What a judgement has checked.
* `Machine.redeemProgram_eq_ok`: What the loading of a redeem script has checked.
* `Machine.runFor_of_halted`: A halted machine stays as it is.
-/

namespace Bitcoin

namespace Machine

variable {rules : Rules}

theorem checkSize_eq_ok {role : Role} {script : Script} :
    checkSize rules role script = .ok () ↔ script.length ≤ rules.limits.scriptSize := by
  refine Result.refuse_eq_ok.trans ⟨fun h => by omega, fun h => ⟨by omega, rfl⟩⟩

theorem checkDepth_eq_ok {frame : Frame} :
    checkDepth rules frame = .ok () ↔ frame.depth ≤ rules.limits.stackDepth := by
  refine Result.refuse_eq_ok.trans ⟨fun h => by omega, fun h => ⟨by omega, rfl⟩⟩

/-- What a start has checked, and the machine it gives. -/
theorem start_eq_ok {unlocking locking : Script} {m : Machine} :
    start rules unlocking locking = .ok m ↔
      ¬(rules.has .cleanStack = true ∧ ¬rules.has .p2sh = true) ∧
      unlocking.length ≤ rules.limits.scriptSize ∧ locking.length ≤ rules.limits.scriptSize ∧
      ¬(rules.has .unlockingPushOnly = true ∧ ¬unlocking.isPushOnly = true) ∧
      ¬((rules.has .p2sh && locking.isP2SH) = true ∧ ¬unlocking.isPushOnly = true) ∧
      ∃ first, Program.parse .unlocking unlocking = .ok first ∧
        ∃ second, Program.parse .locking locking = .ok second ∧
        { rules, redeems := rules.has .p2sh && locking.isP2SH, stage := .unlocking second,
          frame := .start [] first [] } = m := by
  rw [start]
  -- One check of the start after the other, in their order.
  refine Result.guard_eq_ok.trans (and_congr_right fun _ => ?_)
  refine Result.check_eq_ok.trans (and_congr checkSize_eq_ok ?_)
  refine Result.check_eq_ok.trans (and_congr checkSize_eq_ok ?_)
  refine Result.guard_eq_ok.trans (and_congr_right fun _ => ?_)
  refine Result.guard_eq_ok.trans (and_congr_right fun _ => ?_)
  refine Result.bind_eq_ok.trans (exists_congr fun first => and_congr_right fun _ => ?_)
  refine Result.bind_eq_ok.trans (exists_congr fun second => and_congr_right fun _ => ?_)
  exact ⟨Except.ok.inj, congrArg Except.ok⟩

/-- What a judgement has checked. -/
theorem judge_eq_ok {stack : Stack} :
    judge rules stack = .ok () ↔ requireTrue stack = .ok () ∧
      ¬(rules.has .cleanStack = true ∧ stack.length ≠ 1) := by
  rw [judge]
  refine Result.check_eq_ok.trans (and_congr_right fun _ => ?_)
  exact Result.refuse_eq_ok.trans (and_iff_left rfl)

/-- What the loading of a redeem script has checked. -/
theorem redeemProgram_eq_ok {stack saved : Stack} {loaded : Program × Stack} :
    redeemProgram rules stack saved = .ok loaded ↔ requireTrue stack = .ok () ∧
      ∃ script, saved = script :: loaded.2 ∧ script.length ≤ rules.limits.scriptSize ∧
        Program.parse .redeem ⟨script⟩ = .ok loaded.1 := by
  rw [redeemProgram.eq_def]
  refine Result.check_eq_ok.trans (and_congr ?_ ?_)
  · rcases requireTrue stack with fault | _
    · exact ⟨nofun, nofun⟩
    · exact ⟨fun _ => rfl, fun _ => rfl⟩
  · -- The script is the top of what has been saved.
    rcases saved with _ | ⟨script, rest⟩
    · exact ⟨nofun, nofun⟩
    · refine Result.check_eq_ok.trans ?_
      rw [Result.bind_eq_ok, checkSize_eq_ok]
      constructor
      · rintro ⟨hsize, program, hparse, hloaded⟩
        cases hloaded
        exact ⟨script, rfl, hsize, hparse⟩
      · rintro ⟨_, hsaved, hsize, hparse⟩
        cases hsaved
        exact ⟨hsize, loaded.1, hparse, rfl⟩

/-- A halted machine stays as it is. -/
theorem runFor_of_halted {m : Machine} (h : m.status ≠ .running) (count : Nat) :
    runFor count m = m := by
  have hstep : m.step = m := by
    rw [step]
    rcases hstatus : m.status with _ | _ | failure
    · exact absurd hstatus h
    · rfl
    · rfl
  induction count with
  | zero => rfl
  | succ count ih => rw [runFor, hstep, ih]

end Machine

end Bitcoin
