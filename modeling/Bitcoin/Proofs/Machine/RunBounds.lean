import Bitcoin.Proofs.Machine.Bounds
import Bitcoin.Proofs.Machine.Rounds

/-!
# The Limits Hold All Along

Between two steps of a run that has not failed the stacks are no deeper than they may
be, no more operations have been met than may be, and no element is longer than its
bound. The depth is checked after each instruction, the operations are counted as they
are met, and elements cannot grow beyond the bound.

The next script begins on a stack that was there before. Where a redeem script is to
come, that is the stack that was saved behind the unlocking script, so the saved stack
is part of the invariant.

## Main definitions

* `Machine.Bounded`: The invariant.

## Theorems

* `Machine.Bounded.endScript`: From one script to the next.
* `Machine.Bounded.failed_or_step`, `Machine.Bounded.failed_or_runFor`: One step, and many.
* `Machine.runFor_within_limits`: The limits in every state that a run goes through.
-/

namespace Bitcoin.Machine

/-- The frame keeps to the limits of the rules, and so does the stack that has been
    saved. -/
structure Bounded (rules : Rules) (m : Machine) : Prop where
  frame : m.frame.Bounded rules.limits
  saved : ∀ stack, m.stage = .locking (some stack) →
    stack.Short rules.limits.elementBound ∧ stack.length ≤ rules.limits.stackDepth
  rules : m.rules = rules

variable {rules : Rules} {m : Machine}

theorem bounded_start {stack : Stack} (program : Program) (checks : List SignatureCheck)
    (hshort : stack.Short rules.limits.elementBound)
    (hdepth : stack.length ≤ rules.limits.stackDepth) :
    (Frame.start stack program checks).Bounded rules.limits :=
  ⟨⟨hshort, .nil, Nat.zero_le _⟩, hdepth⟩

namespace Bounded

/-- The next script begins on the stack, or on what has been saved but for its top. -/
theorem endScript (h : m.Bounded rules) : m.endScript.Bounded rules := by
  rcases m.endScript_cases with ⟨status, _, hend⟩ | ⟨stage, stack, program, henters, hend⟩
  · rw [hend]
    exact ⟨h.frame, h.saved, h.rules⟩
  · rw [hend]
    cases henters with
    -- The stack is taken over and saved, where a redeem script may follow.
    | locking _ =>
        have hdepth : m.frame.stack.length ≤ rules.limits.stackDepth :=
          Nat.le_trans (Nat.le_add_right _ _) h.frame.depth
        refine ⟨bounded_start _ _ h.frame.stack hdepth, fun stack hsaved => ?_, h.rules⟩
        by_cases hredeems : m.redeems = true
        · rw [if_pos hredeems] at hsaved
          cases hsaved
          exact ⟨h.frame.stack, hdepth⟩
        · rw [if_neg hredeems] at hsaved
          cases hsaved
    -- The stack is the one that has been saved, without its top.
    | @redeem saved loaded hstage hloaded =>
        rcases (redeemProgram_eq_ok.mp hloaded).2 with ⟨script, rfl, -, -⟩
        rcases h.saved _ hstage with ⟨hshort, hlength⟩
        have hrest := hshort.of_subset (List.subset_cons_self script loaded.2)
        refine ⟨bounded_start _ _ hrest (Nat.le_trans (Nat.le_succ _) hlength), ?_, h.rules⟩
        intro stack hsaved
        cases hsaved

/-- A step that does not fail keeps the limits. -/
theorem failed_or_step (hword : rules.limits.stackDepth < 2 ^ 64) (h : m.Bounded rules) :
    (∃ failure, m.step.status = .failed failure) ∨ m.step.Bounded rules := by
  by_cases hrunning : m.status = .running
  · rcases step_cases hrunning with ⟨_, hstep⟩ | ⟨instruction, rest, _,
      ⟨fault, frame, _, hstep⟩ | ⟨frame, hadvance, hgoes⟩⟩
    · rw [hstep]
      exact .inr h.endScript
    · rw [hstep]
      exact .inl ⟨_, rfl⟩
    · -- An instruction that succeeds has kept all bounds, and the end of a script keeps them.
      have hframe : frame.Bounded rules.limits := by
        rw [h.rules] at hadvance
        exact instruction.bounded_advance rest hword _ _ _ h.frame hadvance
      have hafter : Bounded rules { m with frame } := ⟨hframe, h.saved, h.rules⟩
      right
      rcases hgoes with ⟨_, hstep⟩ | ⟨_, hstep⟩
      · rw [hstep]
        exact hafter.endScript
      · rw [hstep]
        exact hafter
  · have hstep : m.step = m := runFor_of_halted hrunning 1
    rw [hstep]
    exact .inr h

/-- So do any number of steps. -/
theorem failed_or_runFor (hword : rules.limits.stackDepth < 2 ^ 64) (h : m.Bounded rules)
    (count : Nat) :
    (∃ failure, (runFor count m).status = .failed failure) ∨ (runFor count m).Bounded rules := by
  induction count generalizing m with
  | zero => exact .inr h
  | succ count ih =>
      rw [runFor]
      rcases h.failed_or_step hword with ⟨failure, hfailed⟩ | hstep
      · rw [runFor_of_halted (halted_of_failed hfailed)]
        exact .inl ⟨failure, hfailed⟩
      · exact ih hstep

end Bounded

/-- In every state that a run goes through without having failed, the two stacks together
    are no deeper than they may be, no more operations have been met than may be, and
    the elements of both stacks keep to one bound. -/
theorem runFor_within_limits {unlocking locking : Script}
    (hword : rules.limits.stackDepth < 2 ^ 64) (hstart : start rules unlocking locking = .ok m)
    (count : Nat)
    (h : (runFor count m).status = .running ∨ (runFor count m).status = .succeeded) :
    let frame := (runFor count m).frame
    frame.stack.length + frame.alt.length ≤ rules.limits.stackDepth ∧
      frame.operations ≤ rules.limits.operations ∧
      ∀ element ∈ frame.stack ++ frame.alt, element.length ≤
        max (max rules.limits.elementSize (rules.limits.numberLength + 1)) 32 := by
  -- A run begins with empty stacks and no operation.
  have hbegins : m.Bounded rules := by
    rcases (start_eq_ok.mp hstart).2.2.2.2.2 with ⟨first, -, second, -, rfl⟩
    refine ⟨bounded_start first [] .nil (Nat.zero_le _), ?_, rfl⟩
    intro stack hsaved
    cases hsaved
  rcases hbegins.failed_or_runFor hword count with ⟨failure, hfailed⟩ | hbounded
  · rw [hfailed] at h
    rcases h with hrunning | hsucceeded
    · cases hrunning
    · cases hsucceeded
  · refine ⟨hbounded.frame.depth, hbounded.frame.operations, fun element hmem => ?_⟩
    rcases List.mem_append.mp hmem with hstack | halt
    · exact hbounded.frame.stack element hstack
    · exact hbounded.frame.alt element halt

/-- A run with narrow limits, at the last instruction of a redeem script. -/
theorem runFor_within_limits_redeem :
    let rules : Rules := { flags := ⟨1⟩, limits := { operations := 2, stackDepth := 3 } }
    let unlocking : Script := ⟨[0x51, 0x02, 0x51, 0x87]⟩
    let locking := Script.p2sh (Hash.hash160 [0x51, 0x87])
    ∃ m, start rules unlocking locking = .ok m ∧ (runFor 6 m).stage = .redeem ∧
      (runFor 6 m).status = .running ∧
      (runFor 6 m).frame.stack.length + (runFor 6 m).frame.alt.length ≤ 3 ∧
      (runFor 6 m).frame.operations ≤ 2 ∧
      ∀ element ∈ (runFor 6 m).frame.stack ++ (runFor 6 m).frame.alt, element.length ≤ 520 := by
  intro rules unlocking locking
  -- After six steps the machine is in the redeem script.
  have hrun : (start rules unlocking locking).toOption.map (fun m =>
      ((runFor 6 m).stage, (runFor 6 m).status)) = some (.redeem, .running) := by
    decide +kernel
  rcases hstart : start rules unlocking locking with failure | m
  · rw [hstart] at hrun
    cases hrun
  · rw [hstart] at hrun
    rcases Prod.mk.inj (Option.some.inj hrun) with ⟨hstage, hrunning⟩
    rcases runFor_within_limits (by decide) hstart 6 (.inl hrunning) with
      ⟨hdepth, hoperations, helements⟩
    exact ⟨m, rfl, hstage, hrunning, hdepth, hoperations, helements⟩

end Bitcoin.Machine
