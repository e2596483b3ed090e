import Bitcoin.Proofs.Machine.Stops
import Mathlib.Data.Nat.Find

/-!
# The Machine Evaluates Scripts One After the Other

The machine checks at the end of a script that no block is open, moves on to the
next script, judges the last stack, and does all this in the step of an instruction
or, in an empty script, in a step of its own. None of this matters to what comes of
a run: it is what comes of evaluating the scripts one after the other, each from
nothing but the stack that the one before has left.

A script is a round of steps. If its program evaluates, then the machine stands at
the beginning of the next script when the round is over, and if not, then it has
failed by then. Three rounds make up a run, and so each way in which scripts may
fail to evaluate is met in one of them.

## Main definitions

* `Stack.EndsTrue`: A true element on top.
* `Machine.LeavesOpen`: A script that ends inside a block.
* `Machine.Begins`: A machine at the first instruction of a script.
* `Machine.Evaluates`: The stack that two scripts leave, and the script behind them.

## Theorems

* `Machine.runFor_of_run`, `Machine.Begins.fails`: A round of a program.
* `Machine.Begins.finish_unlocking`, `Machine.Begins.finish_locking`,
  `Machine.Begins.finish_last`: Where the machine stands after a round.
* `Machine.run_succeeded_iff`, `Machine.execute_eq_success`: Runs succeed where scripts
  evaluate.
* `Machine.frame_of_step`: What one script leaves to the next.
* `Machine.run_succeeds_iff_evaluates`: The machine halts, succeeds where scripts evaluate
  and carries nothing else from one to the other.
-/

namespace Bitcoin

/-- A stack with a true element on top. -/
def Stack.EndsTrue (stack : Stack) : Prop :=
  ∃ top rest, stack = top :: rest ∧ Element.isTrue top = true

namespace Machine

variable {m : Machine} {instruction : Instruction} {rest : Program} {frame : Frame}

/-- A program that runs to its end takes as many steps as it has instructions, and with
    the last of them the machine moves on. -/
theorem runFor_of_run {program : Program} (hprogram : program ≠ [])
    (hnext : m.frame.next = program) (hrunning : m.status = .running)
    (h : program.run m.rules m.frame = .ok () frame) :
    runFor program.length m = { m with frame }.endScript := by
  induction program generalizing m with
  | nil => exact absurd rfl hprogram
  | cons instruction rest ih =>
      rcases Program.run_cons_eq_ok.mp h with ⟨between, hadvance, hrest⟩
      rw [List.length_cons, runFor, step_of_next hrunning hnext, executeNext_of_ok hadvance]
      -- Whether this was the last instruction decides what the step does besides.
      rcases rest with _ | ⟨following, rest⟩
      · cases hrest
        rfl
      · exact ih (m := { m with frame := between }) (List.cons_ne_nil _ _)
          (next_of_advance hadvance) hrunning hrest

-- The machine at the end of a script that runs to its end.
theorem finishScript_of_run (hrunning : m.status = .running)
    (h : m.frame.next.run m.rules m.frame = .ok () frame) :
    m.finishScript = { m with frame }.endScript := by
  rw [finishScript, scriptSteps]
  rcases hnext : m.frame.next with _ | ⟨instruction, rest⟩
  · -- An empty script takes a step as well, which does nothing but end it.
    rw [hnext] at h
    cases h
    exact step_of_end hrunning hnext
  · rw [hnext] at h
    rw [List.length_cons, Nat.max_eq_right (by omega), ← List.length_cons]
    exact runFor_of_run (List.cons_ne_nil _ _) hnext hrunning h

/-- The machine has halted at the end of a script, inside a block. -/
structure LeavesOpen (m : Machine) (failure : Failure) : Prop where
  failure : failure = .of (.openBlock m.stage.role)
  next : m.frame.next = []
  blocks : m.frame.blocks ≠ []

/-- A machine at the first instruction of a program, with nothing left over from the
    scripts before but the stack. -/
structure Begins (m : Machine) (rules : Rules) (stage : Stage) (stack : Stack)
    (program : Program) : Prop where
  rules : m.rules = rules
  running : m.status = .running
  stage : m.stage = stage
  frame : ∃ checks, m.frame = .start stack program checks

section
variable {rules : Rules} {stage : Stage} {stack saved last : Stack} {program second : Program}

-- A program that evaluates takes the machine to the end of its script.
theorem Begins.finishScript_eq (h : Begins m rules stage stack program)
    (heval : program.eval? rules stack = some last) :
    ∃ frame, frame.blocks = [] ∧ frame.stack = last ∧
      m.finishScript = { m with frame }.endScript := by
  rcases h.frame with ⟨checks, hframe⟩
  rcases (Program.eval?_eq_some checks).mp heval with ⟨frame, hrun, hblocks, hstack⟩
  refine ⟨frame, hblocks, hstack, finishScript_of_run h.running ?_⟩
  rw [hframe, h.rules]
  exact hrun

/-- A script that cannot be evaluated fails at an instruction, or ends inside a block. -/
theorem Begins.fails (h : Begins m rules stage stack program)
    (heval : program.eval? rules stack = none) :
    ∃ failure, m.finishScript.status = .failed failure ∧
      ((∃ before instruction behind, program = before ++ instruction :: behind ∧
          m.StopsAt stage.role before instruction behind failure) ∨
        m.finishScript.LeavesOpen failure) := by
  rcases h.frame with ⟨checks, hframe⟩
  have hnext : m.frame.next = program := by
    rw [hframe]
    rfl
  rcases hrun : program.run m.rules m.frame with ⟨_, frame⟩ | ⟨fault, frame⟩
  · -- The instructions succeed, so it is an open block that makes the script fail.
    have hopen : frame.blocks ≠ [] := by
      intro hblocks
      rw [hframe, h.rules] at hrun
      cases heval.symm.trans ((Program.eval?_eq_some checks).mpr ⟨frame, hrun, hblocks, rfl⟩)
    have hfinish : m.finishScript = { m with frame }.fail (.of (.openBlock m.stage.role)) := by
      rw [finishScript_of_run h.running (hnext ▸ hrun), endScript, if_pos hopen]
    refine ⟨.of (.openBlock m.stage.role), ?_, .inr ?_⟩
    · rw [hfinish]
      rfl
    · rw [hfinish]
      exact ⟨rfl, next_of_run hnext hrun, hopen⟩
  · rcases stopsAt_of_run hnext h.running hrun with
      ⟨before, instruction, behind, failure, hprogram, hstops⟩
    rw [h.stage] at hstops
    exact ⟨failure, hstops.finishScript, .inl ⟨before, instruction, behind, hprogram, hstops⟩⟩

/-- A program that leaves no stack makes the machine fail. -/
theorem Begins.failed (h : Begins m rules stage stack program)
    (heval : program.eval? rules stack = none) :
    ∃ failure, m.finishScript.status = .failed failure := by
  rcases h.fails heval with ⟨failure, hfailed, _⟩
  exact ⟨failure, hfailed⟩

/-- After the unlocking script comes the locking script. -/
theorem Begins.finish_unlocking (h : Begins m rules (.unlocking second) stack program)
    (heval : program.eval? rules stack = some last) :
    Begins m.finishScript rules (.locking (if m.redeems then some last else none)) last second := by
  rcases h.finishScript_eq heval with ⟨frame, hblocks, rfl, hfinish⟩
  rw [hfinish, endScript_unlocking (m := { m with frame }) hblocks h.stage]
  exact ⟨h.rules, h.running, rfl, frame.checks, rfl⟩

/-- After the locking script comes the redeem script, where there is one. -/
theorem Begins.finish_locking {loaded : Program × Stack}
    (h : Begins m rules (.locking (some saved)) stack program)
    (heval : program.eval? rules stack = some last)
    (hloaded : redeemProgram rules last saved = .ok loaded) :
    Begins m.finishScript rules .redeem loaded.2 loaded.1 := by
  rcases h.finishScript_eq heval with ⟨frame, hblocks, rfl, hfinish⟩
  rw [← h.rules] at hloaded
  rw [hfinish, endScript_locking (m := { m with frame }) hblocks h.stage hloaded]
  exact ⟨h.rules, h.running, rfl, frame.checks, rfl⟩

theorem Begins.failed_locking {failure : Failure}
    (h : Begins m rules (.locking (some saved)) stack program)
    (heval : program.eval? rules stack = some last)
    (hloaded : redeemProgram rules last saved = .error failure) :
    m.finishScript.status = .failed failure := by
  rcases h.finishScript_eq heval with ⟨frame, hblocks, rfl, hfinish⟩
  rw [← h.rules] at hloaded
  rw [hfinish, endScript_unloaded (m := { m with frame }) hblocks h.stage hloaded]
  rfl

/-- After the last script the machine halts with the judgement of its stack. -/
theorem Begins.finish_last (h : Begins m rules stage stack program)
    (hstage : stage = .locking none ∨ stage = .redeem)
    (heval : program.eval? rules stack = some last) :
    m.finishScript.frame.stack = last ∧ m.finishScript.status =
      match judge rules last with
      | .ok _ => .succeeded
      | .error fault => .failed (.of fault) := by
  rcases h.finishScript_eq heval with ⟨frame, hblocks, rfl, hfinish⟩
  rw [hfinish, endScript_last hblocks (h.stage ▸ hstage), conclude, h.rules]
  rcases judge rules frame.stack with fault | _
  · exact ⟨rfl, rfl⟩
  · exact ⟨rfl, rfl⟩

end

/-- The last element is asked for where there is one. -/
theorem requireTrue_eq_ok {stack : Stack} : requireTrue stack = .ok () ↔ stack.EndsTrue := by
  rw [requireTrue.eq_def]
  rcases stack with _ | ⟨top, rest⟩
  · exact ⟨nofun, fun ⟨_, _, hstack, _⟩ => absurd hstack (by simp)⟩
  · by_cases htrue : Element.isTrue top = true
    · simp only [if_pos htrue]
      exact ⟨fun _ => ⟨top, rest, rfl, htrue⟩, fun _ => rfl⟩
    · simp only [if_neg htrue]
      refine ⟨nofun, ?_⟩
      rintro ⟨_, _, hstack, htop⟩
      cases hstack
      exact absurd htop htrue

/-- Under clean stack it must be the only one. -/
theorem judge_eq_ok_iff {rules : Rules} {stack : Stack} : judge rules stack = .ok () ↔
    stack.EndsTrue ∧ (rules.has .cleanStack = true → stack.length = 1) := by
  rw [judge_eq_ok, requireTrue_eq_ok, not_and, not_not]

/-- The last script either fails, or leaves a stack that passes the judgement. -/
theorem Begins.failed_or_ends {rules : Rules} {stage : Stage} {stack : Stack} {program : Program}
    (h : Begins m rules stage stack program) (hstage : stage = .locking none ∨ stage = .redeem) :
    (∃ failure, m.finishScript.status = .failed failure) ∨
      ∃ last, program.eval? rules stack = some last ∧ last.EndsTrue ∧
        (rules.has .cleanStack = true → last.length = 1) := by
  rcases heval : program.eval? rules stack with _ | last
  · exact .inl (h.failed heval)
  · have hfinish := (h.finish_last hstage heval).2
    rcases hjudge : judge rules last with fault | _
    · rw [hjudge] at hfinish
      exact .inl ⟨.of fault, hfinish⟩
    · exact .inr ⟨last, rfl, judge_eq_ok_iff.mp hjudge⟩

/-- The stack that two scripts leave when they are evaluated one after the other, the second
    one on the stack of the first. Where the second one pays to the hash of a script, that
    script is the top element after the first one, and it is evaluated on what is below
    it. Each script that may be the last one leaves a true element. -/
structure Evaluates (rules : Rules) (unlocking locking : Script) (last : Stack) : Prop where
  scripts : ∃ first second, unlocking.eval? rules .unlocking [] = some first ∧
    locking.eval? rules .locking first = some second ∧ second.EndsTrue ∧
    if rules.has .p2sh = true ∧ locking.isP2SH = true then
      ∃ redeem rest, first = redeem :: rest ∧ redeem.length ≤ rules.limits.scriptSize ∧
        Script.eval? rules .redeem ⟨redeem⟩ rest = some last
    else second = last
  endsTrue : last.EndsTrue
  clean : rules.has .cleanStack = true → last.length = 1

theorem finishScript_of_halted (h : m.status ≠ .running) : m.finishScript = m :=
  runFor_of_halted h _

section
variable {rules : Rules} {unlocking locking : Script} {last : Stack}

-- A run begins with the unlocking script on an empty stack.
theorem begins_of_start (h : start rules unlocking locking = .ok m) :
    ∃ first second, Program.parse .unlocking unlocking = .ok first ∧
      Program.parse .locking locking = .ok second ∧
      Begins m rules (.unlocking second) [] first ∧
      (m.redeems = true ↔ rules.has .p2sh = true ∧ locking.isP2SH = true) := by
  rcases (start_eq_ok.mp h).2.2.2.2.2 with ⟨first, hfirst, second, hsecond, rfl⟩
  exact ⟨first, second, hfirst, hsecond, ⟨rfl, rfl, rfl, [], rfl⟩, Bool.and_eq_true_iff⟩

/-- The redeem script is what the unlocking script has left on top, and it begins on what
    was left below. -/
theorem begins_redeem (hstart : start rules unlocking locking = .ok m)
    (hp2sh : rules.has .p2sh = true ∧ locking.isP2SH = true)
    (h : Evaluates rules unlocking locking last) :
    ∃ redeem rest program, m.finishScript.frame.stack = redeem :: rest ∧
      redeem.length ≤ rules.limits.scriptSize ∧ Program.parse .redeem ⟨redeem⟩ = .ok program ∧
      Begins m.finishScript.finishScript rules .redeem rest program ∧
      program.eval? rules rest = some last := by
  rcases begins_of_start hstart with ⟨first, second, hfirst, hsecond, hbegins, hredeems⟩
  rcases h.scripts with ⟨stack, stack', hunlocking, hlocking, htrue, hlast⟩
  rw [Script.eval?_of_parse hfirst] at hunlocking
  rw [Script.eval?_of_parse hsecond] at hlocking
  rw [if_pos hp2sh] at hlast
  rcases hlast with ⟨redeem, rest, rfl, hsize, hredeem⟩
  rcases Script.eval?_eq_some.mp hredeem with ⟨third, hthird, heval⟩
  have hbegins' := hbegins.finish_unlocking hunlocking
  rw [if_pos (hredeems.mpr hp2sh)] at hbegins'
  -- The stack that the unlocking script has left has been saved, and the locking script has said
  -- yes.
  have hloaded : redeemProgram rules stack' (redeem :: rest) = .ok (third, rest) :=
    redeemProgram_eq_ok.mpr ⟨requireTrue_eq_ok.mpr htrue, redeem, rfl, hsize, hthird⟩
  have hstack : m.finishScript.frame.stack = redeem :: rest := by
    rcases hbegins'.frame with ⟨checks, hframe⟩
    rw [hframe]
    rfl
  exact ⟨redeem, rest, third, hstack, hsize, hthird, hbegins'.finish_locking hlocking hloaded,
    heval⟩

/-- A run of scripts that evaluate succeeds, with the stack that they leave. -/
theorem run_of_evaluates (hstart : start rules unlocking locking = .ok m)
    (h : Evaluates rules unlocking locking last) :
    m.run.status = .succeeded ∧ m.run.frame.stack = last := by
  have hjudge := judge_eq_ok_iff.mpr ⟨h.endsTrue, h.clean⟩
  rw [run]
  by_cases hp2sh : rules.has .p2sh = true ∧ locking.isP2SH = true
  · rcases begins_redeem hstart hp2sh h with ⟨redeem, rest, third, _, _, _, hbegins, heval⟩
    have hfinish := hbegins.finish_last (.inr rfl) heval
    rw [hjudge] at hfinish
    exact ⟨hfinish.2, hfinish.1⟩
  · rcases begins_of_start hstart with ⟨first, second, hfirst, hsecond, hbegins, hredeems⟩
    rcases h.scripts with ⟨stack, stack', hunlocking, hlocking, _, hlast⟩
    rw [Script.eval?_of_parse hfirst] at hunlocking
    rw [Script.eval?_of_parse hsecond] at hlocking
    have hbegins' := hbegins.finish_unlocking hunlocking
    rw [if_neg hp2sh] at hlast
    rw [if_neg (mt hredeems.mp hp2sh)] at hbegins'
    have hfinish := hbegins'.finish_last (.inl rfl) hlocking
    rw [hlast, hjudge] at hfinish
    -- The third round finds a machine that has halted.
    rw [finishScript_of_halted (halted_of_succeeded hfinish.2)]
    exact ⟨hfinish.2, hfinish.1⟩

-- What has failed by the end of a round stays so through the rounds behind it.
theorem run_of_failed {failure : Failure}
    (h : m.finishScript.status = .failed failure ∨
      m.finishScript.finishScript.status = .failed failure) : m.run.status = .failed failure := by
  rw [run]
  rcases h with h | h
  · have hhalted := finishScript_of_halted (halted_of_failed h)
    rw [hhalted, hhalted, h]
  · rw [finishScript_of_halted (halted_of_failed h), h]

/-- A run of scripts that do not evaluate fails. Whatever keeps them from being evaluated
    is met by the machine too, in the same script. -/
theorem run_of_not_evaluates (hstart : start rules unlocking locking = .ok m)
    (h : ¬∃ last, Evaluates rules unlocking locking last) :
    ∃ failure, m.run.status = .failed failure := by
  rcases begins_of_start hstart with ⟨first, second, hfirst, hsecond, hbegins, hredeems⟩
  -- Script by script: either it fails, or the machine goes on to the next one.
  rcases heval : first.eval? rules [] with _ | stack
  · rcases hbegins.failed heval with ⟨failure, hfailed⟩
    exact ⟨failure, run_of_failed (.inl hfailed)⟩
  have hunlocking := (Script.eval?_of_parse hfirst).trans heval
  have hbegins' := hbegins.finish_unlocking heval
  by_cases hp2sh : rules.has .p2sh = true ∧ locking.isP2SH = true
  · rw [if_pos (hredeems.mpr hp2sh)] at hbegins'
    rcases heval' : second.eval? rules stack with _ | stack'
    · rcases hbegins'.failed heval' with ⟨failure, hfailed⟩
      exact ⟨failure, run_of_failed (.inr hfailed)⟩
    have hlocking := (Script.eval?_of_parse hsecond).trans heval'
    rcases hloaded : redeemProgram rules stack' stack with failure | ⟨third, rest⟩
    · exact ⟨failure, run_of_failed (.inr (hbegins'.failed_locking heval' hloaded))⟩
    rcases redeemProgram_eq_ok.mp hloaded with ⟨htrue, redeem, rfl, hsize, hthird⟩
    rcases (hbegins'.finish_locking heval' hloaded).failed_or_ends (.inr rfl) with
      hfailed | ⟨last, heval'', hends, hclean⟩
    · exact hfailed
    · -- Everything is as the evaluation wants it.
      refine absurd ⟨last, ⟨_, stack', hunlocking, hlocking, requireTrue_eq_ok.mp htrue, ?_⟩, hends,
        hclean⟩ h
      rw [if_pos hp2sh]
      exact ⟨redeem, rest, rfl, hsize, (Script.eval?_of_parse hthird).trans heval''⟩
  · rw [if_neg (mt hredeems.mp hp2sh)] at hbegins'
    rcases hbegins'.failed_or_ends (.inl rfl) with
      ⟨failure, hfailed⟩ | ⟨last, heval', hends, hclean⟩
    · exact ⟨failure, run_of_failed (.inr hfailed)⟩
    · have hlocking := (Script.eval?_of_parse hsecond).trans heval'
      refine absurd ⟨last, ⟨stack, last, hunlocking, hlocking, hends, ?_⟩, hends, hclean⟩ h
      rw [if_neg hp2sh]

/-- A run is long enough for all of its scripts. -/
theorem run_halts (hstart : start rules unlocking locking = .ok m) :
    m.run.status ≠ .running := by
  by_cases h : ∃ last, Evaluates rules unlocking locking last
  · rcases h with ⟨last, hevaluates⟩
    exact halted_of_succeeded (run_of_evaluates hstart hevaluates).1
  · rcases run_of_not_evaluates hstart h with ⟨failure, hfailed⟩
    exact halted_of_failed hfailed

/-- It succeeds for the scripts that are evaluated. -/
theorem run_succeeded_iff (hstart : start rules unlocking locking = .ok m) :
    m.run.status = .succeeded ↔ ∃ last, Evaluates rules unlocking locking last := by
  constructor
  · intro hsucceeded
    by_contra hnone
    rcases run_of_not_evaluates hstart hnone with ⟨failure, hfailed⟩
    rw [hsucceeded] at hfailed
    exact nomatch hfailed
  · rintro ⟨last, hevaluates⟩
    exact (run_of_evaluates hstart hevaluates).1

/-- A machine that has halted gives its status as the verdict. -/
theorem verdict_eq_success (hhalted : m.status ≠ .running) :
    m.verdict = .success ↔ m.status = .succeeded := by
  rw [verdict]
  rcases hstatus : m.status with _ | _ | failure
  · exact absurd hstatus hhalted
  · exact ⟨fun _ => rfl, fun _ => rfl⟩
  · exact ⟨nofun, nofun⟩

/-- Scripts succeed if they can be started and evaluate. -/
theorem execute_eq_success : execute rules unlocking locking = .success ↔
    ∃ m, start rules unlocking locking = .ok m ∧
      ∃ last, Evaluates rules unlocking locking last := by
  rw [execute]
  rcases hstart : start rules unlocking locking with failure | m
  · refine ⟨nofun, ?_⟩
    rintro ⟨m, hm, _⟩
    exact nomatch hm
  · refine (verdict_eq_success (run_halts hstart)).trans ((run_succeeded_iff hstart).trans ?_)
    exact ⟨fun h => ⟨m, rfl, h⟩, fun ⟨_, _, h⟩ => h⟩

end

-- The three rounds are so many steps.
theorem exists_run_eq (m : Machine) : ∃ count, m.run = runFor count m := by
  refine ⟨m.scriptSteps + m.finishScript.scriptSteps +
    m.finishScript.finishScript.scriptSteps, ?_⟩
  rw [runFor_add, runFor_add]
  rfl

/-- The first step after which the machine has halted is the last one that changes it. -/
theorem exists_first_halt {rules : Rules} {unlocking locking : Script}
    (hstart : start rules unlocking locking = .ok m) :
    ∃ count, (∀ earlier < count, (runFor earlier m).status = .running) ∧
      (runFor count m).status ≠ .running ∧ runFor count m = m.run := by
  have hhalts := run_halts hstart
  rcases exists_run_eq m with ⟨total, htotal⟩
  have hsome : ∃ count, (runFor count m).status ≠ .running := ⟨total, htotal ▸ hhalts⟩
  have hfirst := Nat.find_spec hsome
  refine ⟨Nat.find hsome, fun earlier hearlier => ?_, hfirst, ?_⟩
  · exact not_not.mp (Nat.find_min hsome hearlier)
  · have hle : Nat.find hsome ≤ total := Nat.find_min' hsome (htotal ▸ hhalts)
    have hsplit : total = Nat.find hsome + (total - Nat.find hsome) := by omega
    rw [htotal, hsplit, runFor_add, runFor_of_halted hfirst]

/-- Where a script ends and another one begins, the machine carries over nothing but the
    main stack and the record of questions. -/
theorem frame_of_endScript (h : m.endScript.stage ≠ m.stage) :
    ∃ stack program checks, m.endScript.frame = .start stack program checks := by
  rcases m.endScript_cases with ⟨status, _, hend⟩ | ⟨stage, stack, program, _, hend⟩
  · rw [hend] at h
    exact absurd rfl h
  · rw [hend]
    exact ⟨stack, program, _, rfl⟩

/-- A step that changes the stage enters a script with a new frame. -/
theorem frame_of_step (h : m.step.stage ≠ m.stage) :
    ∃ stack program checks, m.step.frame = .start stack program checks := by
  by_cases hrunning : m.status = .running
  · -- An instruction does not change the stage, unless it was the last one.
    rcases step_cases hrunning with ⟨_, hstep⟩ | ⟨instruction, rest, _,
      ⟨fault, frame, _, hstep⟩ | ⟨frame, _, ⟨_, hstep⟩ | ⟨_, hstep⟩⟩⟩
    · rw [hstep] at h ⊢
      exact frame_of_endScript h
    · rw [hstep] at h
      exact absurd rfl h
    · rw [hstep] at h ⊢
      exact frame_of_endScript h
    · rw [hstep] at h
      exact absurd rfl h
  · have hstep : m.step = m := runFor_of_halted hrunning 1
    rw [hstep] at h
    exact absurd rfl h

/-- A machine that has been started halts, and it succeeds exactly if the scripts evaluate
    one after the other. Where it goes on from one script to the next, it leaves
    behind the alt stack, the open blocks, the operation count and the code separator of
    the first. -/
theorem run_succeeds_iff_evaluates {rules : Rules} {unlocking locking : Script}
    (hstart : start rules unlocking locking = .ok m) :
    ∃ count, (∀ earlier < count, (runFor earlier m).status = .running) ∧
      (runFor count m).status ≠ .running ∧ runFor count m = m.run ∧
      ((runFor count m).status = .succeeded ↔ ∃ last, Evaluates rules unlocking locking last) ∧
      ∀ earlier, (runFor (earlier + 1) m).stage ≠ (runFor earlier m).stage →
        ∃ stack program checks, (runFor (earlier + 1) m).frame = .start stack program checks := by
  rcases exists_first_halt hstart with ⟨count, hearlier, hhalted, hrun⟩
  refine ⟨count, hearlier, hhalted, hrun, ?_, fun earlier hne => ?_⟩
  · rw [hrun]
    exact run_succeeded_iff hstart
  · rw [runFor_add] at hne ⊢
    exact frame_of_step hne

/-- A payment to the hash of a script, where the redeem script compares a number with one
    that the unlocking script has pushed below it, goes through all three scripts. -/
theorem run_succeeds_iff_evaluates_redeem :
    let rules : Rules := { flags := ⟨1 ||| 256⟩ }
    let unlocking : Script := ⟨[0x51, 0x02, 0x51, 0x87]⟩
    let locking := Script.p2sh (Hash.hash160 [0x51, 0x87])
    ∃ m, start rules unlocking locking = .ok m ∧
      ∃ count, (runFor count m).status = .succeeded ∧
        ∃ last, Evaluates rules unlocking locking last := by
  intro rules unlocking locking
  have hsuccess : execute rules unlocking locking = .success := by decide +kernel
  rcases execute_eq_success.mp hsuccess with ⟨m, hstart, hevaluates⟩
  rcases run_succeeds_iff_evaluates hstart with ⟨count, _, _, _, hiff, _⟩
  have hsucceeded := hiff.mpr hevaluates
  exact ⟨m, hstart, count, hsucceeded, hevaluates⟩

end Machine

end Bitcoin
