import Bitcoin.Proofs.Machine.Rounds
import Bitcoin.Proofs.Script.Walk

/-!
# Where a Run Fails

A failure has a place if an instruction is to blame for it, and the place is that of the
instruction. It is given by the step that executes the instruction, so all those before it in
the same script have been executed without a failure. Scripts that do not decode have a
place to blame as well, though no step is taken in them: that of the push that runs past
the end.

For everything else a script as a whole is to blame, or the stack that it leaves. These
causes are few, and they are met where a run starts and where a script ends, never within a
step of an instruction. So there are four ways for a run to fail, one of them for each kind of
check that it goes through.

## Main definitions

* `Failure.Unplaced`: Failures that a script as a whole is to blame for.
* `Machine.HasRole`: The scripts of a run.
* `Machine.FailsBy`: The ways in which a run fails.

## Theorems

* `Machine.start_eq_error`, `Machine.judge_eq_error`, `Machine.redeemProgram_eq_error`: What
  the checks around a run fail with.
* `Program.parse_eq_error`: What decoding fails with.
* `Machine.failsBy_of_execute`: What a run fails with.
* `Machine.failure_located`: The place of a failure.
-/

namespace Bitcoin

/-- The rules that a script breaks as a whole, or the stack that it leaves. A script that ends
    inside a block does so as well, but instructions may break that rule too. -/
def Violation.unplaced : List Violation :=
  [.invalidFlags, .scriptTooBig, .notPushOnly, .emptyStack, .evalFalse, .cleanStack]

/-- A failure without a place, under one of these rules. -/
structure Failure.Unplaced (failure : Failure) : Prop where
  location? : failure.location? = none
  violation : failure.violation ∈ Violation.unplaced

theorem Failure.Unplaced.of {fault : Fault} (violation : Violation)
    (h : fault.violation = violation) (hmem : violation ∈ Violation.unplaced) :
    (Failure.of fault).Unplaced := by
  subst h
  exact ⟨rfl, hmem⟩

/-- A script that does not decode is refused at the first push that runs past its end. -/
theorem Program.parse_eq_error {role : Role} {script : Script} {failure : Failure}
    (h : parse role script = .error failure) :
    ∃ chunks op rest, script.Splits chunks (op :: rest) ∧ Push.Overruns op rest ∧
      failure = (Failure.of .truncatedPush).locate role (chunks.flatMap Chunk.encode).length := by
  rw [parse, parseFrom_eq, Nat.zero_add] at h
  rcases hsplit : Chunk.split script.bytes with ⟨chunks, tail⟩
  rw [hsplit] at h
  have hsplits : script.Splits chunks tail := Script.splits_iff.mpr hsplit
  rcases hsplits.ends with rfl | ⟨op, rest, rfl, hoverruns⟩
  · rw [if_pos rfl] at h
    cases h
  · rw [if_neg (List.cons_ne_nil _ _)] at h
    exact ⟨chunks, op, rest, hsplits, hoverruns, (Except.error.inj h).symm⟩

namespace Machine

variable {m : Machine} {rules : Rules} {unlocking locking script : Script} {failure : Failure}
  {fault : Fault}

/-- The size of a script is checked as a whole. -/
theorem checkSize_eq_error {role : Role} (h : checkSize rules role script = .error failure) :
    failure.Unplaced := by
  rcases Result.refuse_eq_error.mp h with ⟨_, rfl⟩ | ⟨_, h⟩
  · exact .of .scriptTooBig rfl (by decide)
  · cases h

/-- The last element is asked for behind all instructions. -/
theorem requireTrue_eq_error {stack : Stack} (h : requireTrue stack = .error fault) :
    (Failure.of fault).Unplaced := by
  rw [requireTrue.eq_def] at h
  rcases stack with _ | ⟨top, rest⟩
  · cases h
    exact .of .emptyStack rfl (by decide)
  · by_cases htrue : Element.isTrue top = true
    · simp only [if_pos htrue] at h
      cases h
    · simp only [if_neg htrue] at h
      cases h
      exact .of .evalFalse rfl (by decide)

/-- What the judgement of a stack fails with. -/
theorem judge_eq_error {stack : Stack} (h : judge rules stack = .error fault) :
    (Failure.of fault).Unplaced := by
  rw [judge] at h
  rcases Result.bind_eq_error.mp h with h | ⟨_, _, h⟩
  · exact requireTrue_eq_error h
  · rcases Result.refuse_eq_error.mp h with ⟨_, rfl⟩ | ⟨_, h⟩
    · exact .of .cleanStack rfl (by decide)
    · cases h

/-- What the loading of a redeem script fails with. -/
theorem redeemProgram_eq_error {stack saved : Stack}
    (h : redeemProgram rules stack saved = .error failure) :
    failure.Unplaced ∨ ∃ script rest, saved = script :: rest ∧
      Program.parse .redeem ⟨script⟩ = .error failure := by
  rw [redeemProgram.eq_def] at h
  rcases Result.bind_eq_error.mp h with h | ⟨_, _, h⟩
  · rcases htrue : requireTrue stack with fault | _
    · rw [htrue] at h
      cases h
      exact .inl (requireTrue_eq_error htrue)
    · rw [htrue] at h
      cases h
  · -- The stack that has been saved has no top, or its top is too large, or it cannot be read.
    rcases saved with _ | ⟨script, rest⟩
    · cases h
      exact .inl (.of .emptyStack rfl (by decide))
    · rcases Result.bind_eq_error.mp h with h | ⟨_, _, h⟩
      · exact .inl (checkSize_eq_error h)
      · rcases Result.bind_eq_error.mp h with h | ⟨_, _, h⟩
        · exact .inr ⟨script, rest, rfl, h⟩
        · cases h

/-- What a start fails with. -/
theorem start_eq_error (h : start rules unlocking locking = .error failure) :
    failure.Unplaced ∨ Program.parse .unlocking unlocking = .error failure ∨
      Program.parse .locking locking = .error failure := by
  rw [start] at h
  rcases Result.guard_eq_error.mp h with ⟨_, rfl⟩ | ⟨_, h⟩
  · -- The checks in their order. Only the two that read a script say where it fails.
    exact .inl (.of .invalidFlags rfl (by decide))
  rcases Result.bind_eq_error.mp h with h | ⟨_, _, h⟩
  · exact .inl (checkSize_eq_error h)
  rcases Result.bind_eq_error.mp h with h | ⟨_, _, h⟩
  · exact .inl (checkSize_eq_error h)
  rcases Result.guard_eq_error.mp h with ⟨_, rfl⟩ | ⟨_, h⟩
  · exact .inl (.of .notPushOnly rfl (by decide))
  rcases Result.guard_eq_error.mp h with ⟨_, rfl⟩ | ⟨_, h⟩
  · exact .inl (.of .notPushOnly rfl (by decide))
  rcases Result.bind_eq_error.mp h with h | ⟨_, _, h⟩
  · exact .inr (.inl h)
  rcases Result.bind_eq_error.mp h with h | ⟨_, _, h⟩
  · exact .inr (.inr h)
  · cases h

/-- The scripts of a run. The redeem script is what the unlocking script leaves on top. -/
def HasRole (rules : Rules) (unlocking locking : Script) : Role → Script → Prop
  | .unlocking, script => script = unlocking
  | .locking, script => script = locking
  | .redeem, script => rules.has .p2sh = true ∧ locking.isP2SH = true ∧
      ∃ rest, unlocking.eval? rules .unlocking [] = some (script.bytes :: rest)

/-- The ways in which a run fails: at an instruction of one of its scripts, with a script that
    does not decode, at the end of a script inside a block, or under a rule for scripts as a
    whole. -/
inductive FailsBy (rules : Rules) (unlocking locking : Script) (failure : Failure) : Prop
  | instruction {m : Machine} {role : Role} {script : Script} {first : Nat}
      {before behind : Program} {instruction : Instruction}
      (hrole : HasRole rules unlocking locking role script)
      (hstart : start rules unlocking locking = .ok m)
      (hparse : Program.parse role script = .ok (before ++ instruction :: behind))
      (hstops : (runFor first m).StopsAt role before instruction behind failure)
  | decoding (role : Role) {script : Script}
      (hrole : HasRole rules unlocking locking role script)
      (hparse : Program.parse role script = .error failure)
  | block {m : Machine} (hstart : start rules unlocking locking = .ok m)
      (hopen : m.run.LeavesOpen failure)
  | whole (h : failure.Unplaced)

-- A round that fails is the last one of the run.
theorem Begins.failsBy (first : Nat) {stage : Stage} {stack : Stack} {program : Program}
    (h : Begins (runFor first m) rules stage stack program)
    (hstart : start rules unlocking locking = .ok m)
    (hrole : HasRole rules unlocking locking stage.role script)
    (hparse : Program.parse stage.role script = .ok program)
    (hlast : (runFor first m).finishScript.status ≠ .running →
      m.run = (runFor first m).finishScript)
    (heval : program.eval? rules stack = none) (hfailed : m.run.status = .failed failure) :
    FailsBy rules unlocking locking failure := by
  -- A round that fails is the last one, so its failure is the one of the run.
  rcases h.fails heval with ⟨failure', hfinish, hfails⟩
  have hrun := hlast (halted_of_failed hfinish)
  rw [hrun, hfinish] at hfailed
  cases hfailed
  rcases hfails with ⟨before, instruction, behind, rfl, hstops⟩ | hopen
  · exact .instruction hrole hstart hparse hstops
  · exact .block hstart (hrun ▸ hopen)

-- After the last script it is the judgement of the stack that is left to fail.
theorem Begins.unplaced {stage : Stage} {stack last : Stack} {program : Program}
    (h : Begins m rules stage stack program) (hstage : stage = .locking none ∨ stage = .redeem)
    (heval : program.eval? rules stack = some last)
    (hfailed : m.finishScript.status = .failed failure) : failure.Unplaced := by
  have hfinish := (h.finish_last hstage heval).2
  rcases hjudge : judge rules last with fault | _
  · rw [hjudge, hfailed] at hfinish
    cases hfinish
    exact judge_eq_error hjudge
  · rw [hjudge, hfailed] at hfinish
    cases hfinish

theorem run_of_halted_first (h : m.finishScript.status ≠ .running) : m.run = m.finishScript := by
  rw [run, finishScript_of_halted h, finishScript_of_halted h]

theorem run_of_halted_second (h : m.finishScript.finishScript.status ≠ .running) :
    m.run = m.finishScript.finishScript := by
  rw [run, finishScript_of_halted h]

/-- A machine that fails does so in one of its rounds. -/
theorem failsBy_of_run (hstart : start rules unlocking locking = .ok m)
    (hfailed : m.run.status = .failed failure) : FailsBy rules unlocking locking failure := by
  rcases begins_of_start hstart with ⟨first, second, hfirst, hsecond, hbegins, hredeems⟩
  have hrounds : m.finishScript.finishScript
      = runFor (m.scriptSteps + m.finishScript.scriptSteps) m := by
    rw [runFor_add]
    rfl
  -- Script by script: either it cannot be evaluated, or the machine goes on to the next one.
  rcases heval : first.eval? rules [] with _ | stack
  · exact Begins.failsBy 0 hbegins hstart rfl hfirst run_of_halted_first heval hfailed
  have hunlocking := (Script.eval?_of_parse hfirst).trans heval
  have hbegins' := hbegins.finish_unlocking heval
  rcases heval' : second.eval? rules stack with _ | stack'
  · exact Begins.failsBy m.scriptSteps hbegins' hstart rfl hsecond run_of_halted_second heval'
      hfailed
  by_cases hp2sh : rules.has .p2sh = true ∧ locking.isP2SH = true
  · rw [if_pos (hredeems.mpr hp2sh)] at hbegins'
    rcases hloaded : redeemProgram rules stack' stack with failure' | ⟨third, rest⟩
    · -- The redeem script is refused before it begins.
      have hfinish := hbegins'.failed_locking heval' hloaded
      rw [run_of_halted_second (halted_of_failed hfinish), hfinish] at hfailed
      cases hfailed
      rcases redeemProgram_eq_error hloaded with hwhole | ⟨redeem, rest, rfl, hparse⟩
      · exact .whole hwhole
      · exact .decoding .redeem ⟨hp2sh.1, hp2sh.2, rest, hunlocking⟩ hparse
    · rcases redeemProgram_eq_ok.mp hloaded with ⟨_, redeem, rfl, _, hthird⟩
      have hbegins'' := hbegins'.finish_locking heval' hloaded
      rcases heval'' : third.eval? rules rest with _ | last
      · have hrun : m.run
            = (runFor (m.scriptSteps + m.finishScript.scriptSteps) m).finishScript := by
          rw [← hrounds, run]
        rw [hrounds] at hbegins''
        exact Begins.failsBy _ hbegins'' hstart ⟨hp2sh.1, hp2sh.2, rest, hunlocking⟩ hthird
          (fun _ => hrun) heval'' hfailed
      · exact .whole (hbegins''.unplaced (.inr rfl) heval'' hfailed)
  · -- The locking script is the last one, and the machine has halted behind it.
    rw [if_neg (mt hredeems.mp hp2sh)] at hbegins'
    have hfinish := (hbegins'.finish_last (.inl rfl) heval').2
    have hhalted : m.finishScript.finishScript.status ≠ .running := by
      rw [hfinish]
      rcases judge rules stack' with fault | _
      · simp only [ne_eq, reduceCtorEq, not_false_eq_true]
      · simp only [ne_eq, reduceCtorEq, not_false_eq_true]
    rw [run_of_halted_second hhalted] at hfailed
    exact .whole (hbegins'.unplaced (.inl rfl) heval' hfailed)

/-- A machine that has failed gives its failure as the verdict. -/
theorem verdict_eq_failure : m.verdict = .failure failure ↔ m.status = .failed failure := by
  rw [verdict]
  rcases m.status with _ | _ | failure'
  · simp only [reduceCtorEq]
  · simp only [reduceCtorEq]
  · simp only [Verdict.failure.injEq, Status.failed.injEq]

/-- Whatever fails, at the start or in a round, is one of the four. -/
theorem failsBy_of_execute (h : execute rules unlocking locking = .failure failure) :
    FailsBy rules unlocking locking failure := by
  rw [execute] at h
  rcases hstart : start rules unlocking locking with failure' | m
  · rw [hstart] at h
    cases h
    rcases start_eq_error hstart with hwhole | hparse | hparse
    · exact .whole hwhole
    · exact .decoding .unlocking rfl hparse
    · exact .decoding .locking rfl hparse
  · rw [hstart] at h
    exact failsBy_of_run hstart (verdict_eq_failure.mp h)

/-- The place of a failure is that of an instruction, in the script that has the role, and all
    instructions before it have been executed, one in each step. Or the script does not decode,
    and the place is that of the first push that runs past its end. A failure without a place is
    under one of the rules for scripts as a whole, or a script has ended inside a block. -/
theorem failure_located (h : execute rules unlocking locking = .failure failure) :
    (∀ role offset, failure.location? = some ⟨role, offset⟩ →
      ∃ script, HasRole rules unlocking locking role script ∧
        ((∃ m first before instruction behind, start rules unlocking locking = .ok m ∧
            Program.parse role script = .ok (before ++ instruction :: behind) ∧
            instruction.offset = offset ∧ offset = (Program.unparse before).length ∧
            (runFor first m).StopsAt role before instruction behind failure) ∨
          Program.parse role script = .error failure ∧ failure.violation = .malformedPush ∧
            ∃ chunks op rest, script.Splits chunks (op :: rest) ∧ Push.Overruns op rest ∧
              offset = (chunks.flatMap Chunk.encode).length)) ∧
      (failure.location? = none →
        failure.violation ∈ [.invalidFlags, .scriptTooBig, .notPushOnly, .emptyStack, .evalFalse,
          .cleanStack] ∨
        failure.violation = .unbalancedConditional ∧
          ∃ m, start rules unlocking locking = .ok m ∧ m.run.LeavesOpen failure) := by
  -- A failure is one of four kinds. Two of them have a place, and the other two have none.
  refine ⟨fun role offset hlocation => ?_, fun hlocation => ?_⟩
  · cases failsBy_of_execute h with
    | @instruction m _ script first before behind instruction hrole hstart hparse hstops =>
        cases hstops.located.symm.trans hlocation
        rcases Program.parse_eq_ok.mp hparse with ⟨chunks, _, hplace⟩
        have hoffset := Program.offset_of_place hplace
        rw [Nat.zero_add] at hoffset
        exact ⟨script, hrole, .inl ⟨m, first, before, instruction, behind, hstart, hparse, rfl,
          hoffset, hstops⟩⟩
    | @decoding _ script hrole hparse =>
        rcases Program.parse_eq_error hparse with ⟨chunks, op, rest, hsplits, hoverruns, rfl⟩
        cases hlocation
        exact ⟨script, hrole, .inr ⟨hparse, rfl, chunks, op, rest, hsplits, hoverruns, rfl⟩⟩
    | block hstart hopen =>
        rw [hopen.failure] at hlocation
        cases hlocation
    | whole hwhole => cases hwhole.location?.symm.trans hlocation
  · cases failsBy_of_execute h with
    | instruction hrole hstart hparse hstops => cases hstops.located.symm.trans hlocation
    | decoding _ hrole hparse =>
        rcases Program.parse_eq_error hparse with ⟨chunks, op, rest, _, _, rfl⟩
        cases hlocation
    | @block m hstart hopen =>
        refine .inr ⟨?_, m, hstart, hopen⟩
        rw [hopen.failure]
        rfl
    | whole hwhole => exact .inl hwhole.violation

/-- The second check in a redeem script fails, at the instruction behind three bytes. -/
theorem failure_located_redeem :
    let rules : Rules := { flags := ⟨1⟩ }
    let redeem : Script := ⟨[0x51, 0x69, 0x00, 0x69]⟩
    let unlocking : Script := ⟨0x04 :: redeem.bytes⟩
    let locking := Script.p2sh (Hash.hash160 redeem.bytes)
    ∃ failure, execute rules unlocking locking = .failure failure ∧
      ∃ m first before instruction behind, start rules unlocking locking = .ok m ∧
        Program.parse .redeem redeem = .ok (before ++ instruction :: behind) ∧
        instruction.offset = 3 ∧
        (runFor first m).StopsAt .redeem before instruction behind failure := by
  intro rules redeem unlocking locking
  -- The run fails in the redeem script, and the unlocking script has left that script on top.
  have hfails : execute rules unlocking locking
      = .failure ((Failure.of (.failedCheck .verify)).locate .redeem 3) := by
    decide +kernel
  have hleaves : unlocking.eval? rules .unlocking [] = some [redeem.bytes] := by decide +kernel
  refine ⟨_, hfails, ?_⟩
  rcases (failure_located hfails).1 .redeem 3 rfl with ⟨⟨bytes⟩, ⟨_, _, rest, heval⟩,
    ⟨m, first, before, instruction, behind, hstart, hparse, hoffset, _, hstops⟩ |
    ⟨_, hmalformed, _⟩⟩
  · cases hleaves.symm.trans heval
    exact ⟨m, first, before, instruction, behind, hstart, hparse, hoffset, hstops⟩
  · cases hmalformed

end Machine

end Bitcoin
