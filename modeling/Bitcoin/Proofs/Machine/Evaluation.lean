import Bitcoin.Proofs.Machine.Effect
import Bitcoin.Proofs.Machine.Run

/-!
# Evaluating a Script

Apart from the machine, a script is a function of stacks: its instructions are
executed one after the other in a new frame, and what counts in the end is the stack
that they leave, if no instruction has failed and no block is open.

The frame of a script that is not the first one also holds the record of questions
to the context. As no instruction looks at it, the function does not depend on it.

## Main definitions

* `Instruction.advance`: An instruction with the check of the depth behind it.
* `Program.run`: All instructions of a program.
* `Program.eval?`, `Script.eval?`: The stack that is left.

## Theorems

* `Instruction.advance_eq_ok`, `Program.run_cons_eq_ok`: Success of an instruction, and
  of a program from its first instruction on.
* `Program.eval?_eq_some`, `Script.eval?_eq_some`: Evaluation with any record.
-/

namespace Bitcoin

/-- One instruction, given what follows it, and the check of the depth behind it. -/
def Instruction.advance (rules : Rules) (instruction : Instruction) (rest : Program) :
    Exec Unit := do
  modify fun frame => { frame with next := rest }
  instruction.execute rules
  Exec.lift (Machine.checkDepth rules (← get))

/-- The instructions of a program, one after the other. -/
def Program.run (rules : Rules) : Program → Exec Unit
  | [] => return ()
  | instruction :: rest => do
    instruction.advance rules rest
    run rules rest

/-- The stack that a program leaves of a given one. It fails if an instruction does, and
    if a block stays open. -/
def Program.eval? (rules : Rules) (program : Program) (stack : Stack) : Option Stack :=
  match program.run rules (.start stack program []) with
  | .ok _ frame => if frame.blocks = [] then some frame.stack else none
  | .error _ _ => none

/-- The stack that a script leaves of a given one. -/
def Script.eval? (rules : Rules) (role : Role) (script : Script) (stack : Stack) :
    Option Stack :=
  (Program.parse role script).toOption.bind (Program.eval? rules · stack)

section
variable {rules : Rules} {instruction : Instruction} {rest : Program} {frame frame' : Frame}

/-- An instruction succeeds if its execution does, with the rest of the program as what is next,
    and if the stacks have not become too deep. -/
theorem Instruction.advance_eq_ok :
    instruction.advance rules rest frame = .ok () frame' ↔
      instruction.execute rules { frame with next := rest } = .ok () frame' ∧
      frame'.depth ≤ rules.limits.stackDepth := by
  rw [advance]
  constructor
  · intro h
    rcases Steps.bind_eq_ok.mp h with ⟨_, start, hnext, hrest⟩
    cases hnext
    rcases Steps.bind_eq_ok.mp hrest with ⟨_, after, hexecute, hdepth⟩
    rcases Exec.lift_eq_ok.mp hdepth with ⟨hcheck, rfl⟩
    exact ⟨hexecute, Machine.checkDepth_eq_ok.mp hcheck⟩
  · rintro ⟨hexecute, hdepth⟩
    refine Steps.bind_eq_ok.mpr ⟨(), { frame with next := rest }, rfl, ?_⟩
    refine Steps.bind_eq_ok.mpr ⟨(), frame', hexecute, ?_⟩
    exact Exec.lift_eq_ok.mpr ⟨Machine.checkDepth_eq_ok.mpr hdepth, rfl⟩

theorem Instruction.blind_advance : Exec.Blind (instruction.advance rules rest) :=
  .bind (.modify fun _ checks => ⟨checks, rfl⟩) fun _ =>
    .bind (blind_execute rules instruction) fun _ =>
      .read (fun _ => (Exec.Plain.lift _).blind) fun _ _ => rfl

/-- A program succeeds instruction by instruction. -/
theorem Program.run_cons_eq_ok :
    Program.run rules (instruction :: rest) frame = .ok () frame' ↔
      ∃ between, instruction.advance rules rest frame = .ok () between ∧
        Program.run rules rest between = .ok () frame' := by
  rw [run, Steps.bind_eq_ok]
  exact ⟨fun ⟨(), h⟩ => h, fun h => ⟨(), h⟩⟩

theorem Program.blind_run (program : Program) : Exec.Blind (program.run rules) := by
  induction program with
  | nil => exact (Exec.Plain.pure ()).blind
  | cons instruction rest ih => exact .bind Instruction.blind_advance fun _ => ih

/-- Whatever the context has been asked before, a program leaves the same stack. -/
theorem Program.eval?_eq_some {program : Program} {stack last : Stack}
    (checks : List SignatureCheck) :
    program.eval? rules stack = some last ↔
      ∃ frame, program.run rules (.start stack program checks) = .ok () frame ∧
        frame.blocks = [] ∧ frame.stack = last := by
  -- With one record or another the run succeeds, and the frames are the same but for it.
  have hrecord : ∀ checks checks', (∃ frame,
      program.run rules (.start stack program checks) = .ok () frame ∧
        frame.blocks = [] ∧ frame.stack = last) → ∃ frame,
      program.run rules (.start stack program checks') = .ok () frame ∧
        frame.blocks = [] ∧ frame.stack = last := by
    rintro checks checks' ⟨frame, hrun, hblocks, hstack⟩
    rcases blind_run program _ _ _ checks' hrun with ⟨checks'', hrun'⟩
    exact ⟨{ frame with checks := checks'' }, hrun', hblocks, hstack⟩
  refine Iff.trans ?_ ⟨hrecord [] checks, hrecord checks []⟩
  rw [eval?]
  rcases program.run rules (.start stack program []) with ⟨_, frame⟩ | ⟨fault, frame⟩
  · by_cases hblocks : frame.blocks = []
    · simp [hblocks]
    · simp [hblocks]
  · simp

/-- A script that can be read is evaluated as its program. -/
theorem Script.eval?_of_parse {role : Role} {script : Script} {program : Program} {stack : Stack}
    (h : Program.parse role script = .ok program) :
    script.eval? rules role stack = program.eval? rules stack := by
  rw [eval?, h]
  rfl

/-- A script leaves a stack if it can be read and its program leaves it. -/
theorem Script.eval?_eq_some {role : Role} {script : Script} {stack last : Stack} :
    script.eval? rules role stack = some last ↔
      ∃ program, Program.parse role script = .ok program ∧
        program.eval? rules stack = some last := by
  rw [eval?]
  rcases Program.parse role script with failure | program
  · simp [Except.toOption]
  · simp [Except.toOption]

end

end Bitcoin
