import Bitcoin.Proofs.Machine.Step

/-!
# Blocks That Are Passed Over

Where some half of an open block is not live nothing takes effect, whatever becomes of the
blocks within it. Those that are opened there have no live half to begin with. Turning
makes their halves live by turns, but what is around them stays as it is, and so does
everything else until they are closed again.

Passing over instructions that open and close blocks in pairs therefore changes nothing
but the count of operations, since these are counted whether they take effect or not. It can
fail for a few reasons only, all of which the instruction and the count decide between
them.

What carries the induction is that the open blocks are those from before with some more
inside, as many as the instructions so far have opened and not closed.

## Main definitions

* `Operation.level?`, `Program.level?`: How many blocks are open within a program.
* `Instruction.Barred`: Why an instruction may fail that takes no effect.

## Theorems

* `Instruction.perform_skipped`, `Instruction.execute_skipped`, `Instruction.advance_skipped`:
  One instruction.
* `Machine.runFor_skipped`: A program, with the blocks around it.
* `Machine.runFor_skipped_block`: A program whose blocks are closed.
-/

namespace Bitcoin

/-- How many blocks of a program are open behind an operation, given how many are before
    it. Only an open one can be turned or closed. -/
def Operation.level? : Operation → Nat → Option Nat
  | .flow .ifTrue, level | .flow .ifFalse, level => some (level + 1)
  | .flow .otherwise, 0 | .flow .endIf, 0 => none
  | .flow .endIf, level + 1 => some level
  | _, level => some level

/-- How many blocks are open behind a program that begins at a given level, and none if
    somewhere it turns or closes a block that it has not opened. -/
def Program.level? : Program → Nat → Option Nat
  | [], level => some level
  | instruction :: rest, level => (instruction.operation.level? level).bind (level? rest)

/-- Why an instruction fails whether it takes effect or not, where so many operations have
    been counted before it. -/
inductive Instruction.Barred (rules : Rules) (operations : Nat) (instruction : Instruction) :
    Fault → Prop
  | size (h : rules.limits.elementSize < instruction.data.length) :
      Barred rules operations instruction
        (.elementTooBig instruction.data.length rules.limits.elementSize)
  | count (hop : Opcode.sixteen < instruction.op) (h : rules.limits.operations < operations + 1) :
      Barred rules operations instruction (.tooManyOperations rules.limits.operations)
  | disabled (h : instruction.operation = .disabled) :
      Barred rules operations instruction (.disabledOpcode instruction.op)
  | version
      (h : instruction.operation = .flow .ifVersion ∨ instruction.operation = .flow .ifNotVersion) :
      Barred rules operations instruction (.versionBlock instruction.op)

section
variable {rules : Rules} {instruction : Instruction} {frame : Frame}
  {inner outer : List Bool} {level operations : Nat}

/-- Inside a block that is skipped nothing is executed. -/
theorem Frame.not_live (h : false ∈ frame.blocks) : frame.isLive = false := by
  rw [isLive, List.all_eq_false]
  exact ⟨false, h, Bool.false_ne_true⟩

-- A block that is opened where nothing takes effect asks for no condition.
theorem Flow.openBlock_of_not_live {op : UInt8} {wanted : Bool} (hlive : frame.isLive = false) :
    openBlock rules op wanted frame = .ok () { frame with blocks := false :: frame.blocks } := by
  change (if frame.isLive = true then _ else _ : Exec Unit) frame = _
  rw [hlive, if_neg Bool.false_ne_true]
  rfl

/-- Where nothing takes effect, the operations on blocks change the inner ones only. -/
theorem Instruction.perform_skipped (hconditional : instruction.operation.isConditional = true)
    (hblocks : frame.blocks = inner ++ outer) (hskipped : false ∈ outer)
    (hlevel : instruction.operation.level? inner.length = some level) :
    (∃ fault, instruction.perform rules frame = .error fault frame ∧
        Barred rules operations instruction fault) ∨
      ∃ inner', inner'.length = level ∧
        instruction.perform rules frame = .ok () { frame with blocks := inner' ++ outer } := by
  have hlive : frame.isLive = false :=
    frame.not_live (hblocks ▸ List.mem_append_right inner hskipped)
  have hopen (wanted : Bool) : Flow.openBlock rules instruction.op wanted frame
      = .ok () { frame with blocks := (false :: inner) ++ outer } := by
    rw [Flow.openBlock_of_not_live hlive, hblocks]
    rfl
  rw [perform]
  cases hoperation : instruction.operation with
  | flow op =>
      rw [hoperation] at hlevel hconditional
      cases op with
      | ifTrue =>
          cases hlevel
          exact .inr ⟨false :: inner, rfl, hopen true⟩
      | ifFalse =>
          cases hlevel
          exact .inr ⟨false :: inner, rfl, hopen false⟩
      | ifVersion => exact .inl ⟨_, rfl, .version (.inl hoperation)⟩
      | ifNotVersion => exact .inl ⟨_, rfl, .version (.inr hoperation)⟩
      | otherwise =>
          -- There is an inner block to be turned, or there would be no level behind it.
          rcases inner with _ | ⟨live, inner⟩
          · cases hlevel
          · cases hlevel
            refine .inr ⟨(!live) :: inner, rfl, ?_⟩
            change Flow.turn _ frame = _
            rw [Flow.turn, hblocks]
            rfl
      | endIf =>
          rcases inner with _ | ⟨live, inner⟩
          · cases hlevel
          · cases hlevel
            refine .inr ⟨inner, rfl, ?_⟩
            change Flow.close _ frame = _
            rw [Flow.close, hblocks]
            rfl
      | _ => exact absurd hconditional Bool.false_ne_true
  | _ =>
      rw [hoperation] at hconditional
      exact absurd hconditional Bool.false_ne_true

/-- Only operations on blocks change the level. -/
theorem Operation.level?_of_not_conditional {operation : Operation}
    (h : operation.isConditional = false) : operation.level? level = some level := by
  cases operation with
  | flow op =>
      cases op with
      | nop => rfl
      | verify => rfl
      | earlyReturn => rfl
      | _ => exact absurd h (by decide)
  | _ => rfl

variable (rules)

-- What is left of an instruction once it has been counted.
theorem Instruction.rest_skipped {k : Unit → Exec Unit} (hblocks : frame.blocks = inner ++ outer)
    (hskipped : false ∈ outer) (hlevel : instruction.operation.level? inner.length = some level) :
    let rest : Exec Unit :=
      if instruction.operation = Operation.disabled then
        throw (.disabledOpcode instruction.op) >>= k
      else do
        if (← get).isLive ∨ instruction.operation.isConditional then instruction.perform rules
    (∃ fault, rest frame = .error fault frame ∧ Barred rules operations instruction fault) ∨
      ∃ inner', inner'.length = level ∧
        rest frame = .ok () { frame with blocks := inner' ++ outer } := by
  intro rest
  have hlive : frame.isLive = false :=
    frame.not_live (hblocks ▸ List.mem_append_right inner hskipped)
  by_cases hdisabled : instruction.operation = .disabled
  · refine .inl ⟨_, ?_, .disabled hdisabled⟩
    simp only [rest, if_pos hdisabled]
    rfl
  · have hrest : rest frame = (if frame.isLive = true ∨ instruction.operation.isConditional = true
        then instruction.perform rules else pure () : Exec Unit) frame := by
      simp only [rest, if_neg hdisabled]
      rfl
    rw [hrest, hlive]
    -- Operations on blocks are performed even here, and nothing else is.
    by_cases hconditional : instruction.operation.isConditional = true
    · rw [if_pos (.inr hconditional)]
      exact perform_skipped hconditional hblocks hskipped hlevel
    · rw [if_neg (by simp [hconditional])]
      rw [Operation.level?_of_not_conditional (Bool.eq_false_iff.mpr hconditional)] at hlevel
      refine .inr ⟨inner, Option.some.inj hlevel, ?_⟩
      rw [← hblocks]
      rfl

/-- An instruction that takes no effect is counted, and it may change the inner blocks. -/
theorem Instruction.execute_skipped (hblocks : frame.blocks = inner ++ outer)
    (hskipped : false ∈ outer) (hlevel : instruction.operation.level? inner.length = some level) :
    (∃ fault after, instruction.execute rules frame = .error fault after ∧
        Barred rules frame.operations instruction fault) ∨
      ∃ inner', inner'.length = level ∧ instruction.execute rules frame = .ok () { frame with
        blocks := inner' ++ outer
        operations := frame.operations + if Opcode.sixteen < instruction.op then 1 else 0 } := by
  rw [execute]
  by_cases hsize : rules.limits.elementSize < instruction.data.length
  · rw [if_pos hsize]
    exact .inl ⟨_, frame, rfl, .size hsize⟩
  rw [if_neg hsize]
  by_cases hop : Opcode.sixteen < instruction.op
  · rw [if_pos hop, if_pos hop]
    by_cases hlimit : frame.operations + 1 ≤ rules.limits.operations
    · -- What follows works on the frame in which the operation has been counted.
      have hcounted : { frame with operations := frame.operations + 1 }.blocks = inner ++ outer :=
        hblocks
      rcases rest_skipped rules hcounted hskipped hlevel with
        ⟨fault, hrest, hbarred⟩ | ⟨inner', hlength, hrest⟩
      · exact .inl ⟨fault, _, (Steps.bind_ok (Exec.countOperations_ok hlimit)).trans hrest, hbarred⟩
      · exact .inr ⟨inner', hlength, (Steps.bind_ok (Exec.countOperations_ok hlimit)).trans hrest⟩
    · have hexceeded := Nat.not_le.mp hlimit
      exact .inl ⟨_, _, Steps.bind_error (Exec.countOperations_error hexceeded),
        .count hop hexceeded⟩
  · rw [if_neg hop, if_neg hop]
    rcases rest_skipped rules hblocks hskipped hlevel with ⟨fault, hrest, hbarred⟩ | hpassed
    · exact .inl ⟨fault, frame, hrest, hbarred⟩
    · exact .inr hpassed

-- The stacks do not change, so the check of the depth is passed again.
theorem Instruction.advance_skipped (rest : Program) (hblocks : frame.blocks = inner ++ outer)
    (hskipped : false ∈ outer) (hdepth : frame.depth ≤ rules.limits.stackDepth)
    (hlevel : instruction.operation.level? inner.length = some level) :
    (∃ fault after, instruction.advance rules rest frame = .error fault after ∧
        Barred rules frame.operations instruction fault) ∨
      ∃ inner', inner'.length = level ∧ instruction.advance rules rest frame = .ok () { frame with
        next := rest
        blocks := inner' ++ outer
        operations := frame.operations + if Opcode.sixteen < instruction.op then 1 else 0 } := by
  have hnext : { frame with next := rest }.blocks = inner ++ outer := hblocks
  -- The depth has not changed, so it is still within its limit.
  rcases execute_skipped rules hnext hskipped hlevel with
    ⟨fault, after, hexecute, hbarred⟩ | ⟨inner', hlength, hexecute⟩
  · refine .inl ⟨fault, after, ?_, hbarred⟩
    exact (Steps.bind_ok rfl).trans (Steps.bind_error hexecute)
  · exact .inr ⟨inner', hlength, advance_eq_ok.mpr ⟨hexecute, hdepth⟩⟩

end

/-- How many operations there are in a program, whether they take effect or not. -/
def Program.operations (program : Program) : Nat :=
  program.countP fun instruction => Opcode.sixteen < instruction.op

/-- Instructions above the last small number are counted. -/
theorem Program.operations_cons (instruction : Instruction) (rest : Program) :
    operations (instruction :: rest)
      = (if Opcode.sixteen < instruction.op then 1 else 0) + operations rest := by
  simp only [operations, List.countP_cons, decide_eq_true_eq, Nat.add_comm]

/-- An instruction of a program that is barred, where so many operations have been counted
    before the program. Those in front of the instruction are counted as well. -/
def Program.Barred (rules : Rules) (count : Nat) (program : Program) (instruction : Instruction)
    (fault : Fault) : Prop :=
  ∃ before behind, program = before ++ instruction :: behind ∧
    instruction.Barred rules (count + operations before) fault

/-- What bars an instruction further on bars the longer program. -/
theorem Program.Barred.cons {rules : Rules} {count : Nat} {program : Program}
    {first instruction : Instruction} {fault : Fault}
    (h : Barred rules (count + if Opcode.sixteen < first.op then 1 else 0) program instruction
      fault) : Barred rules count (first :: program) instruction fault := by
  rcases h with ⟨before, behind, rfl, hbarred⟩
  refine ⟨first :: before, behind, rfl, ?_⟩
  rw [operations_cons, ← Nat.add_assoc]
  exact hbarred

namespace Machine

variable {m : Machine} {program rest : Program} {following : Instruction}
  {inner outer : List Bool} {level : Nat}

/-- A program that takes no effect, with at least one instruction behind it, changes nothing
    but the inner blocks and the count of operations. -/
theorem runFor_skipped (hrunning : m.status = .running)
    (hnext : m.frame.next = program ++ following :: rest)
    (hblocks : m.frame.blocks = inner ++ outer) (hskipped : false ∈ outer)
    (hdepth : m.frame.depth ≤ m.rules.limits.stackDepth)
    (hlevel : program.level? inner.length = some level) :
    (∃ instruction fault, program.Barred m.rules m.frame.operations instruction fault ∧
        (runFor program.length m).status
          = .failed ((Failure.of fault).locate m.stage.role instruction.offset)) ∨
      ∃ inner', inner'.length = level ∧ runFor program.length m = { m with
        frame := { m.frame with
          next := following :: rest
          blocks := inner' ++ outer
          operations := m.frame.operations + program.operations } } := by
  induction program generalizing m inner with
  | nil =>
      refine .inr ⟨inner, Option.some.inj hlevel, ?_⟩
      rw [← hblocks]
      simp only [List.nil_append] at hnext
      rw [← hnext]
      rfl
  | cons instruction program ih =>
      rw [List.cons_append] at hnext
      rcases Option.bind_eq_some_iff.mp hlevel with ⟨between, hfirst, hrest⟩
      have hstep := step_of_next hrunning hnext
      rw [List.length_cons, runFor]
      rcases Instruction.advance_skipped m.rules (program ++ following :: rest) hblocks hskipped
        hdepth hfirst with ⟨fault, after, hadvance, hbarred⟩ | ⟨inner', hlength, hadvance⟩
      · rw [executeNext_of_fault hadvance] at hstep
        refine .inl ⟨instruction, fault, ⟨[], program, rfl, hbarred⟩, ?_⟩
        -- The machine has halted, and what is left of the program does not change it.
        have hfailed : m.step.status
            = .failed ((Failure.of fault).locate m.stage.role instruction.offset) := by
          rw [hstep]
          rfl
        rw [runFor_of_halted (halted_of_failed hfailed), hfailed]
      · rw [executeNext_of_ok hadvance, if_neg (by simp)] at hstep
        rw [← hlength] at hrest
        rw [hstep]
        rcases ih (m := { m with frame := { m.frame with
            next := program ++ following :: rest
            blocks := inner' ++ outer
            operations := m.frame.operations +
              if Opcode.sixteen < instruction.op then 1 else 0 } })
          hrunning rfl rfl hdepth hrest with
          ⟨found, fault, hbarred, hfailed⟩ | ⟨inner'', hlength', hrun⟩
        · exact .inl ⟨found, fault, hbarred.cons, hfailed⟩
        · refine .inr ⟨inner'', hlength', hrun.trans ?_⟩
          rw [Program.operations_cons, ← Nat.add_assoc]

/-- Where a half of an open block is not live, a program that opens and closes its own blocks
    only, with at least one instruction behind it, is passed over. Either it fails, and
    then because one of its instructions is disabled, depends on the software version,
    pushes too much or is one operation too many, or the machine is as it was before but
    for what is to come and the count of operations. -/
theorem runFor_skipped_block {rules : Rules} {unlocking locking : Script} {first : Machine}
    (hstart : start rules unlocking locking = .ok first) {count : Nat}
    (hreach : runFor count first = m) (hrunning : m.status = .running)
    (hskipped : false ∈ m.frame.blocks) (hnext : m.frame.next = program ++ following :: rest)
    (hlevel : program.level? 0 = some 0) :
    (∃ instruction fault, program.Barred rules m.frame.operations instruction fault ∧
        (runFor program.length m).status
          = .failed ((Failure.of fault).locate m.stage.role instruction.offset)) ∨
      runFor program.length m = { m with
        frame := { m.frame with
          next := following :: rest
          operations := m.frame.operations + program.operations } } := by
  have hbegins : first.rules = rules ∧ first.frame.blocks = [] := by
    rcases (start_eq_ok.mp hstart).2.2.2.2.2 with ⟨_, -, _, -, rfl⟩
    exact ⟨rfl, rfl⟩
  have hrules : m.rules = rules := by rw [← hreach, rules_runFor, hbegins.1]
  have hdepth : m.frame.depth ≤ m.rules.limits.stackDepth := by
    rw [← hreach] at hrunning hskipped ⊢
    rw [rules_runFor]
    exact depth_of_runFor hbegins.2 hrunning (List.ne_nil_of_mem hskipped)
  -- At first no block is open but those that are around the program.
  have hblocks : m.frame.blocks = [] ++ m.frame.blocks := rfl
  rcases runFor_skipped hrunning hnext hblocks hskipped hdepth hlevel with
    ⟨instruction, fault, hbarred, hfailed⟩ | ⟨inner, hlength, hrun⟩
  · exact .inl ⟨instruction, fault, hrules ▸ hbarred, hfailed⟩
  · refine .inr (hrun.trans ?_)
    rw [List.eq_nil_of_length_eq_zero hlength, List.nil_append]

/-- A block within a half that is not live, with three halves of its own and another block
    behind it. The code separator in it marks nothing, and nothing returns early. -/
theorem runFor_skipped_block_nested :
    let locking : Script :=
      ⟨[0x00, 0x63, 0x51, 0x63, 0x67, 0xab, 0x67, 0x6a, 0x68, 0x64, 0x68, 0x68, 0x51]⟩
    let program : Program :=
      [⟨0x51, [], 2⟩, ⟨0x63, [], 3⟩, ⟨0x67, [], 4⟩, ⟨0xab, [], 5⟩, ⟨0x67, [], 6⟩, ⟨0x6a, [], 7⟩,
        ⟨0x68, [], 8⟩, ⟨0x64, [], 9⟩, ⟨0x68, [], 10⟩]
    ∃ first, start { flags := ⟨0⟩ } ⟨[]⟩ locking = .ok first ∧
      (runFor 3 first).status = .running ∧ false ∈ (runFor 3 first).frame.blocks ∧
      (runFor 3 first).frame.next = program ++ [⟨0x68, [], 11⟩, ⟨0x51, [], 12⟩] ∧
      program.level? 0 = some 0 ∧
      runFor 9 (runFor 3 first) = { runFor 3 first with
        frame := { (runFor 3 first).frame with
          next := [⟨0x68, [], 11⟩, ⟨0x51, [], 12⟩]
          operations := (runFor 3 first).frame.operations + 8 } } := by
  intro locking program
  -- After three steps the machine stands in a skipped block, and nine steps later it is still
  -- running.
  have hrun : (start { flags := ⟨0⟩ } ⟨[]⟩ locking).toOption.map (fun first =>
      ((runFor 3 first).status, (runFor 3 first).frame.blocks, (runFor 3 first).frame.next,
        (runFor 9 (runFor 3 first)).status))
      = some (.running, [false], program ++ [⟨0x68, [], 11⟩, ⟨0x51, [], 12⟩], .running) := by
    decide +kernel
  rcases hstart : start { flags := ⟨0⟩ } ⟨[]⟩ locking with failure | first
  · rw [hstart] at hrun
    cases hrun
  · rw [hstart] at hrun
    simp only [Except.toOption, Option.map_some, Option.some.injEq, Prod.mk.injEq] at hrun
    rcases hrun with ⟨hrunning, hblocks, hnext, hafter⟩
    have hskipped : false ∈ (runFor 3 first).frame.blocks := by
      rw [hblocks]
      exact List.mem_singleton_self false
    have hlevel : program.level? 0 = some 0 := rfl
    refine ⟨first, rfl, hrunning, hskipped, hnext, hlevel, ?_⟩
    rcases runFor_skipped_block hstart rfl hrunning hskipped hnext hlevel with
      ⟨instruction, fault, _, hfailed⟩ | hpassed
    · cases hafter.symm.trans hfailed
    · exact hpassed

end Machine

end Bitcoin
