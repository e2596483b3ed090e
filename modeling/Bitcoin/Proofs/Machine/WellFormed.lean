import Bitcoin.Proofs.Machine.Rounds

/-!
# What Success Says About Scripts

A run that succeeds has seen every instruction of every script, those that took no
effect too, since a half of a block that is not live is passed over one instruction at
a time. So some things hold of the scripts as they are written: nothing in them is
disabled, there are not too many operations and no pushes that are too long, and
blocks are well nested within each script.

The machine knows only how many blocks are open. A program that starts with some
open blocks and ends with none closes them one after the other, and what stands
before, between and behind these ends is well nested by itself. That is what is
proved by induction, from the last instruction to the first: an instruction that opens
a block is matched with the first of these ends.

## Main definitions

* `Program.Nested`: Blocks in pairs.
* `Program.Closes`: Well nested but for some blocks that are open before.
* `Program.WellFormed`, `Script.WellFormed`: What holds of scripts that succeed.

## Theorems

* `Program.Closes.open`: An instruction that opens a block.
* `Program.closes_of_run`: Blocks of a program that runs to its end.
* `Program.operations_of_run`: Its operations.
* `Program.wellFormed_of_eval?`: A program that evaluates is well formed.
* `Machine.wellFormed_of_success`: What success guarantees.
-/

namespace Bitcoin

/-- Blocks are opened and closed in pairs, one within another or one after another, and each
    turn to another half lies in a block. The flag tells whether there is a block around
    the whole. -/
inductive Program.Nested : (inside : Bool) → Program → Prop
  | nil {inside : Bool} : Nested inside []
  | plain {inside : Bool} {instruction : Instruction} {rest : Program}
      (h : instruction.operation.isConditional = false) (hrest : Nested inside rest) :
      Nested inside (instruction :: rest)
  | turn {instruction : Instruction} {rest : Program}
      (h : instruction.operation = .flow .otherwise) (hrest : Nested true rest) :
      Nested true (instruction :: rest)
  | block {inside : Bool} {first last : Instruction} {body rest : Program}
      (hfirst : first.operation = .flow .ifTrue ∨ first.operation = .flow .ifFalse)
      (hbody : Nested true body) (hlast : last.operation = .flow .endIf)
      (hrest : Nested inside rest) : Nested inside (first :: (body ++ last :: rest))

/-- A program that closes so many blocks that are open before it, and is well nested but for
    that. -/
def Program.Closes : (depth : Nat) → Program → Prop
  | 0, program => Nested false program
  | depth + 1, program => ∃ body last rest, program = body ++ last :: rest ∧ Nested true body ∧
      last.operation = .flow .endIf ∧ Closes depth rest

namespace Program

variable {instruction : Instruction} {rest : Program} {depth : Nat}

/-- An instruction that is no part of a block changes no depth. -/
theorem Closes.plain (h : instruction.operation.isConditional = false)
    (hrest : Closes depth rest) : Closes depth (instruction :: rest) := by
  cases depth with
  | zero => exact .plain h hrest
  | succ depth =>
      rcases hrest with ⟨body, last, after, rfl, hbody, hlast, hafter⟩
      exact ⟨instruction :: body, last, after, rfl, .plain h hbody, hlast, hafter⟩

theorem Closes.turn (h : instruction.operation = .flow .otherwise)
    (hrest : Closes (depth + 1) rest) : Closes (depth + 1) (instruction :: rest) := by
  rcases hrest with ⟨body, last, after, rfl, hbody, hlast, hafter⟩
  exact ⟨instruction :: body, last, after, rfl, .turn h hbody, hlast, hafter⟩

theorem Closes.close (h : instruction.operation = .flow .endIf) (hrest : Closes depth rest) :
    Closes (depth + 1) (instruction :: rest) :=
  ⟨[], instruction, rest, rfl, .nil, h, hrest⟩

-- What closes a block more than there are before it closes one that it opens first.
theorem Closes.open
    (h : instruction.operation = .flow .ifTrue ∨ instruction.operation = .flow .ifFalse)
    (hrest : Closes (depth + 1) rest) : Closes depth (instruction :: rest) := by
  rcases hrest with ⟨body, last, after, rfl, hbody, hlast, hafter⟩
  cases depth with
  | zero => exact .block h hbody hlast hafter
  | succ depth =>
      -- The new block and what follows it are the body of the block around them.
      rcases hafter with ⟨body', last', after', rfl, hbody', hlast', hafter'⟩
      have hnested := Nested.block h hbody hlast hbody'
      refine ⟨instruction :: (body ++ last :: body'), last', after', ?_, hnested, hlast', hafter'⟩
      simp only [List.cons_append, List.append_assoc]

/-- What holds of every instruction of a program that succeeds, whether it takes effect or
    not. -/
structure WellFormed (rules : Rules) (program : Program) : Prop where
  /-- No opcode is disabled. -/
  enabled : ∀ instruction ∈ program, instruction.operation ≠ .disabled
  /-- No block depends on the software version. -/
  versionless : ∀ instruction ∈ program,
    instruction.operation ≠ .flow .ifVersion ∧ instruction.operation ≠ .flow .ifNotVersion
  /-- There are not too many operations. -/
  operations : (program.countP fun instruction => Opcode.sixteen < instruction.op)
    ≤ rules.limits.operations
  /-- No push is too long. -/
  pushes : ∀ instruction ∈ program, instruction.data.length ≤ rules.limits.elementSize
  /-- Blocks are well nested. -/
  nested : Nested false program

variable {rules : Rules} {program : Program} {frame frame' : Frame}

/-- A program that runs to its end and leaves no block open closes what was open before. -/
theorem closes_of_run (h : program.run rules frame = .ok () frame') (hend : frame'.blocks = []) :
    Closes frame.blocks.length program := by
  induction program generalizing frame with
  | nil =>
      cases h
      rw [hend]
      exact .nil
  | cons instruction rest ih =>
      rcases run_cons_eq_ok.mp h with ⟨between, hadvance, hrest⟩
      have hdone := Instruction.done_of_execute (Instruction.advance_eq_ok.mp hadvance).1
      -- The rest closes what is open after this instruction.
      have hcloses := ih hrest
      by_cases hconditional : instruction.operation.isConditional = true
      · -- Each of the conditional operations changes the blocks in a way of its own.
        have hturns := hdone.blocks
        cases hoperation : instruction.operation with
        | flow op =>
            rw [hoperation] at hturns hconditional
            cases op with
            | ifTrue =>
                rcases hturns with ⟨live, hblocks⟩
                rw [hblocks] at hcloses
                exact hcloses.open (.inl hoperation)
            | ifFalse =>
                rcases hturns with ⟨live, hblocks⟩
                rw [hblocks] at hcloses
                exact hcloses.open (.inr hoperation)
            | ifVersion => exact hturns.elim
            | ifNotVersion => exact hturns.elim
            | otherwise =>
                rcases hturns with ⟨live, outer, hbefore, hafter⟩
                rw [hafter] at hcloses
                rw [hbefore]
                exact hcloses.turn hoperation
            | endIf =>
                rcases hturns with ⟨live, hblocks⟩
                rw [hblocks]
                exact hcloses.close hoperation
            | _ => exact absurd hconditional (by decide)
        | _ => exact absurd hconditional (by rw [hoperation]; exact Bool.false_ne_true)
      · have hplain := Bool.eq_false_iff.mpr hconditional
        rw [(Instruction.turns_iff_eq hplain).mp hdone.blocks] at hcloses
        exact hcloses.plain hplain

/-- The operations of a program that runs to its end are counted on top of those that have
    been counted before, and the count never passes its limit. -/
theorem operations_of_run (h : program.run rules frame = .ok () frame')
    (hsome : 0 < program.countP fun instruction => Opcode.sixteen < instruction.op) :
    frame.operations + (program.countP fun instruction => Opcode.sixteen < instruction.op)
      ≤ rules.limits.operations := by
  induction program generalizing frame with
  | nil => exact absurd hsome (Nat.lt_irrefl 0)
  | cons instruction rest ih =>
      rcases run_cons_eq_ok.mp h with ⟨between, hadvance, hrest⟩
      have hdone := Instruction.done_of_execute (Instruction.advance_eq_ok.mp hadvance).1
      have hmore : frame.operations ≤ between.operations := hdone.operations
      have hrest' := ih hrest
      rw [List.countP_cons] at hsome ⊢
      by_cases hop : Opcode.sixteen < instruction.op
      · have hcounted : frame.operations + 1 ≤ rules.limits.operations ∧
            frame.operations + 1 ≤ between.operations := hdone.counted hop
        rw [if_pos (decide_eq_true hop)]
        -- The last operation of a program has nothing behind it that would be counted.
        rcases Nat.eq_zero_or_pos (rest.countP fun instruction => Opcode.sixteen < instruction.op)
          with hnone | hlater
        · omega
        · have hlimit := hrest' hlater
          omega
      · rw [if_neg (by simpa using hop)] at hsome ⊢
        have hlimit := hrest' hsome
        omega

-- Whatever is checked of each instruction holds of all instructions of a program that runs to
-- its end.
theorem done_of_run (h : program.run rules frame = .ok () frame') :
    ∀ instruction ∈ program, ∃ before after, Instruction.Done rules instruction before after := by
  induction program generalizing frame with
  | nil => exact nofun
  | cons instruction rest ih =>
      rcases run_cons_eq_ok.mp h with ⟨between, hadvance, hrest⟩
      have hdone := Instruction.done_of_execute (Instruction.advance_eq_ok.mp hadvance).1
      intro found hfound
      rcases List.mem_cons.mp hfound with rfl | hfound
      · exact ⟨_, _, hdone⟩
      · exact ih hrest found hfound

/-- A program that evaluates is well formed. -/
theorem wellFormed_of_eval? {stack last : Stack} (h : program.eval? rules stack = some last) :
    WellFormed rules program := by
  rcases (eval?_eq_some []).mp h with ⟨frame, hrun, hblocks, _⟩
  refine ⟨fun instruction hmem => ?_, fun instruction hmem => ?_, ?_, fun instruction hmem => ?_,
    closes_of_run hrun hblocks⟩
  · rcases done_of_run hrun instruction hmem with ⟨before, after, hdone⟩
    exact hdone.enabled
  · rcases done_of_run hrun instruction hmem with ⟨before, after, hdone⟩
    have hturns := hdone.blocks
    constructor
    · intro hversion
      rw [hversion] at hturns
      exact hturns
    · intro hversion
      rw [hversion] at hturns
      exact hturns
  · -- A program without operations is within any limit.
    rcases Nat.eq_zero_or_pos (program.countP fun instruction => Opcode.sixteen < instruction.op)
      with hnone | hsome
    · omega
    · have hlimit := operations_of_run hrun hsome
      omega
  · rcases done_of_run hrun instruction hmem with ⟨before, after, hdone⟩
    exact hdone.size

end Program

/-- What holds of a script that a run that succeeds goes through. -/
structure Script.WellFormed (rules : Rules) (role : Role) (script : Script) : Prop where
  size : script.length ≤ rules.limits.scriptSize
  decodes : ∃ program, Program.parse role script = .ok program ∧ program.WellFormed rules

namespace Machine

variable {rules : Rules} {unlocking locking : Script}

/-- Whatever scripts succeed, each of them is well formed within the limits, the redeem
    script too, and the stack that they leave has a true element on top, and no other
    element if it has to be clean. -/
theorem wellFormed_of_success (h : execute rules unlocking locking = .success) :
    ∃ m, start rules unlocking locking = .ok m ∧ m.run.status = .succeeded ∧
      unlocking.WellFormed rules .unlocking ∧ locking.WellFormed rules .locking ∧
      (rules.has .p2sh = true ∧ locking.isP2SH = true → ∃ redeem rest program,
        m.finishScript.frame.stack = redeem :: rest ∧
        Program.parse .redeem ⟨redeem⟩ = .ok program ∧
        Begins m.finishScript.finishScript rules .redeem rest program ∧
        Script.WellFormed rules .redeem ⟨redeem⟩) ∧
      m.run.frame.stack.EndsTrue ∧
      (rules.has .cleanStack = true → m.run.frame.stack.length = 1) := by
  rcases execute_eq_success.mp h with ⟨m, hstart, last, hevaluates⟩
  rcases start_eq_ok.mp hstart with ⟨_, hunlocking, hlocking, _⟩
  rcases run_of_evaluates hstart hevaluates with ⟨hsucceeded, hstack⟩
  -- Every script that a successful run has met was evaluated to its end.
  rcases hevaluates.scripts with ⟨stack, stack', hfirst, hsecond, _⟩
  refine ⟨m, hstart, hsucceeded, ⟨hunlocking, ?_⟩, ⟨hlocking, ?_⟩, fun hp2sh => ?_, ?_, ?_⟩
  · rcases Script.eval?_eq_some.mp hfirst with ⟨program, hparse, heval⟩
    exact ⟨program, hparse, Program.wellFormed_of_eval? heval⟩
  · rcases Script.eval?_eq_some.mp hsecond with ⟨program, hparse, heval⟩
    exact ⟨program, hparse, Program.wellFormed_of_eval? heval⟩
  · -- The redeem script comes off the stack that the unlocking script has left.
    rcases begins_redeem hstart hp2sh hevaluates with
      ⟨redeem, rest, program, hsaved, hsize, hparse, hbegins, heval⟩
    exact ⟨redeem, rest, program, hsaved, hparse, hbegins, hsize, program, hparse,
      Program.wellFormed_of_eval? heval⟩
  · rw [hstack]
    exact hevaluates.endsTrue
  · rw [hstack]
    exact hevaluates.clean

/-- A payment to the hash of a script that consists of a block, which is found to be well
    formed and leaves a single element. -/
theorem wellFormed_of_success_block :
    let rules : Rules := { flags := ⟨1 ||| 256⟩ }
    let unlocking : Script := ⟨[0x51, 0x05, 0x63, 0x51, 0x67, 0x00, 0x68]⟩
    let locking := Script.p2sh (Hash.hash160 [0x63, 0x51, 0x67, 0x00, 0x68])
    execute rules unlocking locking = .success ∧
      ∃ m, start rules unlocking locking = .ok m ∧ m.run.frame.stack.length = 1 ∧
        ∃ redeem rest, m.finishScript.frame.stack = redeem :: rest ∧
          Script.WellFormed rules .redeem ⟨redeem⟩ := by
  intro rules unlocking locking
  have hsuccess : execute rules unlocking locking = .success := by decide +kernel
  have hp2sh : rules.has .p2sh = true ∧ locking.isP2SH = true := by decide +kernel
  rcases wellFormed_of_success hsuccess with ⟨m, hstart, _, _, _, hredeem, _, hclean⟩
  rcases hredeem hp2sh with ⟨redeem, rest, program, hsaved, _, _, hformed⟩
  exact ⟨hsuccess, m, hstart, hclean (by decide), redeem, rest, hsaved, hformed⟩

end Machine

end Bitcoin
