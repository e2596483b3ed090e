import Bitcoin.Proofs.Machine.Evaluation

/-!
# Programs That Push

The opcodes up to the one that pushes sixteen do nothing but push, except for one that is
reserved and fails. What they push, or how they fail, depends on the instruction and on
the rules, but not on the frame. So a program of such instructions puts a row of
elements on any stack or on none, and one more instruction at its end puts one more
element on top.

The other instructions are counted before they are performed. Both kinds are described
here for frames in which instructions take effect.

## Main definitions

* `Instruction.pushed`, `Program.pushed`: What is pushed.

## Theorems

* `Instruction.execute_push`, `Instruction.execute_counted`: An instruction that takes
  effect, of either kind.
* `Instruction.pushed_of_minimal`: A payload that is pushed.
* `Program.run_push`, `Program.eval?_push`: Programs that only push.
* `Program.eval?_push_append`: One more push.
-/

namespace Bitcoin

/-- Whether an operation is that of an opcode up to the one that pushes sixteen. -/
def Operation.isPush : Operation → Bool
  | .pushData | .pushNumber _ | .reserved => true
  | _ => false

-- What holds of every number up to a bound holds of every opcode up to it.
theorem Opcode.of_le {p : UInt8 → Prop} {bound op : UInt8} (h : op ≤ bound)
    (hall : ∀ n < bound.toNat + 1, p (UInt8.ofNat n)) : p op := by
  have hop := hall op.toNat (Nat.lt_succ_of_le (UInt8.le_iff_toNat_le.mp h))
  rwa [UInt8.ofNat_toNat] at hop

-- And what holds of every number that is a byte holds of every opcode.
theorem Opcode.of_all {p : UInt8 → Prop} (op : UInt8) (hall : ∀ n < 256, p (UInt8.ofNat n)) :
    p op := by
  have hop := hall op.toNat op.toNat_lt
  rwa [UInt8.ofNat_toNat] at hop

/-- The opcodes up to the one of sixteen push something, or are reserved. -/
theorem Opcode.isPush_operation {op : UInt8} (h : op ≤ Opcode.sixteen) :
    (Opcode.operation op).isPush = true :=
  of_le (p := fun op => (operation op).isPush = true) h (by decide +kernel)

/-- The first of them push bytes. -/
theorem Opcode.operation_eq_pushData {op : UInt8} (h : op ≤ Opcode.pushData4) :
    Opcode.operation op = .pushData :=
  of_le (p := fun op => operation op = .pushData) h (by decide +kernel)

/-- A push is minimal if the shortest form of its data admits its opcode. -/
theorem Instruction.requireMinimal_eq_ok {instruction : Instruction} :
    instruction.requireMinimal = .ok () ↔
      (PushForm.shortest instruction.data).admits instruction.op = true := by
  rw [requireMinimal]
  by_cases h : (PushForm.shortest instruction.data).admits instruction.op = true
  · rw [if_pos h]
    exact ⟨fun _ => h, fun _ => rfl⟩
  · rw [if_neg h]
    exact ⟨nofun, fun hc => absurd hc h⟩

theorem PushForm.shortest_of_length {data : Bytes} (h : data.length ≠ 1) :
    shortest data = ofLength data.length := by
  rw [shortest.eq_def]
  split
  · exact absurd rfl h
  · rfl

/-- The element that an instruction pushes, if it is one that pushes. -/
def Instruction.pushed (rules : Rules) (instruction : Instruction) : Except Fault Bytes := do
  let limit := rules.limits.elementSize
  if limit < instruction.data.length then throw (.elementTooBig instruction.data.length limit)
  match instruction.operation with
  | .pushData =>
    if rules.has .minimalData then instruction.requireMinimal
    return instruction.data
  | .pushNumber n => return Number.encode n
  | _ => throw (.reservedOpcode instruction.op)

section
variable {rules : Rules} {instruction : Instruction} {program rest : Program}
  {frame frame' : Frame}

/-- Outside of blocks that are skipped, an instruction is performed. -/
theorem Instruction.perform_of_live (hlive : frame.isLive = true) :
    (do
      if (← get).isLive ∨ instruction.operation.isConditional then instruction.perform rules :
      Exec Unit) frame = instruction.perform rules frame := by
  change (if frame.isLive = true ∨ _ then _ else _ : Exec Unit) frame = _
  rw [if_pos (.inl hlive)]

/-- Where it takes effect, an instruction that pushes does just that. -/
theorem Instruction.execute_push (hop : instruction.op ≤ Opcode.sixteen)
    (hlive : frame.isLive = true) :
    instruction.execute rules frame = match instruction.pushed rules with
      | .ok element => .ok () { frame with stack := element :: frame.stack }
      | .error fault => .error fault frame := by
  have hcounts : ¬Opcode.sixteen < instruction.op := UInt8.not_lt.mpr hop
  have hpush : instruction.operation.isPush = true := Opcode.isPush_operation hop
  have henabled : instruction.operation ≠ .disabled := by
    intro hdisabled
    rw [hdisabled] at hpush
    exact absurd hpush Bool.false_ne_true
  rw [execute, pushed]
  by_cases hsize : rules.limits.elementSize < instruction.data.length
  · rw [if_pos hsize, if_pos hsize]
    rfl
  · rw [if_neg hsize, if_neg hsize, if_neg hcounts, if_neg henabled]
    refine (perform_of_live hlive).trans ?_
    rw [perform]
    -- Bytes may be refused for their form, and a reserved opcode is refused always.
    cases hoperation : instruction.operation with
    | pushData =>
        by_cases hminimal : rules.has .minimalData = true
        · simp only [pushData, if_pos hminimal]
          rcases instruction.requireMinimal with fault | _
          · rfl
          · rfl
        · simp only [pushData, if_neg hminimal]
          rfl
    | pushNumber n => rfl
    | reserved => rfl
    | _ =>
        rw [hoperation] at hpush
        exact absurd hpush Bool.false_ne_true

/-- Where it takes effect, any other instruction is counted and performed. -/
theorem Instruction.execute_counted (hop : Opcode.sixteen < instruction.op)
    (henabled : instruction.operation ≠ .disabled)
    (hsize : instruction.data.length ≤ rules.limits.elementSize) (hlive : frame.isLive = true)
    (hlimit : frame.operations + 1 ≤ rules.limits.operations) :
    instruction.execute rules frame =
      instruction.perform rules { frame with operations := frame.operations + 1 } := by
  have hlive' : { frame with operations := frame.operations + 1 }.isLive = true := hlive
  rw [execute, if_neg (Nat.not_lt.mpr hsize), if_pos hop]
  refine (Steps.bind_ok (Exec.countOperations_ok hlimit)).trans ?_
  rw [if_neg henabled]
  exact perform_of_live hlive'

/-- A payload is pushed if it is not too long and, where that matters, has its shortest
    form. -/
theorem Instruction.pushed_of_minimal (hoperation : instruction.operation = .pushData)
    (hsize : instruction.data.length ≤ rules.limits.elementSize)
    (hminimal : rules.has .minimalData = true → instruction.requireMinimal = .ok ()) :
    instruction.pushed rules = .ok instruction.data := by
  rw [pushed, if_neg (Nat.not_lt.mpr hsize), hoperation]
  by_cases hflag : rules.has .minimalData = true
  · simp only [if_pos hflag, hminimal hflag]
    rfl
  · simp only [if_neg hflag]
    rfl

/-- A push puts its element on the stack, if there is room for one more. -/
theorem Instruction.advance_push_eq_ok (rest : Program) (hop : instruction.op ≤ Opcode.sixteen)
    (hlive : frame.isLive = true) :
    instruction.advance rules rest frame = .ok () frame' ↔
      ∃ element, instruction.pushed rules = .ok element ∧
        frame.depth + 1 ≤ rules.limits.stackDepth ∧
        frame' = { frame with stack := element :: frame.stack, next := rest } := by
  have hlive' : { frame with next := rest }.isLive = true := hlive
  rw [advance_eq_ok, execute_push hop hlive']
  rcases instruction.pushed rules with fault | element
  · simp
  · have hdepth : ({ frame with stack := element :: frame.stack, next := rest } : Frame).depth
        = frame.depth + 1 := by
      simp only [Frame.depth, List.length_cons]
      omega
    constructor
    · rintro ⟨hframe, hlimit⟩
      cases hframe
      exact ⟨element, rfl, hdepth ▸ hlimit, rfl⟩
    · rintro ⟨_, helement, hlimit, rfl⟩
      cases helement
      exact ⟨rfl, hdepth ▸ hlimit⟩

namespace Program

/-- The elements that a program pushes, first pushed first, if it is one that only pushes. -/
def pushed (rules : Rules) (program : Program) : Except Fault (List Bytes) :=
  program.mapM (Instruction.pushed rules)

theorem pushed_nil_eq_ok {elements : List Bytes} :
    pushed rules [] = .ok elements ↔ elements = [] :=
  ⟨fun h => (Except.ok.inj h).symm, fun h => congrArg Except.ok h.symm⟩

/-- What a program of pushes puts on the stack, one instruction at a time. -/
theorem pushed_cons_eq_ok {elements : List Bytes} :
    pushed rules (instruction :: rest) = .ok elements ↔ ∃ element others,
      instruction.pushed rules = .ok element ∧ pushed rules rest = .ok others ∧
      elements = element :: others := by
  rw [pushed, List.mapM_cons, Result.bind_eq_ok]
  constructor
  · rintro ⟨element, helement, hothers⟩
    rcases Result.bind_eq_ok.mp hothers with ⟨others, hrest, hcons⟩
    cases hcons
    exact ⟨element, others, helement, hrest, rfl⟩
  · rintro ⟨element, others, helement, hrest, rfl⟩
    exact ⟨element, helement, Result.bind_eq_ok.mpr ⟨others, hrest, rfl⟩⟩

/-- A program that only pushes runs to its end if none of its instructions fails and the
    stacks do not get too deep, and what it pushes lies on the stack then. -/
theorem run_push {last : Stack} (hops : ∀ instruction ∈ program, instruction.op ≤ Opcode.sixteen)
    (hblocks : frame.blocks = []) :
    (∃ frame', program.run rules frame = .ok () frame' ∧ frame'.blocks = [] ∧
      frame'.stack = last) ↔
    ∃ elements, program.pushed rules = .ok elements ∧ elements.reverse ++ frame.stack = last ∧
      (program = [] ∨ last.length + frame.alt.length ≤ rules.limits.stackDepth) := by
  induction program generalizing frame with
  | nil =>
      constructor
      · rintro ⟨_, hrun, _, rfl⟩
        cases hrun
        exact ⟨[], rfl, rfl, .inl rfl⟩
      · rintro ⟨_, hpushed, rfl, _⟩
        rcases pushed_nil_eq_ok.mp hpushed with rfl
        exact ⟨frame, rfl, hblocks, rfl⟩
  | cons instruction rest ih =>
      have hlive : frame.isLive = true := by rw [Frame.isLive, hblocks, List.all_nil]
      rcases List.forall_mem_cons.mp hops with ⟨hop, hrest⟩
      constructor
      · rintro ⟨frame', hrun, hend, hstack⟩
        rcases run_cons_eq_ok.mp hrun with ⟨between, hadvance, hrun'⟩
        rcases (Instruction.advance_push_eq_ok rest hop hlive).mp hadvance with
          ⟨element, helement, hdepth, rfl⟩
        have ih' := @ih { frame with stack := element :: frame.stack, next := rest } hrest hblocks
        rcases ih'.mp ⟨frame', hrun', hend, hstack⟩ with ⟨others, hothers, hlast, hdeeper⟩
        refine ⟨element :: others, pushed_cons_eq_ok.mpr ⟨element, others, helement, hothers, rfl⟩,
          ?_, .inr ?_⟩
        · rw [← hlast, List.reverse_cons, List.append_assoc, List.singleton_append]
        · rcases hdeeper with rfl | hdeeper
          · -- Nothing follows, so it is this push that makes the stack as deep as it gets.
            rcases pushed_nil_eq_ok.mp hothers with rfl
            have hlength := congrArg List.length hlast
            simp only [List.reverse_nil, List.nil_append, List.length_cons] at hlength
            rw [Frame.depth] at hdepth
            omega
          · exact hdeeper
      · rintro ⟨elements, hpushed, hlast, hdeep⟩
        rcases pushed_cons_eq_ok.mp hpushed with ⟨element, others, helement, hothers, rfl⟩
        rw [List.reverse_cons, List.append_assoc, List.singleton_append] at hlast
        have hlimit := hdeep.resolve_left (List.cons_ne_nil instruction rest)
        -- The stacks only grow, so what is within the limit at the end is so after this push.
        have hdepth : frame.depth + 1 ≤ rules.limits.stackDepth := by
          have hlength := congrArg List.length hlast
          rw [List.length_append, List.length_cons] at hlength
          rw [Frame.depth]
          omega
        have hadvance := (Instruction.advance_push_eq_ok rest hop hlive).mpr
          ⟨element, helement, hdepth, rfl⟩
        have ih' := @ih { frame with stack := element :: frame.stack, next := rest } hrest hblocks
        rcases ih'.mpr ⟨others, hothers, hlast, .inr hlimit⟩ with ⟨frame', hrun, hend, hstack⟩
        exact ⟨frame', run_cons_eq_ok.mpr ⟨_, hadvance, hrun⟩, hend, hstack⟩

/-- What a program that only pushes leaves of a stack. -/
theorem eval?_push {stack last : Stack}
    (hops : ∀ instruction ∈ program, instruction.op ≤ Opcode.sixteen) :
    program.eval? rules stack = some last ↔
      ∃ elements, program.pushed rules = .ok elements ∧ elements.reverse ++ stack = last ∧
        (program = [] ∨ last.length ≤ rules.limits.stackDepth) :=
  (eval?_eq_some []).trans (run_push hops rfl)

/-- One more push at the end of a program leaves one more element on top. -/
theorem eval?_push_append {stack last : Stack}
    (hops : ∀ instruction ∈ program, instruction.op ≤ Opcode.sixteen)
    (hop : instruction.op ≤ Opcode.sixteen) :
    eval? rules (program ++ [instruction]) stack = some last ↔
      ∃ element first, instruction.pushed rules = .ok element ∧
        program.eval? rules stack = some first ∧ element :: first = last ∧
        last.length ≤ rules.limits.stackDepth := by
  have hops' : ∀ found ∈ program ++ [instruction], found.op ≤ Opcode.sixteen :=
    List.forall_mem_append.mpr ⟨hops, List.forall_mem_singleton.mpr hop⟩
  rw [eval?_push hops', pushed, List.mapM_append]
  constructor
  · rintro ⟨elements, hpushed, rfl, hdeep⟩
    rcases Result.bind_eq_ok.mp hpushed with ⟨others, hothers, hrest⟩
    rcases Result.bind_eq_ok.mp hrest with ⟨single, hsingle, helements⟩
    rcases pushed_cons_eq_ok.mp hsingle with ⟨element, none, helement, hnone, rfl⟩
    rcases pushed_nil_eq_ok.mp hnone with rfl
    cases helements
    -- The depth is greatest at the end, so the limit is kept before that too.
    have hlimit := hdeep.resolve_left (by simp)
    rw [List.reverse_append, List.reverse_singleton, List.singleton_append, List.cons_append]
      at hlimit ⊢
    have hshorter : (others.reverse ++ stack).length ≤ rules.limits.stackDepth := by
      rw [List.length_cons] at hlimit
      omega
    exact ⟨element, _, helement, (eval?_push hops).mpr ⟨others, hothers, rfl, .inr hshorter⟩, rfl,
      hlimit⟩
  · rintro ⟨element, first, helement, heval, rfl, hlimit⟩
    rcases (eval?_push hops).mp heval with ⟨others, hothers, rfl, _⟩
    refine ⟨others ++ [element], ?_, by simp, .inr hlimit⟩
    refine Result.bind_eq_ok.mpr ⟨others, hothers, Result.bind_eq_ok.mpr ⟨[element], ?_, rfl⟩⟩
    exact pushed_cons_eq_ok.mpr ⟨element, [], helement, pushed_nil_eq_ok.mpr rfl, rfl⟩

end Program

end

end Bitcoin
