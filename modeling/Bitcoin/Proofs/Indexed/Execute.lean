import Bitcoin.Proofs.Indexed.Signatures
import Bitcoin.Proofs.Machine.Evaluation

/-!
# Instructions by Position

One instruction of the running script is executed in the state that is kept with
positions, and the depth of the stacks is checked behind it. What it needs of its place
is that there is a script of that number.

## Main definitions

* `Indexed.perform`, `Indexed.execute`: What an instruction does.
* `Indexed.advance`: An instruction with the check of the depth behind it.

## Theorems

* `Indexed.mirrors_perform`, `Indexed.mirrors_execute`: What an instruction does is seen in
  the frame.
* `Indexed.seen_advance`: So is what it does with the check behind it.
-/

namespace Bitcoin.Indexed

open Access

/-- Pushes the payload of an instruction. -/
def pushData (rules : Rules) (instruction : Instruction) : StoreM Unit := do
  if rules.has .minimalData then lift (requireMinimal instruction)
  Items.push instruction.data

/-- What an instruction does where it takes effect. -/
def perform (rules : Rules) (place : Place) (instruction : Instruction) : StoreM Unit :=
  match instruction.operation with
  | .pushData => pushData rules instruction
  | .pushNumber n => Items.pushNumber n
  | .flow op => flow rules instruction.op op
  | .stack op => shuffle rules op
  | .size => Items.pushSize
  | .equal => Items.pushEqual
  | .equalVerify => do
    Items.pushEqual
    verifyTop .equal
  | .arithmetic op => arithmetic rules op
  | .crypto op => crypto rules place op
  | .lockTime op => lockTime rules op
  | .upgradableNop =>
    if rules.has .discourageNops then
      throw (.fault (.discouragedNop (instruction.op.toNat - 0xaf)))
    else return ()
  | .disabled => throw (.fault (.disabledOpcode instruction.op))
  | .reserved => throw (.fault (.reservedOpcode instruction.op))
  | .invalid => throw (.fault (.invalidOpcode instruction.op))

/-- What an instruction does. -/
def execute (rules : Rules) (place : Place) (instruction : Instruction) : StoreM Unit := do
  let limit := rules.limits.elementSize
  if limit < instruction.data.length then
    throw (.fault (.elementTooBig instruction.data.length limit))
  if Opcode.sixteen < instruction.op then countOperations rules 1
  if instruction.operation = .disabled then throw (.fault (.disabledOpcode instruction.op))
  if (← get).blocks.all id ∨ instruction.operation.isConditional then
    perform rules place instruction

/-- Refuses stacks that are too deep. -/
def checkDepth (rules : Rules) : StoreM Unit := do
  let store ← get
  let depth := store.items.length + store.alt.length
  let limit := rules.limits.stackDepth
  if limit < depth then throw (.fault (.stackTooDeep depth limit))

/-- An instruction with the check of the depth behind it. -/
def advance (rules : Rules) (place : Place) (instruction : Instruction) : StoreM Unit := do
  execute rules place instruction
  checkDepth rules

section
variable {place : Place} {rules : Rules}

theorem mirrors_pushData (instruction : Instruction) :
    Mirrors (Store.frame place) (pushData rules instruction) (instruction.pushData rules) :=
  .ite (fun _ => (mirrors_lift (agrees_requireMinimal instruction)).bind fun _ =>
    mirrors_onItems (Items.mirrors_push _)) fun _ => mirrors_onItems (Items.mirrors_push _)

/-- Each kind of instruction does the same on both sides. -/
theorem mirrors_perform (h : place.script < place.scripts.length) (instruction : Instruction) :
    Mirrors (Store.frame place) (perform rules place instruction)
      (instruction.perform rules) := by
  rw [perform, Instruction.perform]
  -- One case for each kind, by what has been shown of its operations.
  cases instruction.operation with
  | pushData => exact mirrors_pushData instruction
  | pushNumber n => exact mirrors_onItems (Items.mirrors_pushNumber n)
  | flow op => exact mirrors_flow _ op
  | stack op => exact mirrors_shuffle op
  | size => exact mirrors_onItems Items.mirrors_pushSize
  | equal => exact mirrors_onItems Items.mirrors_pushEqual
  | equalVerify =>
      exact (mirrors_onItems Items.mirrors_pushEqual).bind fun _ => mirrors_verifyTop _
  | arithmetic op => exact mirrors_arithmetic op
  | crypto op => exact mirrors_crypto h op
  | lockTime op => exact mirrors_lockTime op
  | upgradableNop => exact .ite (fun _ => .throw _) fun _ => .pure ()
  | disabled | reserved | invalid => exact .throw _

/-- With the limits and the count of operations around it, an instruction still does the same. -/
theorem mirrors_execute (h : place.script < place.scripts.length) (instruction : Instruction) :
    Mirrors (Store.frame place) (execute rules place instruction)
      (instruction.execute rules) := by
  have hperform : Mirrors (Store.frame place)
      (do if (← get).blocks.all id ∨ instruction.operation.isConditional then
            perform rules place instruction)
      (do if (← get).isLive ∨ instruction.operation.isConditional then
            instruction.perform rules) :=
    .read fun _ => .ite (fun _ => mirrors_perform h instruction) fun _ => .pure ()
  refine .guard fun _ => .ite (fun _ => ?_) fun _ => .guard fun _ => hperform
  exact (mirrors_countOperations 1).bind fun _ => .guard fun _ => hperform

theorem mirrors_checkDepth :
    Mirrors (Store.frame place) (checkDepth rules)
      (do Exec.lift (Machine.checkDepth rules (← get))) := by
  refine .read fun store => ?_
  have hdepth : (store.frame place).depth = store.items.length + store.alt.length := by
    rw [Frame.depth, Store.frame, List.length_reverse, List.length_reverse]
  rw [Machine.checkDepth, hdepth]
  by_cases h : rules.limits.stackDepth < store.items.length + store.alt.length
  · rw [if_pos h, if_pos h]
    exact .throw _
  · rw [if_neg h, if_neg h]
    exact .pure ()

/-- An instruction with the check behind it, in a frame that is seen in the state once the
    rest of the script has been set. -/
theorem seen_advance (h : place.script < place.scripts.length) (instruction : Instruction)
    {store : Store} {frame : Frame}
    (hframe : { frame with next := place.program.drop (place.offset + 1) } = store.frame place) :
    seen (Store.frame place) (advance rules place instruction store) =
      some (instruction.advance rules (place.program.drop (place.offset + 1)) frame) := by
  have hrun : instruction.advance rules (place.program.drop (place.offset + 1)) frame =
      (do
        instruction.execute rules
        Exec.lift (Machine.checkDepth rules (← get))) (store.frame place) :=
    hframe ▸ Steps.bind_ok rfl
  rw [hrun]
  exact (mirrors_execute h instruction).bind (fun _ => mirrors_checkDepth) store

end

end Bitcoin.Indexed
