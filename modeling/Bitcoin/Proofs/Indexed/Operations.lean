import Bitcoin.Proofs.Indexed.Stack
import Bitcoin.Proofs.Machine.Exec
import Bitcoin.Machine.Execute

/-!
# Operations by Position

The state of a running script may be kept without lists that are taken apart. Both stacks
have their tops at the end, the script is one of several and has a number, and what comes
next and what signatures commit to are positions in it. Signatures and keys are matched by
two positions that move on.

The frame of the running script can be seen in such a state, and all operations do to the
one what they do to the other. The accesses of an operation are within their ranges for
reasons of its own: a position was compared with a length, or a number of elements was
taken, or the positions in signatures and keys keep as many keys ahead as signatures.

## Main definitions

* `Indexed.Place`, `Indexed.Store`: Where a script is, and the state of a running one.
* `Indexed.Store.frame`: The frame that is seen in it.
* `Indexed.scriptCode?`, `Indexed.matchFrom`: What positions decide on.
* `Indexed.perform`, `Indexed.execute`: One instruction.

## Theorems

* `Indexed.mirrors_onItems`: From the stack to the state.
* `Indexed.scriptCode?_eq`, `Indexed.mirrors_matchFrom`: The positions are in range.
* `Indexed.mirrors_execute`: One instruction.
-/

namespace Bitcoin.Indexed

open Access

/-- Which of several scripts is running, and the position of the instruction. -/
structure Place where
  scripts : List (Role × Program)
  script : Nat
  offset : Nat

/-- The state of a running script. -/
structure Store where
  /-- The main stack, top last. -/
  items : Items := []
  /-- The alt stack, top last. -/
  alt : Items := []
  /-- The open blocks, innermost first. -/
  blocks : List Bool := []
  operations : Nat := 0
  /-- The position of the first instruction that signatures commit to. -/
  codeStart : Nat := 0
  checks : List SignatureCheck := []

/-- A computation on the state of a running script. -/
abbrev StoreM := EStateM (Stop Fault) Store

/-- The instructions of the script that is running. -/
def Place.program (place : Place) : Program :=
  ((place.scripts[place.script]?).map (·.2)).getD []

/-- The instructions are those of the script that is found. -/
theorem Place.program_eq {place : Place} {role : Role} {program : Program}
    (h : place.scripts[place.script]? = some (role, program)) : place.program = program := by
  rw [Place.program, h]
  rfl

/-- The frame that is seen in a state during the instruction at a position. -/
def Store.frame (place : Place) (store : Store) : Frame where
  stack := store.items.reverse
  alt := store.alt.reverse
  blocks := store.blocks
  operations := store.operations
  -- The frame keeps what stands behind a position and not the position.
  signed := place.program.drop store.codeStart
  next := place.program.drop (place.offset + 1)
  checks := store.checks

/-- A computation on the main stack. -/
def onItems {α : Type} (action : ItemsM α) : StoreM α := fun store =>
  match action store.items with
  | .ok value items => .ok value { store with items }
  | .error stop items => .error stop { store with items }

instance : MonadLift ItemsM StoreM := ⟨onItems⟩

/-- The result of a computation that needs no state. -/
def lift {α : Type} (result : Except (Stop Fault) α) : StoreM α :=
  match result with
  | .ok value => return value
  | .error stop => throw stop

/-- The result of a computation that needs no state and makes no accesses. -/
def ofResult {α : Type} (result : Except Fault α) : StoreM α :=
  lift (result.mapError .fault)

/-- Counts operations against their limit. -/
def countOperations (rules : Rules) (count : Nat) : StoreM Unit := do
  modify fun store => { store with operations := store.operations + count }
  if rules.limits.operations < (← get).operations then
    throw (.fault (.tooManyOperations rules.limits.operations))

/-- Removes the top element and fails unless it is true. -/
def verifyTop (check : Check) : StoreM Unit := do
  let passed ← Items.popBool
  if !passed then throw (.fault (.failedCheck check))

/-- The context, where there is one. -/
def context (rules : Rules) (use : TransactionUse) : StoreM Context :=
  match rules.context? with
  | some context => return context
  | none => throw (.fault (.noTransaction use))

section
variable {place : Place} {rules : Rules} {α : Type}

/-- What is done to the main stack is seen in the frame. -/
theorem mirrors_onItems {action : ItemsM α} {action' : StackM α}
    (h : Mirrors List.reverse action action') :
    Mirrors (Store.frame place) (onItems action) (Exec.onStack action') := by
  intro store
  have hitems := h store.items
  have hstack : (store.frame place).stack = store.items.reverse := rfl
  rw [onItems, Exec.onStack, hstack]
  -- The rest of the store is not touched, whatever the action gives.
  rcases hresult : action store.items with ⟨value, items⟩ | ⟨_ | fault, items⟩
  · rw [hresult] at hitems
    rw [← Option.some.inj hitems]
    rfl
  · rw [hresult] at hitems
    cases hitems
  · rw [hresult] at hitems
    rw [← Option.some.inj hitems]
    rfl

/-- What does not look at the store does the same. -/
theorem mirrors_lift {x : Except (Stop Fault) α} {y : Except Fault α} (h : Agrees x y) :
    Mirrors (Store.frame place) (lift x) (Exec.lift y) := by
  obtain rfl : x = y.mapError .fault := h
  rcases y with fault | value
  · exact .throw fault
  · exact .pure value

theorem mirrors_ofResult (result : Except Fault α) :
    Mirrors (Store.frame place) (ofResult result) (Exec.lift result) :=
  mirrors_lift rfl

theorem mirrors_countOperations (count : Nat) :
    Mirrors (Store.frame place) (countOperations rules count)
      (Exec.countOperations rules count) :=
  .bind (.update fun _ => rfl) fun _ => .read fun _ =>
    .ite (fun _ => .throw _) fun _ => .pure ()

theorem mirrors_verifyTop (check : Check) :
    Mirrors (Store.frame place) (verifyTop check) (Exec.verifyTop check) :=
  (mirrors_onItems Items.mirrors_popBool).bind fun _ => .ite (fun _ => .throw _) fun _ => .pure ()

theorem mirrors_context (use : TransactionUse) :
    Mirrors (Store.frame place) (context rules use) (Exec.context rules use) := by
  rw [context, Exec.context]
  rcases rules.context? with _ | found
  · exact .throw _
  · exact .pure found

end

/-- Takes the number of an element from the stack. -/
def popIndex (rules : Rules) : StoreM Nat := do
  let index := Number.clamp 0x80000000 (← Items.popNumber rules.numbers)
  if index < 0 then throw (.fault (.negativeIndex index))
  return index.toNat

/-- Moves the top element to the alt stack. -/
def toAlt : StoreM Unit := do
  let element ← Items.pop
  modify fun store => { store with alt := store.alt ++ [element] }

/-- Removes the top element of the alt stack. -/
def popAlt : StoreM Bytes := fun store =>
  match Items.pop store.alt with
  | .ok element alt => .ok element { store with alt }
  | .error .outOfRange alt => .error .outOfRange { store with alt }
  | .error (.fault _) alt => .error (.fault .altStackEmpty) { store with alt }

/-- Moves the top element of the alt stack back. -/
def fromAlt : StoreM Unit := do
  Items.push (← popAlt)

/-- Copies the top element if it is true. -/
def dupIfTrue : ItemsM Unit := do
  let element ← Items.peek 0
  if ← need (isTrue? element) then Items.push element

/-- What an operation on the stack does. -/
def shuffle (rules : Rules) : StackOp → StoreM Unit
  | .toAlt => toAlt
  | .fromAlt => fromAlt
  | .drop2 => Items.drop 2
  | .dup2 => Items.dup 2
  | .dup3 => Items.dup 3
  | .over2 => Items.copyOver 2
  | .rot2 => Items.rot 2
  | .swap2 => Items.swap 2
  | .dupIfTrue => dupIfTrue
  | .depth => do Items.pushNumber (← get).items.length
  | .drop => Items.drop 1
  | .dup => Items.dup 1
  | .nip => discard (Items.nip 1 : StoreM Bytes)
  | .over1 => Items.copyOver 1
  | .pick => do Items.pick (← popIndex rules)
  | .roll => do Items.roll (← popIndex rules)
  | .rot => Items.rot 1
  | .swap => Items.swap 1
  | .tuck => Items.tuck

section
variable {place : Place} {rules : Rules}

theorem mirrors_popIndex :
    Mirrors (Store.frame place) (popIndex rules) (Shuffle.popIndex rules) :=
  (mirrors_onItems (Items.mirrors_popNumber _)).bind fun _ => .guard fun _ => .pure _

-- The alt stack is one as well, and nothing but its emptiness is told in another way.
theorem mirrors_fromAlt : Mirrors (Store.frame place) fromAlt Shuffle.fromAlt := by
  intro store
  have hpop : seen List.reverse (Items.pop store.alt) = some (Stack.nip 0 store.alt.reverse) :=
    Items.mirrors_nip 0 store.alt
  have halt : (store.frame place).alt = store.alt.reverse := rfl
  rw [Shuffle.fromAlt, halt]
  rcases hresult : Items.pop store.alt with ⟨element, alt⟩ | ⟨_ | fault, alt⟩
  all_goals rw [hresult] at hpop
  · -- The element goes from the end of one list to the end of the other.
    have htaken : popAlt store = .ok element { store with alt } := by rw [popAlt, hresult]
    rw [fromAlt, Steps.bind_ok htaken]
    rcases hreverse : store.alt.reverse with _ | ⟨top, below⟩
    all_goals rw [hreverse] at hpop
    all_goals cases hpop
    change some (EStateM.Result.ok () (Store.frame place _)) = _
    rw [Store.frame, List.reverse_concat]
    rfl
  · cases hpop
  · have hrefused : popAlt store = .error (.fault .altStackEmpty) { store with alt } := by
      rw [popAlt, hresult]
    rw [fromAlt, Steps.bind_error hrefused]
    rcases hreverse : store.alt.reverse with _ | ⟨top, below⟩
    all_goals rw [hreverse] at hpop
    · have hempty : alt.reverse = store.alt.reverse :=
        (EStateM.Result.error.inj (Option.some.inj hpop)).2.trans hreverse.symm
      change some (EStateM.Result.error _ (Store.frame place _)) = _
      rw [Store.frame, hempty]
      rfl
    · cases hpop

theorem mirrors_toAlt : Mirrors (Store.frame place) toAlt Shuffle.toAlt :=
  (mirrors_onItems (Items.mirrors_nip 0)).bind fun _ => .update fun store => by
    rw [Store.frame, List.reverse_concat]
    rfl

/-- Each operation on the stack does the same on both sides. -/
theorem mirrors_shuffle (op : StackOp) :
    Mirrors (Store.frame place) (shuffle rules op) (Shuffle.execute rules op) := by
  cases op with
  | toAlt => exact mirrors_toAlt
  | fromAlt => exact mirrors_fromAlt
  -- These apply their own counts, which are one, two or three, so no product runs over.
  | drop2 | drop => exact mirrors_onItems (Items.mirrors_drop _)
  | dup2 | dup3 | dup => exact mirrors_onItems (Items.mirrors_dup (by decide))
  | over2 | over1 => exact mirrors_onItems (Items.mirrors_copyOver (by decide) (by decide))
  | rot2 | rot => exact mirrors_onItems (Items.mirrors_rot (by decide) (by decide))
  | swap2 | swap => exact mirrors_onItems (Items.mirrors_swap (by decide) (by decide))
  | dupIfTrue =>
      exact mirrors_onItems <| (Items.mirrors_peek 0).bind fun element =>
        .need (isTrue?_eq element) <| .ite (fun _ => Items.mirrors_push _) fun _ => .pure ()
  | depth =>
      refine .read fun store => ?_
      rw [Store.frame, List.length_reverse]
      exact mirrors_onItems (Items.mirrors_pushNumber _)
  | nip => exact (mirrors_onItems (Items.mirrors_nip 1)).bind fun _ => .pure ()
  | pick => exact mirrors_popIndex.bind fun _ => mirrors_onItems (Items.mirrors_pick _)
  | roll => exact mirrors_popIndex.bind fun _ => mirrors_onItems (Items.mirrors_roll _)
  | tuck => exact mirrors_onItems Items.mirrors_tuck

end

/-- Takes a condition from the stack. -/
def popCondition (rules : Rules) (op : UInt8) : StoreM Bool := do
  if (← get).items.isEmpty then throw (.fault (.noBlock op))
  let element ← Items.pop
  let unclear ← need (isUnclear? rules element)
  if unclear then throw (.fault (.unclearCondition op element))
  need (isTrue? element)

/-- Opens a block whose first half is live for the given condition. -/
def openBlock (rules : Rules) (op : UInt8) (wanted : Bool) : StoreM Unit := do
  let live ←
    if (← get).blocks.all id then
      pure ((← popCondition rules op) == wanted)
    else pure false
  modify fun store => { store with blocks := live :: store.blocks }

/-- Turns to the other half of the innermost block. -/
def turn (op : UInt8) : StoreM Unit := fun store =>
  match store.blocks with
  | [] => .error (.fault (.noBlock op)) store
  | live :: outer => .ok () { store with blocks := (!live) :: outer }

/-- Closes the innermost block. -/
def close (op : UInt8) : StoreM Unit := fun store =>
  match store.blocks with
  | [] => .error (.fault (.noBlock op)) store
  | _ :: outer => .ok () { store with blocks := outer }

/-- What an operation on the flow does. -/
def flow (rules : Rules) (op : UInt8) : FlowOp → StoreM Unit
  | .nop => return ()
  | .ifTrue => openBlock rules op true
  | .ifFalse => openBlock rules op false
  | .ifVersion | .ifNotVersion => throw (.fault (.versionBlock op))
  | .otherwise => turn op
  | .endIf => close op
  | .verify => verifyTop .verify
  | .earlyReturn => throw (.fault .earlyReturn)

section
variable {place : Place} {rules : Rules}

/-- The same element decides on a block. -/
theorem mirrors_popCondition (op : UInt8) :
    Mirrors (Store.frame place) (popCondition rules op) (Flow.popCondition rules op) := by
  refine .read fun store => ?_
  rw [Store.frame, List.isEmpty_reverse]
  refine .guard fun _ => (mirrors_onItems (Items.mirrors_nip 0)).bind fun element => ?_
  refine .need (isUnclear?_eq rules element) ?_
  simp only [decide_eq_true_eq]
  exact .guard fun _ => .found (isTrue?_eq element)

theorem mirrors_openBlock (op : UInt8) (wanted : Bool) :
    Mirrors (Store.frame place) (openBlock rules op wanted) (Flow.openBlock rules op wanted) := by
  have hopen (live : Bool) : Mirrors (Store.frame place)
      (modify fun store => { store with blocks := live :: store.blocks } : StoreM Unit)
      (modify fun frame => { frame with blocks := live :: frame.blocks }) :=
    .update fun _ => rfl
  exact .read fun _ => .ite (fun _ => (mirrors_popCondition op).bind fun _ => hopen _)
    fun _ => hopen false

theorem mirrors_turn (op : UInt8) : Mirrors (Store.frame place) (turn op) (Flow.turn op) := by
  rintro ⟨items, alt, _ | ⟨live, outer⟩, operations, codeStart, checks⟩
  · rfl
  · rfl

theorem mirrors_close (op : UInt8) : Mirrors (Store.frame place) (close op) (Flow.close op) := by
  rintro ⟨items, alt, _ | ⟨live, outer⟩, operations, codeStart, checks⟩
  · rfl
  · rfl

/-- Blocks are opened, turned and closed alike. -/
theorem mirrors_flow (code : UInt8) (op : FlowOp) :
    Mirrors (Store.frame place) (flow rules code op) (Flow.execute rules code op) := by
  cases op with
  | nop => exact .pure ()
  | ifTrue | ifFalse => exact mirrors_openBlock code _
  | ifVersion | ifNotVersion | earlyReturn => exact .throw _
  | otherwise => exact mirrors_turn code
  | endIf => exact mirrors_close code
  | verify => exact mirrors_verifyTop _

end

/-- What an arithmetic operation does. -/
def arithmetic (rules : Rules) : ArithmeticOp → StoreM Unit
  | .unary op => Items.unary rules.numbers op
  | .binary op => Items.binary rules.numbers op
  | .within => Items.within rules.numbers
  | .equalVerify => do
    Items.binary rules.numbers .equal
    verifyTop .numEqual

/-- Operations on numbers take the same operands and leave the same result. -/
theorem mirrors_arithmetic {place : Place} {rules : Rules} (op : ArithmeticOp) :
    Mirrors (Store.frame place) (arithmetic rules op) (Arithmetic.execute rules op) := by
  cases op with
  | unary op => exact mirrors_onItems (Items.mirrors_unary _ op)
  | binary op => exact mirrors_onItems (Items.mirrors_binary _ op)
  | within => exact mirrors_onItems (Items.mirrors_within _)
  | equalVerify =>
      exact (mirrors_onItems (Items.mirrors_binary _ _)).bind fun _ => mirrors_verifyTop _

/-- Takes note of the required lock time, which stays on the stack. -/
def required (rules : Rules) : StoreM Nat := do
  let n ← Items.peekNumber 0 ⟨LockTime.maxLength, rules.has .minimalData⟩
  if n < 0 then throw (.fault (.negativeLockTime n))
  return n.toNat

/-- What a lock time operation that is in force does. -/
def checkLock (rules : Rules) : LockTimeOp → StoreM Unit
  | .absolute => do
    let wanted ← required rules
    let found ← context rules .absoluteLock
    ofResult (LockTime.checkAbsolute found rules.input wanted)
  | .relative => do
    let wanted ← required rules
    if !wanted.testBit LockTime.disabledBit then
      let found ← context rules .relativeLock
      ofResult (LockTime.checkRelative found rules.input wanted)

/-- What a lock time operation does. -/
def lockTime (rules : Rules) (op : LockTimeOp) : StoreM Unit :=
  if rules.has (LockTime.flag op) then checkLock rules op
  else if rules.has .discourageNops then throw (.fault (.discouragedNop (LockTime.nopNumber op)))
  else return ()

section
variable {place : Place} {rules : Rules}

theorem mirrors_required :
    Mirrors (Store.frame place) (required rules) (LockTime.required rules) :=
  (mirrors_onItems (Items.mirrors_peekNumber 0 _)).bind fun _ => .guard fun _ => .pure _

/-- Lock times are compared alike. -/
theorem mirrors_checkLock (op : LockTimeOp) :
    Mirrors (Store.frame place) (checkLock rules op) (LockTime.check rules op) := by
  cases op with
  | absolute =>
      exact mirrors_required.bind fun _ => (mirrors_context _).bind fun _ => mirrors_ofResult _
  | relative =>
      exact mirrors_required.bind fun _ => .ite
        (fun _ => (mirrors_context _).bind fun _ => mirrors_ofResult _) fun _ => .pure ()

theorem mirrors_lockTime (op : LockTimeOp) :
    Mirrors (Store.frame place) (lockTime rules op) (LockTime.execute rules op) :=
  .ite (fun _ => mirrors_checkLock op) fun _ => .ite (fun _ => .throw _) fun _ => .pure ()

end

end Bitcoin.Indexed
