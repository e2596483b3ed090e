import Bitcoin.Proofs.Indexed.Execute
import Bitcoin.Proofs.Indexed.Script
import Bitcoin.Proofs.Machine.Rounds
import Mathlib.Data.List.Basic

/-!
# Runs by Position

The scripts of a run stand in a list, to which the redeem script is added while the run is
on. The number of the running script and the number of the next instruction are all that
says where the run is. A script is looked up by its number before each instruction and
after it, and where the stack is judged, the number of elements that are too many is
computed.

While a run is on, its number is that of a script, as it only moves on where another
script follows. A run that has moved behind the last script has halted. The machine that
has no numbers takes the same steps, so a run with numbers is never out of range: it goes
on through any number of steps, and its status and its stack are those of the machine.

## Main definitions

* `Thread`, `Thread.start`, `Thread.step`, `Thread.runFor`: A run with numbers.
* `Thread.Stands`: Which scripts there are at a stage of the machine.
* `Thread.Shows`: What a run has in common with a machine.

## Theorems

* `Thread.shows_step`: One step.
* `Thread.shows_runFor`: Many steps.
* `Thread.alike_start`: The beginning.
* `Thread.runFor_in_range`: No run is ever out of range.
-/

namespace Bitcoin

open Access

/-- A run of scripts, kept with numbers. -/
structure Thread where
  rules : Rules
  /-- Whether a redeem script follows the locking script. -/
  redeems : Bool
  scripts : List (Role × Program)
  /-- The number of the running script. -/
  script : Nat := 0
  /-- The number of the next instruction. -/
  offset : Nat := 0
  /-- The stack after the unlocking script, where it will be needed. -/
  saved : Items := []
  store : Indexed.Store := {}
  status : Status := .running

namespace Thread

/-- Where a run is. -/
def place (t : Thread) : Indexed.Place where
  scripts := t.scripts
  script := t.script
  offset := t.offset

/-- The run at the first instruction of the unlocking script. -/
def start (rules : Rules) (unlocking locking : Bytes) : Except (Stop Failure) Thread := do
  if rules.has .cleanStack ∧ ¬rules.has .p2sh then throw (.fault (.of .cleanStackAlone))
  (Machine.checkSize rules .unlocking ⟨unlocking⟩).mapError .fault
  (Machine.checkSize rules .locking ⟨locking⟩).mapError .fault
  let pushes ← need (Indexed.isPushOnly? unlocking)
  if rules.has .unlockingPushOnly ∧ ¬pushes then throw (.fault (.of .unlockingNotPushOnly))
  let hashes ← need (Indexed.isP2SH? locking)
  let redeems := rules.has .p2sh && hashes
  if redeems ∧ ¬pushes then throw (.fault (.of .redeemNotPushOnly))
  let first ← Indexed.parse .unlocking unlocking
  let second ← Indexed.parse .locking locking
  return { rules, redeems, scripts := [(.unlocking, first), (.locking, second)] }

/-- The run halted by a failure. -/
def fail (t : Thread) (failure : Failure) : Thread :=
  { t with status := .failed failure }

/-- Refuses a stack without a true element on top. -/
def requireTrue (items : Items) : Except (Stop Fault) Unit :=
  match Items.peek 0 items with
  | .error .outOfRange _ => throw .outOfRange
  | .error (.fault _) _ => throw (.fault .emptyResult)
  | .ok top _ => do
    let passed ← need (Indexed.isTrue? top)
    if passed then return () else throw (.fault .falseResult)

/-- Refuses a stack that a run may not end with. -/
def judge (rules : Rules) (items : Items) : Except (Stop Fault) Unit := do
  requireTrue items
  if rules.has .cleanStack ∧ items.length ≠ 1 then
    -- An empty stack has been refused before.
    let extra ← need (subtract? items.length 1)
    throw (.fault (.uncleanResult extra))

/-- The run with the redeem script added, on what was below it. -/
def loadRedeem (t : Thread) : Except (Stop Failure) Thread := do
  (requireTrue t.store.items).mapError (Stop.map .of)
  match t.saved.getLast? with
  | none => throw (.fault (.of .noRedeemScript))
  | some script =>
    (Machine.checkSize t.rules .redeem ⟨script⟩).mapError .fault
    let program ← Indexed.parse .redeem script
    return { t with
      scripts := t.scripts ++ [(.redeem, program)]
      saved := []
      store := { t.store with items := t.saved.dropLast } }

/-- The run at the first instruction of a script, with a stack and nothing else that was
    left over. -/
def enter (t : Thread) (scripts : List (Role × Program)) (script : Nat) (saved items : Items) :
    Thread :=
  { t with
    scripts
    script
    offset := 0
    saved
    store := { t.store with items, alt := [], operations := 0, codeStart := 0 } }

/-- The run at the first instruction of the next script. -/
def next (t : Thread) : Thread :=
  t.enter t.scripts (t.script + 1) t.saved t.store.items

/-- The stack saved after the unlocking script and the redeem script added after the
    locking script, where they are needed. -/
def prepare (t : Thread) : Except (Stop Failure) Thread :=
  if t.redeems then
    match t.script with
    | 1 => return { t with saved := t.store.items }
    | 2 => t.loadRedeem
    | _ => return t
  else return t

/-- The run after the last instruction of a script. -/
def endScript (t : Thread) (role : Role) : Except (Stop Failure) Thread := do
  if t.store.blocks ≠ [] then throw (.fault (.of (.openBlock role)))
  let t ← t.next.prepare
  -- Compared with the scripts that there are now, as one may have been added.
  if t.scripts.length ≤ t.script then
    (judge t.rules t.store.items).mapError (Stop.map .of)
    return { t with status := .succeeded }
  return t

/-- The run that has been computed, or the given one halted by the failure in doing so, with
    the stack that it had. -/
def settle (t : Thread) : Except (Stop Failure) Thread → Option Thread
  | .ok t' => some t'
  | .error (.fault failure) => some (t.fail failure)
  | .error .outOfRange => none

/-- Executes an instruction of a script. Behind it the script is looked up once more, to
    see whether that was the last one. -/
def executeNext (t : Thread) (role : Role) (instruction : Instruction) : Option Thread :=
  match Indexed.advance t.rules t.place instruction t.store with
  | .error .outOfRange _ => none
  | .error (.fault fault) store =>
    some ({ t with store }.fail ((Failure.of fault).locate role instruction.offset))
  | .ok _ store => do
    let t := { t with store, offset := t.offset + 1 }
    let (_, program) ← t.scripts[t.script]?
    if t.offset < program.length then some t else t.settle (t.endScript role)

/-- The run one step later, if nothing was out of range. -/
def step (t : Thread) : Option Thread :=
  match t.status with
  | .succeeded | .failed _ => some t
  | .running => do
    let (role, program) ← t.scripts[t.script]?
    match program[t.offset]? with
    | none => t.settle (t.endScript role)
    | some instruction => t.executeNext role instruction

/-- The run so many steps later, if nothing was out of range. -/
def runFor : Nat → Thread → Option Thread
  | 0, t => some t
  | count + 1, t => do runFor count (← t.step)

/-- Which scripts there are at a stage, and which of them is running. -/
inductive Stands (t : Thread) : Stage → Prop where
  | unlocking {first second : Program}
      (scripts : t.scripts = [(.unlocking, first), (.locking, second)]) (script : t.script = 0) :
      Stands t (.unlocking second)
  | locking {first second : Program}
      (scripts : t.scripts = [(.unlocking, first), (.locking, second)]) (script : t.script = 1) :
      Stands t (.locking (if t.redeems then some t.saved.reverse else none))
  | redeem {first second third : Program}
      (scripts : t.scripts = [(.unlocking, first), (.locking, second), (.redeem, third)])
      (script : t.script = 2) : Stands t .redeem

/-- What a run that is on has in common with a machine. -/
structure Runs (t : Thread) (m : Machine) : Prop where
  rules : m.rules = t.rules
  redeems : m.redeems = t.redeems
  stands : t.Stands m.stage
  frame : m.frame = { t.store.frame t.place with next := t.place.program.drop t.offset }

/-- What a run has in common with a machine. Of the state of one that has halted only the
    stack counts. -/
structure Shows (t : Thread) (m : Machine) : Prop where
  status : t.status = m.status
  stack : t.store.items.reverse = m.frame.stack
  runs : t.status = .running → t.Runs m

variable {t : Thread} {m : Machine} {stage : Stage}

/-- The running script is there. -/
theorem Stands.lookup (h : t.Stands stage) :
    t.scripts[t.script]? = some (stage.role, t.place.program) := by
  cases h with
  | unlocking scripts script | locking scripts script | redeem scripts script =>
      rw [Indexed.Place.program, place, scripts, script]
      rfl

/-- The open blocks are those of the machine. -/
theorem Runs.blocks (h : t.Runs m) : m.frame.blocks = t.store.blocks :=
  congrArg Frame.blocks h.frame

/-- The script that is executed is one of the list. -/
theorem Stands.lt_length (h : t.Stands stage) : t.place.script < t.place.scripts.length :=
  (List.getElem?_eq_some_iff.mp h.lookup).1

/-- What an instruction changes has no part in it. -/
theorem Stands.keep {store : Indexed.Store} {offset : Nat} (h : t.Stands stage) :
    Stands { t with store, offset } stage := by
  cases h with
  | unlocking scripts script => exact .unlocking scripts script
  | locking scripts script => exact .locking scripts script
  | redeem scripts script => exact .redeem scripts script

theorem Shows.fail (h : t.store.items.reverse = m.frame.stack) (failure : Failure) :
    (t.fail failure).Shows (m.fail failure) where
  status := rfl
  stack := h
  runs := nofun

/-- The last element is there when it is looked at. -/
theorem agrees_requireTrue (items : Items) :
    Agrees (requireTrue items) (Machine.requireTrue items.reverse) := by
  rcases items.eq_nil_or_concat' with rfl | ⟨below, top, rfl⟩
  · rfl
  · rw [requireTrue, Items.peek_concat, List.reverse_concat]
    exact .need (Indexed.isTrue?_eq top) (.ite (fun _ => .pure ()) fun _ => .throw _)

/-- Where the top element is true there is one, so one can be subtracted from the depth. -/
theorem agrees_judge (rules : Rules) (items : Items) :
    Agrees (judge rules items) (Machine.judge rules items.reverse) := by
  rcases items.eq_nil_or_concat' with rfl | ⟨below, top, rfl⟩
  · rfl
  · have hone : 1 ≤ (below ++ [top]).length := by simp
    rw [judge, Machine.judge, List.length_reverse]
    exact (agrees_requireTrue _).bind fun _ => .ite
      (fun _ => .need (subtract?_of_le hone) (.throw _)) fun _ => .pure ()

/-- The redeem script and the stack below it are those that the machine takes from its
    saved stack. -/
theorem alike_loadRedeem (t : Thread) :
    Alike (fun (t' : Thread) (loaded : Program × Stack) =>
        t' = { t with
          scripts := t.scripts ++ [(.redeem, loaded.1)]
          saved := []
          store := { t.store with items := loaded.2.reverse } })
      t.loadRedeem
      (Machine.redeemProgram t.rules t.store.items.reverse t.saved.reverse) := by
  rw [loadRedeem, Machine.redeemProgram.eq_def]
  refine .bind (.mapError (agrees_requireTrue _) Failure.of) fun _ => ?_
  -- The redeem script is the top of the stack that has been saved, if there is one.
  rcases t.saved.eq_nil_or_concat' with hsaved | ⟨below, script, hsaved⟩
  · rw [hsaved]
    exact .fault _
  · rw [hsaved, List.getLast?_concat, List.reverse_concat, List.dropLast_concat]
    refine .bind rfl fun _ => .bind (Indexed.agrees_parse .redeem ⟨script⟩) fun program => ?_
    refine .ok ?_
    rw [List.reverse_reverse]

/-- Behind the unlocking script the stack is saved, if a redeem script may follow. -/
theorem prepare_first (h : t.script = 1) :
    t.prepare = .ok { t with saved := if t.redeems then t.store.items else t.saved } := by
  rcases t with ⟨rules, redeems, scripts, script, offset, saved, store, status⟩
  cases h
  cases redeems with
  | false => rfl
  | true => rfl

/-- Behind the locking script the redeem script is loaded. -/
theorem prepare_second (h : t.script = 2) (hredeems : t.redeems = true) :
    t.prepare = t.loadRedeem := by
  rcases t with ⟨rules, redeems, scripts, script, offset, saved, store, status⟩
  cases h
  exact if_pos hredeems

/-- Where no script follows, nothing is prepared. -/
theorem prepare_last (h : t.redeems = false ∨ t.script = 3) : t.prepare = .ok t := by
  rcases t with ⟨rules, redeems, scripts, script, offset, saved, store, status⟩
  rcases h with h | h
  · cases h
    rfl
  · cases h
    exact ite_self _

/-- A script is entered alike: only the stack and what has been asked are taken over. -/
theorem shows_enter (h : t.Shows m) (hrunning : t.status = .running)
    (hclosed : t.store.blocks = []) {scripts : List (Role × Program)} {script : Nat}
    {saved items : Items} {stack : Stack} {program : Program}
    (hstands : (t.enter scripts script saved items).Stands stage)
    (hstack : items.reverse = stack) (hprogram : scripts[script]? = some (stage.role, program)) :
    (t.enter scripts script saved items).Shows (m.enter stage stack program) := by
  subst hstack
  rcases h.runs hrunning with ⟨hrules, hredeems, _, hframe⟩
  have hchecks : m.frame.checks = t.store.checks := congrArg Frame.checks hframe
  refine ⟨h.status, rfl, fun _ => ⟨hrules, hredeems, hstands, ?_⟩⟩
  have hplace : Indexed.Place.program ⟨scripts, script, 0⟩ = program :=
    Indexed.Place.program_eq hprogram
  -- The new frame has no blocks, and neither has the old store.
  change Frame.start items.reverse program m.frame.checks =
    ⟨items.reverse, [], t.store.blocks, 0, Indexed.Place.program ⟨scripts, script, 0⟩,
      Indexed.Place.program ⟨scripts, script, 0⟩, t.store.checks⟩
  rw [hchecks, hclosed, hplace]
  rfl

/-- A run and a machine that come to the same judgement. -/
theorem settle_judge {t' : Thread} (hrules : t'.rules = m.rules)
    (hstack' : t'.store.items.reverse = m.frame.stack)
    (hstack : t.store.items.reverse = m.frame.stack) :
    ∃ last, t.settle (do
        (judge t'.rules t'.store.items).mapError (Stop.map .of)
        return { t' with status := .succeeded }) = some last ∧ last.Shows m.conclude := by
  have hjudge : judge t'.rules t'.store.items = _ := agrees_judge t'.rules t'.store.items
  rw [Machine.conclude, hjudge, hrules, hstack']
  rcases Machine.judge m.rules m.frame.stack with fault | _
  · exact ⟨_, rfl, .fail hstack _⟩
  · refine ⟨_, rfl, rfl, hstack', fun hrunning => ?_⟩
    cases hrunning

section
variable (hclosed : t.store.blocks = [])
include hclosed

theorem endScript_closed (role : Role) : t.endScript role = (do
    let t ← t.next.prepare
    if t.scripts.length ≤ t.script then
      (judge t.rules t.store.items).mapError (Stop.map .of)
      return { t with status := .succeeded }
    return t) := by
  rw [endScript, if_neg (not_not.mpr hclosed)]

/-- Behind the unlocking script the stack is saved if it will be needed. -/
theorem endScript_first (hscript : t.script = 0) (hlength : 1 < t.scripts.length) (role : Role) :
    t.endScript role = .ok (t.enter t.scripts 1
      (if t.redeems then t.store.items else t.saved) t.store.items) := by
  have hprepare := prepare_first (t := t.next) (congrArg (· + 1) hscript)
  rw [endScript_closed hclosed, hprepare, next, hscript]
  exact if_neg (Nat.not_le_of_lt hlength)

/-- Behind the locking script there is a third one if it could be loaded. -/
theorem endScript_second (hscript : t.script = 1) (hlength : t.scripts.length = 2)
    (hredeems : t.redeems = true) (role : Role) :
    Alike (fun (t' : Thread) (loaded : Program × Stack) =>
        t' = t.enter (t.scripts ++ [(.redeem, loaded.1)]) 2 [] loaded.2.reverse)
      (t.endScript role)
      (Machine.redeemProgram t.rules t.store.items.reverse t.saved.reverse) := by
  have hload : Alike (fun (t' : Thread) (loaded : Program × Stack) =>
        t' = t.enter (t.scripts ++ [(.redeem, loaded.1)]) (t.script + 1) [] loaded.2.reverse)
      t.next.loadRedeem
      (Machine.redeemProgram t.rules t.store.items.reverse t.saved.reverse) :=
    alike_loadRedeem t.next
  have hprepare : t.next.prepare = t.next.loadRedeem :=
    prepare_second (congrArg (· + 1) hscript) hredeems
  rw [endScript_closed hclosed, hprepare]
  rcases hload.fault_or_ok with ⟨failure, hresult, hmachine⟩ | ⟨t', loaded, hresult, hmachine, rfl⟩
  · rw [hresult, hmachine]
    exact .fault failure
  · rw [hresult, hmachine, hscript]
    -- The script that was added is the one the run has moved to.
    have hmore : ¬(t.scripts ++ [(Role.redeem, loaded.1)]).length ≤ 2 := by
      rw [List.length_append, hlength]
      exact Nat.not_succ_le_self 2
    change Alike _ (if (t.scripts ++ [(Role.redeem, loaded.1)]).length ≤ 2 then _ else _) _
    rw [if_neg hmore]
    exact .ok rfl

/-- Behind the last script the stack is judged. -/
theorem endScript_last (hlength : t.scripts.length ≤ t.script + 1)
    (hlast : t.redeems = false ∨ t.script = 2) (role : Role) : t.endScript role = (do
      (judge t.next.rules t.next.store.items).mapError (Stop.map .of)
      return { t.next with status := .succeeded }) := by
  have hprepare : t.next.prepare = .ok t.next := prepare_last (hlast.imp id (congrArg (· + 1)))
  rw [endScript_closed hclosed, hprepare]
  exact if_pos hlength

end

section
variable (h : t.Shows m) (hrunning : t.status = .running) (hclosed : t.store.blocks = [])
include h hrunning hclosed

/-- The unlocking script ends alike. -/
theorem shows_first {first second : Program}
    (hscripts : t.scripts = [(.unlocking, first), (.locking, second)]) (hscript : t.script = 0)
    (hstage : m.stage = .unlocking second) (role : Role) :
    ∃ t', t.settle (t.endScript role) = some t' ∧ t'.Shows m.endScript := by
  have hruns := h.runs hrunning
  have hblocks := hruns.blocks.trans hclosed
  have hmore : 1 < t.scripts.length := by
    rw [hscripts]
    exact Nat.lt_succ_self 1
  -- What is saved only counts where a redeem script is to come.
  have hsaved : (if t.redeems then some t.store.items.reverse else none) =
      if t.redeems then some (if t.redeems then t.store.items else t.saved).reverse else none := by
    cases t.redeems with
    | false => rfl
    | true => rfl
  have hsecond : t.scripts[1]? = some (Role.locking, second) := by
    rw [hscripts]
    rfl
  rw [endScript_first hclosed hscript hmore, Machine.endScript_unlocking hblocks hstage,
    ← h.stack, hruns.redeems, hsaved]
  exact ⟨_, rfl, shows_enter h hrunning hclosed (.locking hscripts rfl) rfl hsecond⟩

/-- The locking script ends alike, where a redeem script follows. -/
theorem shows_second {first second : Program}
    (hscripts : t.scripts = [(.unlocking, first), (.locking, second)]) (hscript : t.script = 1)
    (hredeems : t.redeems = true) (hstage : m.stage = .locking (some t.saved.reverse))
    (role : Role) :
    ∃ t', t.settle (t.endScript role) = some t' ∧ t'.Shows m.endScript := by
  have hruns := h.runs hrunning
  have hblocks := hruns.blocks.trans hclosed
  have hlength : t.scripts.length = 2 := by
    rw [hscripts]
    rfl
  -- Loading the redeem script fails on both sides, or it gives the same program.
  rcases (endScript_second hclosed hscript hlength hredeems role).fault_or_ok
    with ⟨failure, hresult, hloaded⟩ | ⟨t', loaded, hresult, hloaded, rfl⟩
  · rw [← hruns.rules, h.stack] at hloaded
    rw [hresult, Machine.endScript_unloaded hblocks hstage hloaded]
    exact ⟨_, rfl, .fail h.stack failure⟩
  · have hthree : t.scripts ++ [(.redeem, loaded.1)] =
        [(.unlocking, first), (.locking, second), (.redeem, loaded.1)] := by
      rw [hscripts]
      rfl
    rw [← hruns.rules, h.stack] at hloaded
    rw [hresult, Machine.endScript_locking hblocks hstage hloaded, hthree]
    refine ⟨_, rfl, shows_enter h hrunning hclosed (.redeem rfl rfl) ?_ rfl⟩
    exact List.reverse_reverse loaded.2

/-- The last script ends alike. -/
theorem shows_last (hlength : t.scripts.length ≤ t.script + 1)
    (hlast : t.redeems = false ∨ t.script = 2)
    (hstage : m.stage = .locking none ∨ m.stage = .redeem) (role : Role) :
    ∃ t', t.settle (t.endScript role) = some t' ∧ t'.Shows m.endScript := by
  have hruns := h.runs hrunning
  have hblocks := hruns.blocks.trans hclosed
  rw [endScript_last hclosed hlength hlast, Machine.endScript_last hblocks hstage]
  exact settle_judge hruns.rules.symm h.stack h.stack

end

/-- However far the scripts have come, the next one is entered on both sides or on none. -/
theorem shows_endScript (h : t.Shows m) (hrunning : t.status = .running) (role : Role)
    (hrole : role = m.stage.role) :
    ∃ t', t.settle (t.endScript role) = some t' ∧ t'.Shows m.endScript := by
  have hruns := h.runs hrunning
  by_cases hclosed : t.store.blocks = []
  · have hstands := hruns.stands
    -- What the end of a script leads to depends on which one it was.
    generalize hstage : m.stage = stage at hstands
    cases hstands with
    | unlocking scripts script => exact shows_first h hrunning hclosed scripts script hstage role
    | locking scripts script =>
        cases hredeems : t.redeems with
        | false =>
            rw [hredeems] at hstage
            refine shows_last h hrunning hclosed ?_ (.inl hredeems) (.inl hstage) role
            rw [scripts, script]
            rfl
        | true =>
            rw [hredeems] at hstage
            exact shows_second h hrunning hclosed scripts script hredeems hstage role
    | redeem scripts script =>
        refine shows_last h hrunning hclosed ?_ (.inr script) (.inr hstage) role
        rw [scripts, script]
        rfl
  · rw [endScript, if_pos hclosed, Machine.endScript, if_pos (hruns.blocks ▸ hclosed), hrole]
    exact ⟨_, rfl, .fail h.stack _⟩

theorem step_of_halted (h : t.status ≠ .running) : t.step = some t := by
  rw [step]
  rcases hstatus : t.status with _ | _ | failure
  · exact absurd hstatus h
  · rfl
  · rfl

/-- An instruction is in range as its script is, and the script is still there behind it. -/
theorem shows_executeNext (h : t.Shows m) (hrunning : t.status = .running)
    (instruction : Instruction) :
    ∃ t', t.executeNext m.stage.role instruction = some t' ∧
      t'.Shows (m.executeNext instruction (t.place.program.drop (t.offset + 1))) := by
  have hruns := h.runs hrunning
  have hframe : { m.frame with next := t.place.program.drop (t.offset + 1) } =
      t.store.frame t.place := by
    rw [hruns.frame]
    rfl
  have hseen : seen (Indexed.Store.frame t.place)
      (Indexed.advance t.rules t.place instruction t.store) =
        some (instruction.advance m.rules (t.place.program.drop (t.offset + 1)) m.frame) :=
    hruns.rules ▸ Indexed.seen_advance hruns.stands.lt_length instruction hframe
  rw [executeNext]
  rcases hadvance : Indexed.advance t.rules t.place instruction t.store
    with ⟨_, store⟩ | ⟨_ | fault, store⟩
  · rw [hadvance] at hseen
    rw [Machine.executeNext_of_ok (Option.some.inj hseen).symm]
    have hafter : Shows { t with store, offset := t.offset + 1 }
        { m with frame := store.frame t.place } :=
      ⟨h.status, rfl, fun _ => ⟨hruns.rules, hruns.redeems, hruns.stands.keep, rfl⟩⟩
    -- The instruction has not moved the run to another script, so the second lookup gives
    -- what the first one has given.
    simp only [hruns.stands.lookup, Option.bind_eq_bind, Option.bind_some]
    by_cases hmore : t.offset + 1 < t.place.program.length
    · rw [if_pos hmore, List.isEmpty_eq_false_iff.mpr (by simpa using hmore)]
      exact ⟨_, rfl, hafter⟩
    · rw [if_neg hmore, List.isEmpty_iff.mpr (List.drop_eq_nil_of_le (Nat.le_of_not_lt hmore))]
      exact shows_endScript hafter hrunning _ rfl
  · rw [hadvance] at hseen
    cases hseen
  · rw [hadvance] at hseen
    rw [Machine.executeNext_of_fault (Option.some.inj hseen).symm]
    exact ⟨_, rfl, .fail rfl _⟩

/-- One step is in range, and it is the step of the machine. -/
theorem shows_step (h : t.Shows m) : ∃ t', t.step = some t' ∧ t'.Shows m.step := by
  by_cases hrunning : t.status = .running
  · have hruns := h.runs hrunning
    have hmrunning : m.status = .running := h.status.symm.trans hrunning
    have hnext : m.frame.next = t.place.program.drop t.offset := congrArg Frame.next hruns.frame
    rw [step, hrunning]
    simp only [hruns.stands.lookup, Option.bind_eq_bind, Option.bind_some]
    -- The offset is within the program, or the script is at its end.
    by_cases hoffset : t.offset < t.place.program.length
    · rw [List.drop_eq_getElem_cons hoffset] at hnext
      rw [Machine.step_of_next hmrunning hnext, List.getElem?_eq_getElem hoffset]
      exact shows_executeNext h hrunning _
    · rw [List.drop_eq_nil_of_le (Nat.le_of_not_lt hoffset)] at hnext
      rw [Machine.step_of_end hmrunning hnext, List.getElem?_eq_none (Nat.le_of_not_lt hoffset)]
      exact shows_endScript h hrunning _ rfl
  · have hmhalted : m.status ≠ .running := fun hm => hrunning (h.status.trans hm)
    rw [step_of_halted hrunning, show m.step = m from Machine.runFor_of_halted hmhalted 1]
    exact ⟨t, rfl, h⟩

/-- Any number of steps is in range, and they are the steps of the machine. -/
theorem shows_runFor (h : t.Shows m) (count : Nat) :
    ∃ t', runFor count t = some t' ∧ t'.Shows (Machine.runFor count m) := by
  induction count generalizing t m with
  | zero => exact ⟨t, rfl, h⟩
  | succ count ih =>
      rcases shows_step h with ⟨between, hstep, hbetween⟩
      rw [runFor, hstep]
      exact ih hbetween

/-- Both start alike, or fail alike before the first instruction. -/
theorem alike_start (rules : Rules) (unlocking locking : Script) :
    Alike Shows (start rules unlocking.bytes locking.bytes)
      (Machine.start rules unlocking locking) := by
  rw [start, Machine.start]
  refine .guard fun _ => .bind rfl fun _ => .bind rfl fun _ => ?_
  refine .need (Indexed.isPushOnly?_eq unlocking) <| .guard fun _ => ?_
  refine .need (Indexed.isP2SH?_eq locking) <| .guard fun _ => ?_
  refine .bind (Indexed.agrees_parse .unlocking unlocking) fun first => ?_
  refine .bind (Indexed.agrees_parse .locking locking) fun second => .ok ?_
  exact ⟨rfl, rfl, fun _ => ⟨rfl, rfl, .unlocking rfl rfl, rfl⟩⟩

/-- No run is ever out of range, be it at the start or after any number of steps: where the
    machine cannot start, it is refused for the same reason, and otherwise it has after
    each number of steps the status and the stack of the machine. -/
theorem runFor_in_range (rules : Rules) (unlocking locking : Script) :
    (∃ failure, start rules unlocking.bytes locking.bytes = .error (.fault failure) ∧
      Machine.start rules unlocking locking = .error failure) ∨
    ∃ t m, start rules unlocking.bytes locking.bytes = .ok t ∧
      Machine.start rules unlocking locking = .ok m ∧
      ∀ count, ∃ t', runFor count t = some t' ∧ t'.status = (Machine.runFor count m).status ∧
        t'.store.items.reverse = (Machine.runFor count m).frame.stack := by
  refine (alike_start rules unlocking locking).fault_or_ok.imp_right ?_
  rintro ⟨t, m, hstart, hmachine, hshows⟩
  refine ⟨t, m, hstart, hmachine, fun count => ?_⟩
  rcases shows_runFor hshows count with ⟨t', hrun, hshows'⟩
  exact ⟨t', hrun, hshows'.status, hshows'.stack⟩

end Thread

end Bitcoin
