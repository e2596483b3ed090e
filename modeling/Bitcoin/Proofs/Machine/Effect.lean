import Bitcoin.Machine.Execute
import Bitcoin.Proofs.Machine.Exec

/-!
# What Instructions Leave Alone

Most instructions work on the stacks and know nothing of the rest of the frame.
Only those that belong to the structure of blocks touch the open blocks, none
changes what is to come, and none takes back an operation that has been counted.
Nor does any of them look at the record of questions to the context: it is written
and never read.

Lock times go further and leave everything as it is, even where they fail. So they are
told apart by what is looked at in the frame behind a computation, however it has ended.

All this holds of the parts of an instruction and passes through sequences, so it
is proved part by part. What an instruction that has succeeded did is then said
once, with all that is checked before it takes effect.

## Main definitions

* `Frame.Keeps`: What hardly any instruction touches.
* `Exec.Blind`: A computation that does not look at the record of questions.
* `Exec.Plain`: A blind computation that keeps what `Frame.Keeps` says.
* `Exec.Leaves`: A computation that leaves a part of the frame as it is, failed or not.
* `Operation.Turns`: What an operation does to the open blocks.
* `Instruction.Done`: What an instruction that has succeeded did.

## Theorems

* `Exec.Plain.bind`, `Exec.Plain.onStack`, `Exec.Plain.read`: How plain computations are
  made.
* `Exec.Leaves.bind`, `Exec.Leaves.eq_of_ok`: How what is left alone passes through sequences.
* `LockTime.leaves_execute`: Lock times leave everything alone.
* `Instruction.plain_perform`: All operations but the conditional ones are plain.
* `Instruction.blind_execute`: No instruction looks at the record.
* `Instruction.done_of_execute`: What a successful instruction did.
-/

namespace Bitcoin

/-- What hardly any instruction touches: the open blocks and what is to come stay, and
    operations are not taken back. -/
structure Frame.Keeps (frame frame' : Frame) : Prop where
  blocks : frame'.blocks = frame.blocks
  next : frame'.next = frame.next
  operations : frame.operations ≤ frame'.operations

theorem Frame.Keeps.refl (frame : Frame) : frame.Keeps frame :=
  ⟨rfl, rfl, Nat.le_refl _⟩

theorem Frame.Keeps.trans {first second third : Frame} (h : first.Keeps second)
    (h' : second.Keeps third) : first.Keeps third :=
  ⟨h'.blocks.trans h.blocks, h'.next.trans h.next, Nat.le_trans h.operations h'.operations⟩

namespace Exec

/-- A computation that does not look at the record of questions: with another record it
    does the same, but for the record. -/
def Blind {α : Type} (x : Exec α) : Prop :=
  ∀ frame a frame' checks, x frame = .ok a frame' →
    ∃ checks', x { frame with checks } = .ok a { frame' with checks := checks' }

/-- A blind computation that keeps what hardly any instruction touches. -/
structure Plain {α : Type} (x : Exec α) : Prop where
  blind : Blind x
  keeps : ∀ frame a frame', x frame = .ok a frame' → frame.Keeps frame'

variable {α β : Type}

/-- Computations that do not see the questions may follow each other. -/
theorem Blind.bind {x : Exec α} {f : α → Exec β} (hx : Blind x) (hf : ∀ a, Blind (f a)) :
    Blind (x >>= f) := by
  intro frame b frame' checks h
  rcases Steps.bind_eq_ok.mp h with ⟨a, between, hfirst, hrest⟩
  -- The second step begins with the record that the first one leaves.
  rcases hx _ _ _ checks hfirst with ⟨checks', hfirst'⟩
  rcases hf a _ _ _ checks' hrest with ⟨checks'', hrest'⟩
  exact ⟨checks'', Steps.bind_eq_ok.mpr ⟨a, _, hfirst', hrest'⟩⟩

-- A change of the frame that is the same with another record, but for the record.
theorem Blind.modify {g : Frame → Frame}
    (h : ∀ frame checks, ∃ checks', g { frame with checks } = { g frame with checks := checks' }) :
    Blind (modify g) := by
  intro frame a frame' checks hrun
  cases hrun
  rcases h frame checks with ⟨checks', hsame⟩
  exact ⟨checks', congrArg (EStateM.Result.ok ()) hsame⟩

-- A part of the frame is read that is not the record.
theorem Blind.read {f : Frame → Exec α} (hf : ∀ frame, Blind (f frame))
    (hsame : ∀ frame checks, f { frame with checks } = f frame) : Blind (get >>= f) := by
  intro frame a frame' checks h
  change f frame frame = .ok a frame' at h
  change ∃ checks', f { frame with checks } { frame with checks } = _
  rw [hsame]
  exact hf frame _ _ _ checks h

theorem Blind.ite {x y : Exec α} {c : Prop} [Decidable c] (hx : Blind x) (hy : Blind y) :
    Blind (if c then x else y) := by
  by_cases h : c
  · rw [if_pos h]
    exact hx
  · rw [if_neg h]
    exact hy

-- What stands behind a refusal that is met does not matter.
theorem Blind.guard {x : Exec α} {k : β → Exec α} {c : Prop} [Decidable c] {fault : Fault}
    (hx : Blind x) : Blind (if c then MonadExcept.throw fault >>= k else x) := by
  intro frame a frame' checks h
  rcases Steps.guard_eq_ok.mp h with ⟨hc, hrest⟩
  rcases hx _ _ _ checks hrest with ⟨checks', hrest'⟩
  exact ⟨checks', Steps.guard_eq_ok.mpr ⟨hc, hrest'⟩⟩

namespace Plain

theorem pure (a : α) : Plain (Pure.pure a : Exec α) := by
  refine ⟨fun frame b frame' checks h => ?_, fun frame b frame' h => ?_⟩
  · cases h
    exact ⟨checks, rfl⟩
  · cases h
    exact .refl _

theorem throw (fault : Fault) : Plain (MonadExcept.throw fault : Exec α) :=
  ⟨fun _ a _ _ h => absurd h (Steps.throw_ne_ok fault a),
    fun _ a _ h => absurd h (Steps.throw_ne_ok fault a)⟩

/-- So may those that change nothing but stacks, counts and questions. -/
theorem bind {x : Exec α} {f : α → Exec β} (hx : Plain x) (hf : ∀ a, Plain (f a)) :
    Plain (x >>= f) := by
  refine ⟨hx.blind.bind fun a => (hf a).blind, fun frame b frame' h => ?_⟩
  rcases Steps.bind_eq_ok.mp h with ⟨a, between, hfirst, hrest⟩
  exact (hx.keeps _ _ _ hfirst).trans ((hf a).keeps _ _ _ hrest)

theorem ite {x y : Exec α} {c : Prop} [Decidable c] (hx : Plain x) (hy : Plain y) :
    Plain (if c then x else y) := by
  refine ⟨hx.blind.ite hy.blind, fun frame a frame' h => ?_⟩
  by_cases hc : c
  · rw [if_pos hc] at h
    exact hx.keeps _ _ _ h
  · rw [if_neg hc] at h
    exact hy.keeps _ _ _ h

theorem guard {x : Exec α} {k : β → Exec α} {c : Prop} [Decidable c] {fault : Fault}
    (hx : Plain x) : Plain (if c then MonadExcept.throw fault >>= k else x) :=
  ⟨hx.blind.guard, fun _ _ _ h => hx.keeps _ _ _ (Steps.guard_eq_ok.mp h).2⟩

-- Whatever works on the main stack only is plain.
theorem onStack (action : StackM α) : Plain (Exec.onStack action) := by
  refine ⟨fun frame a frame' checks h => ?_, fun frame a frame' h => ?_⟩
  · rcases onStack_eq_ok.mp h with ⟨stack, haction, rfl⟩
    exact ⟨checks, onStack_eq_ok.mpr ⟨stack, haction, rfl⟩⟩
  · rcases onStack_eq_ok.mp h with ⟨stack, _, rfl⟩
    exact ⟨rfl, rfl, Nat.le_refl _⟩

theorem lift (result : Except Fault α) : Plain (Exec.lift result) := by
  rcases result with fault | value
  · exact throw fault
  · exact pure value

theorem read {f : Frame → Exec α} (hf : ∀ frame, Plain (f frame))
    (hsame : ∀ frame checks, f { frame with checks } = f frame) : Plain (get >>= f) :=
  ⟨Blind.read (fun frame => (hf frame).blind) hsame,
    fun frame _ _ h => (hf frame).keeps _ _ _ h⟩

theorem modify {g : Frame → Frame} (hkeeps : ∀ frame, Frame.Keeps frame (g frame))
    (h : ∀ frame checks, ∃ checks', g { frame with checks } = { g frame with checks := checks' }) :
    Plain (modify g) := by
  refine ⟨Blind.modify h, fun frame a frame' hrun => ?_⟩
  cases hrun
  exact hkeeps frame

end Plain

section
variable {γ : Type} {look : Frame → γ}

/-- A computation that leaves a part of the frame as it is, whether it succeeds or not. -/
def Leaves (look : Frame → γ) (x : Exec α) : Prop :=
  ∀ frame, look (x.after frame) = look frame

namespace Leaves

-- A computation that leaves all of the frame as it is ends where it began.
theorem eq_of_ok {x : Exec α} {frame frame' : Frame} {a : α} (hx : Leaves id x)
    (h : x frame = .ok a frame') : frame' = frame :=
  (after_of_ok h).symm.trans (hx frame)

theorem pure (a : α) : Leaves look (Pure.pure a : Exec α) := fun _ => rfl

theorem throw (fault : Fault) : Leaves look (MonadExcept.throw fault : Exec α) := fun _ => rfl

-- A change of another part.
theorem modify {g : Frame → Frame} (h : ∀ frame, look (g frame) = look frame) :
    Leaves look (modify g) := h

/-- What all of the steps leave alone is left alone. -/
theorem bind {x : Exec α} {f : α → Exec β} (hx : Leaves look x) (hf : ∀ a, Leaves look (f a)) :
    Leaves look (x >>= f) := by
  intro frame
  have hfirst := hx frame
  rcases hrun : x frame with ⟨a, between⟩ | ⟨fault, between⟩
  · rw [after_of_ok hrun] at hfirst
    have hafter : (x >>= f).after frame = (f a).after between := by
      rw [after, after, Steps.bind_ok hrun]
    rw [hafter, hf a between, hfirst]
  · rw [after_of_error hrun] at hfirst
    rw [after_of_error (Steps.bind_error hrun), hfirst]

theorem ite {x y : Exec α} {c : Prop} [Decidable c] (hx : Leaves look x) (hy : Leaves look y) :
    Leaves look (if c then x else y) := by
  by_cases h : c
  · rw [if_pos h]
    exact hx
  · rw [if_neg h]
    exact hy

-- A refusal that is met ends the computation.
theorem guard {x : Exec α} {k : β → Exec α} {c : Prop} [Decidable c] {fault : Fault}
    (hx : Leaves look x) : Leaves look (if c then MonadExcept.throw fault >>= k else x) :=
  .ite (fun _ => rfl) hx

theorem read {f : Frame → Exec α} (hf : ∀ frame, Leaves look (f frame)) :
    Leaves look (get >>= f) :=
  fun frame => hf frame frame

theorem lift (result : Except Fault α) : Leaves look (Exec.lift result) := by
  rcases result with fault | value
  · exact throw fault
  · exact pure value

theorem context (rules : Rules) (use : TransactionUse) :
    Leaves look (Exec.context rules use) := by
  rw [Exec.context]
  rcases rules.context? with _ | found
  · exact throw _
  · exact pure _

/-- An element that is looked at stays where it is, be it a number or not. -/
theorem peekNumber (index : Nat) (rule : NumberRule) :
    Leaves look (Exec.onStack (Stack.peekNumber index rule)) := by
  intro frame
  -- Whether or not the element is there, and is a number, the stack stays as it is.
  have hpeek : ∃ result : Except Fault Int,
      Stack.peekNumber index rule frame.stack = Stack.lift result frame.stack := by
    rcases helement : frame.stack[index]? with _ | element
    · refine ⟨.error (.stackIndex index frame.stack.length), Steps.bind_error ?_⟩
      rw [Stack.peek, helement]
    · exact ⟨rule.read element, Steps.bind_ok (peek_eq_ok.mpr ⟨helement, rfl⟩)⟩
  rcases hpeek with ⟨fault | n, hpeek⟩
  · rw [after, Exec.onStack, hpeek]
    rfl
  · rw [after, Exec.onStack, hpeek]
    rfl

end Leaves

end

variable (rules : Rules)

theorem plain_countOperations (count : Nat) : Plain (countOperations rules count) :=
  .bind (.modify (fun _ => ⟨rfl, rfl, Nat.le_add_right _ _⟩) fun _ checks => ⟨checks, rfl⟩) fun _ =>
    .read (fun _ => .ite (.throw _) (.pure _)) fun _ _ => rfl

theorem plain_verifyTop (check : Check) : Plain (verifyTop check) :=
  .bind (.onStack _) fun _ => .ite (.throw _) (.pure _)

theorem plain_context (use : TransactionUse) : Plain (context rules use) := by
  rw [context]
  rcases rules.context? with _ | found
  · exact .throw _
  · exact .pure _

end Exec

open Exec (Blind Plain)

variable (rules : Rules)

theorem Flow.plain_popCondition (op : UInt8) : Plain (popCondition rules op) :=
  .read (fun _ => .guard (.bind (.onStack _) fun _ => .guard (.pure _))) fun _ _ => rfl

/-- Operations on the stacks touch neither the blocks nor what is executed next. -/
theorem Shuffle.plain_execute (op : StackOp) : Plain (execute rules op) := by
  have hindex : Plain (popIndex rules) := .bind (.onStack _) fun _ => .guard (.pure _)
  cases op with
  | toAlt =>
      exact .bind (.onStack _) fun _ =>
        .modify (fun _ => ⟨rfl, rfl, Nat.le_refl _⟩) fun _ checks => ⟨checks, rfl⟩
  | fromAlt =>
      refine ⟨fun frame a frame' checks h => ?_, fun frame a frame' h => ?_⟩
      · change fromAlt frame = _ at h
        change ∃ checks', fromAlt { frame with checks } = _
        rw [fromAlt] at h ⊢
        -- The other stack may be empty.
        rcases halt : frame.alt with _ | ⟨element, alt⟩
        · rw [halt] at h
          exact absurd h (by simp)
        · rw [halt] at h
          cases h
          exact ⟨checks, rfl⟩
      · change fromAlt frame = _ at h
        rw [fromAlt] at h
        split at h
        · exact absurd h (by simp)
        · cases h
          exact ⟨rfl, rfl, Nat.le_refl _⟩
  | depth => exact .read (fun _ => .onStack _) fun _ _ => rfl
  | pick => exact .bind hindex fun _ => .onStack _
  | roll => exact .bind hindex fun _ => .onStack _
  | nip => exact .bind (.onStack (Stack.nip 1)) fun _ => .pure ()
  | _ => exact .onStack _

theorem Arithmetic.plain_execute (op : ArithmeticOp) : Plain (execute rules op) := by
  cases op with
  | equalVerify => exact .bind (.onStack _) fun _ => Exec.plain_verifyTop _
  | _ => exact .onStack _

namespace Crypto

theorem plain_checkForms (sig key : Bytes) : Plain (checkForms rules sig key) :=
  .bind (.lift _) fun _ => .lift _

-- The one place where the record is written.
theorem plain_ask (context : Context) (code : Script) (sig key : Bytes) :
    Plain (ask rules context code sig key) :=
  .ite (.pure _) <| .bind (.modify (fun _ => ⟨rfl, rfl, Nat.le_refl _⟩)
    fun _ checks => ⟨⟨sig, key, code, rules.input⟩ :: checks, rfl⟩) fun _ => .pure _

/-- A matching adds questions to the record and does nothing else. -/
theorem plain_matchKeys (context : Context) (code : Script) (sigs keys : List Bytes) :
    Plain (matchKeys rules context code sigs keys) := by
  induction keys generalizing sigs with
  | nil =>
      rcases sigs with _ | ⟨sig, sigs⟩
      · exact .pure _
      · exact .pure _
  | cons key keys ih =>
      rcases sigs with _ | ⟨sig, sigs⟩
      · exact .pure _
      · -- Whether or not the signature is used up, one key is.
        rw [matchKeys]
        exact .bind (plain_checkForms rules sig key) fun _ =>
          .bind (plain_ask rules context code sig key) fun _ => .ite (.pure _) (ih _)

theorem plain_popCount (limit : Nat) (fault : Int → Nat → Fault) :
    Plain (popCount rules limit fault) :=
  .bind (.onStack _) fun _ => .guard (.pure _)

theorem plain_checkSig : Plain (checkSig rules) :=
  .bind (.onStack _) fun _ => .bind (.onStack _) fun _ =>
    .bind (Exec.plain_context rules _) fun context => .bind (plain_checkForms rules _ _) fun _ =>
      .read (fun _ => .bind (plain_ask rules context _ _ _) fun _ => .guard (.onStack _))
        fun _ _ => rfl

theorem plain_checkMultiSig : Plain (checkMultiSig rules) :=
  .bind (plain_popCount rules _ _) fun _ => .bind (Exec.plain_countOperations rules _) fun _ =>
    .bind (.onStack _) fun _ => .bind (plain_popCount rules _ _) fun _ =>
      .bind (.onStack _) fun _ => .bind (.onStack _) fun _ => .guard <|
        .bind (Exec.plain_context rules _) fun context =>
          .read (fun _ => .bind (plain_matchKeys rules context _ _ _) fun _ => .guard (.onStack _))
            fun _ _ => rfl

theorem plain_execute (op : CryptoOp) : Plain (execute rules op) := by
  cases op with
  | codeSeparator =>
      exact .modify (fun _ => ⟨rfl, rfl, Nat.le_refl _⟩) fun _ checks => ⟨checks, rfl⟩
  | checkSig => exact plain_checkSig rules
  | checkSigVerify => exact .bind (plain_checkSig rules) fun _ => Exec.plain_verifyTop _
  | checkMultiSig => exact plain_checkMultiSig rules
  | checkMultiSigVerify => exact .bind (plain_checkMultiSig rules) fun _ => Exec.plain_verifyTop _
  | _ => exact .onStack _

end Crypto

/-- Lock times are compared, and nothing is changed at all. -/
theorem LockTime.plain_execute (op : LockTimeOp) : Plain (execute rules op) := by
  have hrequired : Plain (required rules) := .bind (.onStack _) fun _ => .guard (.pure _)
  have hcheck : Plain (check rules op) := by
    cases op with
    | absolute =>
        exact .bind hrequired fun _ => .bind (Exec.plain_context rules _) fun _ => .lift _
    | relative =>
        exact .bind hrequired fun _ =>
          .ite (.bind (Exec.plain_context rules _) fun _ => .lift _) (.pure _)
  exact .ite hcheck (.ite (.throw _) (.pure _))

theorem LockTime.leaves_check {γ : Type} {look : Frame → γ} (op : LockTimeOp) :
    Exec.Leaves look (check rules op) := by
  have hrequired : Exec.Leaves look (required rules) :=
    .bind (.peekNumber 0 _) fun _ => .guard (.pure _)
  cases op with
  | absolute => exact .bind hrequired fun _ => .bind (.context rules _) fun _ => .lift _
  | relative =>
      exact .bind hrequired fun _ => .ite (.bind (.context rules _) fun _ => .lift _) (.pure _)

/-- In force or not, a lock time operation changes nothing. -/
theorem LockTime.leaves_execute {γ : Type} {look : Frame → γ} (op : LockTimeOp) :
    Exec.Leaves look (execute rules op) :=
  .ite (leaves_check rules op) (.ite (.throw _) (.pure _))

/-- What an operation does to the open blocks, innermost first. -/
def Operation.Turns (operation : Operation) (blocks blocks' : List Bool) : Prop :=
  match operation with
  | .flow .ifTrue | .flow .ifFalse => ∃ live, blocks' = live :: blocks
  | .flow .ifVersion | .flow .ifNotVersion => False
  | .flow .otherwise => ∃ live outer, blocks = live :: outer ∧ blocks' = (!live) :: outer
  | .flow .endIf => ∃ live, blocks = live :: blocks'
  | _ => blocks' = blocks

namespace Flow

variable {op : UInt8} {frame frame' : Frame}

/-- What opens a block does not see the questions. -/
theorem blind_openBlock (op : UInt8) (wanted : Bool) : Blind (openBlock rules op wanted) := by
  have hpush (live : Bool) : Blind
      (modify fun frame => { frame with blocks := live :: frame.blocks } : Exec Unit) :=
    .modify fun _ checks => ⟨checks, rfl⟩
  exact .read (fun _ => .ite (.bind (plain_popCondition rules op).blind fun _ => hpush _)
    (hpush _)) fun _ _ => rfl

/-- Neither does what turns it. -/
theorem blind_turn (op : UInt8) : Blind (turn op) := by
  intro frame a frame' checks h
  rw [turn] at h ⊢
  rcases hblocks : frame.blocks with _ | ⟨live, outer⟩
  · rw [hblocks] at h
    exact absurd h (by simp)
  · rw [hblocks] at h
    cases h
    exact ⟨checks, rfl⟩

theorem blind_close (op : UInt8) : Blind (close op) := by
  intro frame a frame' checks h
  rw [close] at h ⊢
  rcases hblocks : frame.blocks with _ | ⟨live, outer⟩
  · rw [hblocks] at h
    exact absurd h (by simp)
  · rw [hblocks] at h
    cases h
    exact ⟨checks, rfl⟩

-- A block that is opened is the innermost one.
theorem keeps_openBlock {wanted : Bool} (h : openBlock rules op wanted frame = .ok () frame') :
    ∃ live, Frame.Keeps { frame with blocks := live :: frame.blocks } frame' := by
  change (if frame.isLive = true then _ else _ : Exec Unit) frame = _ at h
  split at h
  · rcases Steps.bind_eq_ok.mp h with ⟨condition, between, hpop, hrest⟩
    have hkeeps := (plain_popCondition rules op).keeps _ _ _ hpop
    cases hrest
    exact ⟨condition == wanted, congrArg (List.cons _) hkeeps.blocks, hkeeps.next,
      hkeeps.operations⟩
  · cases h
    exact ⟨false, .refl _⟩

end Flow

namespace Instruction

variable {instruction : Instruction} {frame frame' : Frame}

/-- Only operations on blocks change them. -/
theorem plain_perform (h : instruction.operation.isConditional = false) :
    Plain (instruction.perform rules) := by
  rw [perform]
  cases hoperation : instruction.operation with
  | pushData =>
      exact .ite (.bind (.lift _) fun _ => .onStack _) (.onStack _)
  | flow op =>
      rw [hoperation] at h
      cases op with
      | nop => exact .pure _
      | verify => exact Exec.plain_verifyTop _
      | earlyReturn => exact .throw _
      | _ => exact absurd h (by decide)
  | stack op => exact Shuffle.plain_execute rules op
  | equalVerify => exact .bind (.onStack _) fun _ => Exec.plain_verifyTop _
  | arithmetic op => exact Arithmetic.plain_execute rules op
  | crypto op => exact Crypto.plain_execute rules op
  | lockTime op => exact LockTime.plain_execute rules op
  | upgradableNop => exact .ite (.throw _) (.pure _)
  | disabled => exact .throw _
  | reserved => exact .throw _
  | invalid => exact .throw _
  | _ => exact .onStack _

/-- No instruction sees the questions that have been asked. -/
theorem blind_perform (instruction : Instruction) : Blind (instruction.perform rules) := by
  by_cases h : instruction.operation.isConditional = true
  · rw [perform]
    cases hoperation : instruction.operation with
    | flow op =>
        cases op with
        | ifTrue => exact Flow.blind_openBlock rules _ true
        | ifFalse => exact Flow.blind_openBlock rules _ false
        | ifVersion => exact (Plain.throw _).blind
        | ifNotVersion => exact (Plain.throw _).blind
        | otherwise => exact Flow.blind_turn _
        | endIf => exact Flow.blind_close _
        | _ => exact absurd h (by rw [hoperation]; decide)
    | _ => exact absurd h (by rw [hoperation]; exact Bool.false_ne_true)
  · exact (plain_perform rules (Bool.eq_false_iff.mpr h)).blind

theorem blind_execute (instruction : Instruction) : Blind (instruction.execute rules) := by
  have hperform : Blind (do
      if (← get).isLive ∨ instruction.operation.isConditional then instruction.perform rules) :=
    .read (fun _ => .ite (blind_perform rules instruction) (Plain.pure _).blind) fun _ _ => rfl
  exact .guard <| .ite (.bind (Exec.plain_countOperations rules 1).blind fun _ => .guard hperform)
    (.guard hperform)

/-- What an instruction that has succeeded did, and what had been checked before it took
    effect, if it did. -/
structure Done (rules : Rules) (instruction : Instruction) (frame frame' : Frame) : Prop where
  size : instruction.data.length ≤ rules.limits.elementSize
  enabled : instruction.operation ≠ .disabled
  operations : frame.operations ≤ frame'.operations
  counted : Opcode.sixteen < instruction.op → frame.operations + 1 ≤ rules.limits.operations ∧
    frame.operations + 1 ≤ frame'.operations
  next : frame'.next = frame.next
  blocks : instruction.operation.Turns frame.blocks frame'.blocks

-- The conditional instructions change the open blocks and keep the rest.
theorem turns_perform (h : instruction.operation.isConditional = true)
    (hrun : instruction.perform rules frame = .ok () frame') :
    instruction.operation.Turns frame.blocks frame'.blocks ∧ frame'.next = frame.next ∧
      frame.operations ≤ frame'.operations := by
  rw [perform] at hrun
  -- There are four such operations: two push a block, one turns the top one and one pops it.
  cases hoperation : instruction.operation with
  | flow op =>
      rw [hoperation] at hrun
      cases op with
      | ifTrue =>
          rcases Flow.keeps_openBlock rules hrun with ⟨live, hkeeps⟩
          exact ⟨⟨live, hkeeps.blocks⟩, hkeeps.next, hkeeps.operations⟩
      | ifFalse =>
          rcases Flow.keeps_openBlock rules hrun with ⟨live, hkeeps⟩
          exact ⟨⟨live, hkeeps.blocks⟩, hkeeps.next, hkeeps.operations⟩
      | ifVersion => exact absurd hrun (Steps.throw_ne_ok _ _)
      | ifNotVersion => exact absurd hrun (Steps.throw_ne_ok _ _)
      | otherwise =>
          change Flow.turn _ _ = _ at hrun
          rw [Flow.turn] at hrun
          split at hrun
          · exact absurd hrun (by simp)
          · next live outer hblocks =>
              cases hrun
              exact ⟨⟨live, outer, hblocks, rfl⟩, rfl, Nat.le_refl _⟩
      | endIf =>
          change Flow.close _ _ = _ at hrun
          rw [Flow.close] at hrun
          split at hrun
          · exact absurd hrun (by simp)
          · next live outer hblocks =>
              cases hrun
              exact ⟨⟨live, hblocks⟩, rfl, Nat.le_refl _⟩
      | _ => exact absurd h (by rw [hoperation]; decide)
  | _ => exact absurd h (by rw [hoperation]; exact Bool.false_ne_true)

-- Operations that do not belong to the structure of blocks leave them alone.
theorem turns_iff_eq {operation : Operation} {blocks blocks' : List Bool}
    (h : operation.isConditional = false) :
    operation.Turns blocks blocks' ↔ blocks' = blocks := by
  cases operation with
  | flow op =>
      cases op with
      | nop => exact Iff.rfl
      | verify => exact Iff.rfl
      | earlyReturn => exact Iff.rfl
      | _ => exact absurd h (by decide)
  | _ => exact Iff.rfl

variable {rules}

-- What is left of an instruction once it has been counted. Where it takes no effect it does
-- nothing, and then it does not belong to the structure of blocks.
theorem turns_of_rest {k : Unit → Exec Unit}
    (h : (if instruction.operation = Operation.disabled then
        throw (.disabledOpcode instruction.op) >>= k
      else do
        if (← get).isLive ∨ instruction.operation.isConditional then instruction.perform rules :
      Exec Unit) frame = .ok () frame') :
    instruction.operation ≠ .disabled ∧ instruction.operation.Turns frame.blocks frame'.blocks ∧
      frame'.next = frame.next ∧ frame.operations ≤ frame'.operations := by
  rcases Steps.guard_eq_ok.mp h with ⟨henabled, hrun⟩
  refine ⟨henabled, ?_⟩
  -- The conditional ones are performed in any case, the others only where they take effect.
  change (if frame.isLive = true ∨ _ then _ else _ : Exec Unit) frame = _ at hrun
  by_cases hconditional : instruction.operation.isConditional = true
  · rw [if_pos (Or.inr hconditional)] at hrun
    exact turns_perform rules hconditional hrun
  · have hkeeps : frame.Keeps frame' := by
      split at hrun
      · exact (plain_perform rules (Bool.eq_false_iff.mpr hconditional)).keeps _ _ _ hrun
      · cases hrun
        exact .refl _
    exact ⟨(turns_iff_eq (Bool.eq_false_iff.mpr hconditional)).mpr hkeeps.blocks, hkeeps.next,
      hkeeps.operations⟩

/-- What an instruction that has succeeded did. -/
theorem done_of_execute (h : instruction.execute rules frame = .ok () frame') :
    Done rules instruction frame frame' := by
  rw [execute] at h
  rcases Steps.guard_eq_ok.mp h with ⟨hsize, h⟩
  by_cases hop : Opcode.sixteen < instruction.op
  · rw [if_pos hop] at h
    rcases Steps.bind_eq_ok.mp h with ⟨_, between, hcount, hrest⟩
    rcases Exec.countOperations_eq_ok.mp hcount with ⟨hlimit, rfl⟩
    rcases turns_of_rest hrest with ⟨henabled, hblocks, hnext, hoperations⟩
    -- The count has been raised before the rest, which takes nothing back.
    have hmore : frame.operations + 1 ≤ frame'.operations := hoperations
    exact ⟨Nat.not_lt.mp hsize, henabled, by omega, fun _ => ⟨hlimit, hmore⟩, hnext, hblocks⟩
  · rw [if_neg hop] at h
    rcases turns_of_rest h with ⟨henabled, hblocks, hnext, hoperations⟩
    exact ⟨Nat.not_lt.mp hsize, henabled, hoperations, fun hc => absurd hc hop, hnext, hblocks⟩

end Instruction

end Bitcoin
