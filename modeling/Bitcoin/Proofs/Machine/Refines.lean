import Bitcoin.Machine.Run
import Bitcoin.Proofs.Machine.Effect
import Bitcoin.Proofs.Machine.Form

/-!
# Stricter and Laxer Instructions

Rules may be relaxed: flags are taken away, limits raised. Under the laxer rules
an instruction does all that it did under the stricter ones, as long as it did
not fail there, and leaves the same frame behind. A rule can only refuse, it
never changes what an instruction computes.

There is one exception, an instruction of a lock time. Without its flag it is one
of the operations without effect, and these may be refused by a flag of their
own. Where that flag is set the flags of the lock times must be the same in both
rules.

That one computation refines another passes through sequences and through
conditions that refuse, so what is known of the parts of an instruction makes up
what is to be known of the whole.

## Main definitions

* `Exec.Refines`: One computation that does what another does where it succeeds.
* `Rules.Relaxes`: Rules with fewer flags and higher limits.

## Theorems

* `Exec.Refines.bind`, `Exec.Refines.guard`: Sequences and refusals.
* `Rules.Relaxes.has`: A flag of the laxer rules is one of the stricter.
* `Instruction.refines_execute`: An instruction under both rules.
-/

namespace Bitcoin

namespace Exec

/-- The first computation succeeds at most where the second does, with the same value
    and the same state. -/
def Refines {σ α : Type} (strict lax : EStateM Fault σ α) : Prop :=
  ∀ s a s', strict s = .ok a s' → lax s = .ok a s'

namespace Refines

section
variable {σ α β : Type}

theorem refl (x : EStateM Fault σ α) : Refines x x :=
  fun _ _ _ h => h

/-- Whatever fails refines everything. -/
theorem throw (fault : Fault) (x : EStateM Fault σ α) : Refines (MonadExcept.throw fault) x :=
  fun _ a _ h => absurd h (Steps.throw_ne_ok fault a)

/-- What succeeds under the stricter rules goes on with the same value. -/
theorem bind {x x' : EStateM Fault σ α} {f f' : α → EStateM Fault σ β} (hx : Refines x' x)
    (hf : ∀ a, Refines (f' a) (f a)) : Refines (x' >>= f') (x >>= f) := by
  intro s b s' h
  rcases Steps.bind_eq_ok.mp h with ⟨a, between, hfirst, hrest⟩
  exact Steps.bind_eq_ok.mpr ⟨a, between, hx _ _ _ hfirst, hf a _ _ _ hrest⟩

/-- A refusal whose condition the laxer side meets less often. -/
theorem guard {x x' y : EStateM Fault σ α} {k : β → EStateM Fault σ α} {c c' : Prop}
    [Decidable c] [Decidable c'] {fault : Fault} (hc : c → c') (hx : Refines x' x) :
    Refines (if c' then MonadExcept.throw fault >>= k else x') (if c then y else x) := by
  by_cases hstrict : c'
  · rw [if_pos hstrict]
    intro s a s' h
    rcases Steps.bind_eq_ok.mp h with ⟨_, _, hfirst, _⟩
    exact absurd hfirst (Steps.throw_ne_ok fault _)
  · rw [if_neg hstrict, if_neg (mt hc hstrict)]
    exact hx

-- The refusal may also come last, with nothing behind it.
theorem refuse {x x' : EStateM Fault σ α} {c c' : Prop} [Decidable c] [Decidable c']
    {fault fault' : Fault} (hc : c → c') (hx : Refines x' x) :
    Refines (if c' then MonadExcept.throw fault' else x')
      (if c then MonadExcept.throw fault else x) := by
  by_cases hstrict : c'
  · rw [if_pos hstrict]
    exact throw fault' _
  · rw [if_neg hstrict, if_neg (mt hc hstrict)]
    exact hx

-- Conditions that are not refusals must be the same on both sides.
theorem ite {x x' y y' : EStateM Fault σ α} {c : Prop} [Decidable c] (hx : Refines x' x)
    (hy : Refines y' y) : Refines (if c then x' else y') (if c then x else y) := by
  by_cases h : c
  · rw [if_pos h, if_pos h]
    exact hx
  · rw [if_neg h, if_neg h]
    exact hy

end

variable {α : Type}

theorem onStack {x x' : StackM α} (h : Refines x' x) :
    Refines (Exec.onStack x') (Exec.onStack x) := by
  intro frame a frame' hstrict
  rcases onStack_eq_ok.mp hstrict with ⟨stack, haction, rfl⟩
  exact onStack_eq_ok.mpr ⟨stack, h _ _ _ haction, rfl⟩

/-- A check need only be passed wherever the stricter one is. -/
theorem lift {x x' : Except Fault α} (h : ∀ a, x' = .ok a → x = .ok a) :
    Refines (Exec.lift x') (Exec.lift x) := by
  intro frame a frame' hstrict
  rcases lift_eq_ok.mp hstrict with ⟨hresult, rfl⟩
  exact lift_eq_ok.mpr ⟨h a hresult, rfl⟩

/-- A check that needs no frame and that the laxer side makes less often. -/
theorem check {x x' : Exec α} {result : Except Fault Unit} {c c' : Prop} [Decidable c]
    [Decidable c'] (hc : c → c') (hx : Refines x' x) :
    Refines (if c' then Exec.lift result >>= fun _ => x' else x')
      (if c then Exec.lift result >>= fun _ => x else x) := by
  by_cases hlax : c
  · rw [if_pos hlax, if_pos (hc hlax)]
    exact .bind (refl _) fun _ => hx
  · rw [if_neg hlax]
    by_cases hstrict : c'
    · -- Only the stricter side checks. If it goes on, nothing has changed.
      rw [if_pos hstrict]
      intro frame a frame' h
      rcases Steps.bind_eq_ok.mp h with ⟨_, between, hresult, hrest⟩
      rw [(lift_eq_ok.mp hresult).2]
      exact hx _ _ _ hrest
    · rw [if_neg hstrict]
      exact hx

theorem stackLift {x x' : Except Fault α} (h : ∀ a, x' = .ok a → x = .ok a) :
    Refines (Stack.lift x') (Stack.lift x) := by
  rcases x' with fault | value
  · exact throw fault _
  · rw [h value rfl]
    exact refl _

end Refines

end Exec

/-- The first rules are the second ones with some flags taken away and some limits
    raised. -/
structure Rules.Relaxes (lax strict : Rules) : Prop where
  flags : lax.flags.bits &&& strict.flags.bits = lax.flags.bits
  operations : strict.limits.operations ≤ lax.limits.operations
  scriptSize : strict.limits.scriptSize ≤ lax.limits.scriptSize
  elementSize : strict.limits.elementSize ≤ lax.limits.elementSize
  stackDepth : strict.limits.stackDepth ≤ lax.limits.stackDepth
  numberLength : strict.limits.numberLength ≤ lax.limits.numberLength
  multisigKeys : strict.limits.multisigKeys ≤ lax.limits.multisigKeys
  context : lax.context? = strict.context?
  input : lax.input = strict.input

/-- A laxer rule reads every number that a stricter one does. -/
theorem NumberRule.read_mono {lax strict : NumberRule} {element : Bytes} {n : Int}
    (hlength : strict.maxLength ≤ lax.maxLength)
    (hminimal : lax.minimal = true → strict.minimal = true)
    (hread : strict.read element = .ok n) : lax.read element = .ok n := by
  rcases read_eq_ok.mp hread with ⟨hlong, hform, hvalue⟩
  exact read_eq_ok.mpr ⟨by omega, fun hc => hform ⟨hminimal hc.1, hc.2⟩, hvalue⟩

namespace Rules.Relaxes

variable {lax strict : Rules}

/-- Flags of the lax rules are flags of the strict ones. -/
theorem flagsHas (h : lax.Relaxes strict) {flag : Flags} (hflag : lax.flags.has flag = true) :
    strict.flags.has flag = true := by
  have hlax : lax.flags.bits &&& flag.bits = flag.bits := of_decide_eq_true hflag
  refine decide_eq_true ?_
  rw [← hlax, ← UInt32.and_assoc, UInt32.and_comm strict.flags.bits, h.flags]

/-- A flag of the laxer rules is a flag of the stricter ones. -/
theorem has (h : lax.Relaxes strict) {flag : Flags} (hflag : lax.has flag = true) :
    strict.has flag = true :=
  h.flagsHas hflag

theorem hasAny (h : lax.Relaxes strict) {flags : List Flags}
    (hflags : lax.flags.hasAny flags = true) : strict.flags.hasAny flags = true := by
  rcases List.any_eq_true.mp hflags with ⟨flag, hmem, hflag⟩
  exact List.any_eq_true.mpr ⟨flag, hmem, h.flagsHas hflag⟩

end Rules.Relaxes

open Exec (Refines)

variable {lax strict : Rules}

/-- A number that is short enough for the stricter limit is short enough for the other one. -/
theorem Stack.refines_popNumber (h : lax.Relaxes strict) :
    Refines (popNumber strict.numbers) (popNumber lax.numbers) :=
  .bind (.refl _) fun _ => .stackLift fun _ =>
    NumberRule.read_mono h.numberLength fun hminimal => h.has hminimal

theorem Exec.refines_context (h : lax.Relaxes strict) (use : TransactionUse) :
    Refines (context strict use) (context lax use) := by
  rw [context, context, h.context]
  exact .refl _

/-- A count that is within the lower limit is within the higher one. -/
theorem Exec.refines_countOperations (h : lax.Relaxes strict) (count : Nat) :
    Refines (countOperations strict count) (countOperations lax count) :=
  .bind (.refl _) fun _ => .bind (.refl _) fun _ =>
    .refuse (fun hmany => Nat.lt_of_le_of_lt h.operations hmany) (.refl _)

namespace Shuffle

theorem refines_popIndex (h : lax.Relaxes strict) : Refines (popIndex strict) (popIndex lax) :=
  .bind (.onStack (Stack.refines_popNumber h)) fun _ => .refl _

theorem refines_execute (h : lax.Relaxes strict) (op : StackOp) :
    Refines (execute strict op) (execute lax op) := by
  cases op with
  | pick | roll => exact .bind (refines_popIndex h) fun _ => .refl _
  | _ => exact .refl _

end Shuffle

namespace Arithmetic

theorem refines_execute (h : lax.Relaxes strict) (op : ArithmeticOp) :
    Refines (execute strict op) (execute lax op) := by
  have hpop := Stack.refines_popNumber h
  have hbinary (op : BinaryOp) : Refines (binary strict.numbers op) (binary lax.numbers op) :=
    .bind hpop fun _ => .bind hpop fun _ => .refl _
  cases op with
  | unary op => exact .onStack (.bind hpop fun _ => .refl _)
  | binary op => exact .onStack (hbinary op)
  | within => exact .onStack (.bind hpop fun _ => .bind hpop fun _ => .bind hpop fun _ => .refl _)
  | equalVerify => exact .bind (.onStack (hbinary .equal)) fun _ => .refl _

end Arithmetic

namespace Flow

theorem refines_openBlock (h : lax.Relaxes strict) (op : UInt8) (wanted : Bool) :
    Refines (openBlock strict op wanted) (openBlock lax op wanted) := by
  have hcondition : Refines (popCondition strict op) (popCondition lax op) :=
    .bind (.refl _) fun _ => .guard id <| .bind (.refl _) fun _ =>
      .guard (fun hc => ⟨h.has hc.1, hc.2⟩) (.refl _)
  exact .bind (.refl _) fun _ => .ite (.bind hcondition fun _ => .refl _) (.refl _)

theorem refines_execute (h : lax.Relaxes strict) (code : UInt8) (op : FlowOp) :
    Refines (execute strict code op) (execute lax code op) := by
  cases op with
  | ifTrue => exact refines_openBlock h code true
  | ifFalse => exact refines_openBlock h code false
  | _ => exact .refl _

end Flow

namespace LockTime

theorem refines_required (h : lax.Relaxes strict) : Refines (required strict) (required lax) :=
  .bind (.onStack (.bind (.refl _) fun _ => .stackLift fun _ =>
    NumberRule.read_mono (Nat.le_refl _) fun hminimal => h.has hminimal)) fun _ => .refl _

/-- A lock time that is checked under both rules is checked against the same transaction. -/
theorem refines_check (h : lax.Relaxes strict) (op : LockTimeOp) :
    Refines (check strict op) (check lax op) := by
  cases op with
  | absolute =>
      rw [check, check, h.input]
      exact .bind (refines_required h) fun _ => .bind (Exec.refines_context h _) fun _ => .refl _
  | relative =>
      rw [check, check, h.input]
      exact .bind (refines_required h) fun _ =>
        .ite (.bind (Exec.refines_context h _) fun _ => .refl _) (.refl _)

/-- A lock time that is not checked is an operation without effect, which the laxer
    rules let through unless they refuse all of these. -/
theorem refines_execute (h : lax.Relaxes strict) (op : LockTimeOp)
    (hlock : lax.has .discourageNops = true → lax.has (flag op) = strict.has (flag op)) :
    Refines (execute strict op) (execute lax op) := by
  rw [execute, execute]
  by_cases hlax : lax.has (flag op) = true
  · rw [if_pos hlax, if_pos (h.has hlax)]
    exact refines_check h op
  · rw [if_neg hlax]
    by_cases hnops : lax.has .discourageNops = true
    · rw [if_pos hnops, if_neg (hlock hnops ▸ hlax), if_pos (h.has hnops)]
      exact .throw _ _
    · -- The laxer side does nothing, and neither does a check that succeeds.
      rw [if_neg hnops]
      intro frame _ frame' hstrict
      split at hstrict
      · rw [(leaves_check strict op).eq_of_ok hstrict]
        rfl
      · split at hstrict
        · exact absurd hstrict (Steps.throw_ne_ok _ _)
        · exact hstrict

end LockTime

namespace SignatureForm

/-- A form that the stricter rules accept is accepted by the others. -/
theorem check_mono (h : lax.Relaxes strict) {sig : Bytes} (hcheck : check strict sig = .ok ()) :
    check lax sig = .ok () := by
  refine check_eq_ok.mpr fun hashType hlast => ?_
  rcases check_eq_ok.mp hcheck hashType hlast with ⟨hder, hknown⟩
  refine ⟨checkDer_eq_ok.mpr fun hany => ?_, fun hc => hknown ⟨h.has hc.1, hc.2⟩⟩
  rcases checkDer_eq_ok.mp hder (h.hasAny hany) with ⟨s, hs, hlow⟩
  exact ⟨s, hs, fun hc => hlow ⟨h.has hc.1, hc.2⟩⟩

end SignatureForm

theorem KeyForm.check_mono (h : lax.Relaxes strict) {key : Bytes}
    (hcheck : check strict key = .ok ()) : check lax key = .ok () :=
  check_eq_ok.mpr fun hc => check_eq_ok.mp hcheck ⟨h.has hc.1, hc.2⟩

namespace Crypto

theorem refines_checkForms (h : lax.Relaxes strict) (sig key : Bytes) :
    Refines (checkForms strict sig key) (checkForms lax sig key) :=
  .bind (.lift fun _ => SignatureForm.check_mono h) fun _ => .lift fun _ => KeyForm.check_mono h

/-- Both ask the same context about the same input. -/
theorem refines_ask (h : lax.Relaxes strict) (context : Context) (code : Script)
    (sig key : Bytes) :
    Refines (ask strict context code sig key) (ask lax context code sig key) := by
  rw [ask, ask, h.input]
  exact .refl _

/-- The cursors move alike. The induction is on the keys, one of which is used up by
    each turn. -/
theorem refines_matchKeys (h : lax.Relaxes strict) (context : Context) (code : Script)
    (sigs keys : List Bytes) :
    Refines (matchKeys strict context code sigs keys) (matchKeys lax context code sigs keys) := by
  induction keys generalizing sigs with
  | nil =>
      rcases sigs with _ | ⟨sig, sigs⟩
      · exact .refl _
      · exact .refl _
  | cons key keys ih =>
      rcases sigs with _ | ⟨sig, sigs⟩
      · exact .refl _
      · rw [matchKeys, matchKeys]
        exact .bind (refines_checkForms h sig key) fun _ =>
          .bind (refines_ask h context code sig key) fun _ => .ite (.refl _) (ih _)

/-- A count within a lower limit is within a higher one. -/
theorem refines_popCount (h : lax.Relaxes strict) {low high : Nat} (hlimit : low ≤ high)
    (fault : Int → Nat → Fault) :
    Refines (popCount strict low fault) (popCount lax high fault) :=
  .bind (.onStack (Stack.refines_popNumber h)) fun _ =>
    .guard (fun hc => hc.imp id fun hmany => by omega) (.refl _)

theorem refines_checkSig (h : lax.Relaxes strict) : Refines (checkSig strict) (checkSig lax) :=
  .bind (.refl _) fun _ => .bind (.refl _) fun _ =>
    .bind (Exec.refines_context h _) fun _ => .bind (refines_checkForms h _ _) fun _ =>
      .bind (.refl _) fun _ => .bind (refines_ask h _ _ _ _) fun _ =>
        .guard (fun hc => ⟨hc.1, hc.2.1, h.has hc.2.2⟩) (.refl _)

-- One term for each step, in the order of the operation. A second count is bounded by the
-- first one, which is the same on both sides, so its limit is too.
theorem refines_checkMultiSig (h : lax.Relaxes strict) :
    Refines (checkMultiSig strict) (checkMultiSig lax) :=
  .bind (refines_popCount h h.multisigKeys _) fun _ =>
    .bind (Exec.refines_countOperations h _) fun _ => .bind (.refl _) fun _ =>
      .bind (refines_popCount h (Nat.le_refl _) _) fun _ => .bind (.refl _) fun _ =>
        .bind (.refl _) fun _ => .guard (fun hc => ⟨h.has hc.1, hc.2⟩) <|
          .bind (Exec.refines_context h _) fun _ => .bind (.refl _) fun _ =>
            .bind (refines_matchKeys h _ _ _ _) fun _ =>
              .guard (fun hc => ⟨hc.1, h.has hc.2.1, hc.2.2⟩) (.refl _)

theorem refines_execute (h : lax.Relaxes strict) (op : CryptoOp) :
    Refines (execute strict op) (execute lax op) := by
  cases op with
  | checkSig => exact refines_checkSig h
  | checkSigVerify => exact .bind (refines_checkSig h) fun _ => .refl _
  | checkMultiSig => exact refines_checkMultiSig h
  | checkMultiSigVerify => exact .bind (refines_checkMultiSig h) fun _ => .refl _
  | _ => exact .refl _

end Crypto

namespace Instruction

/-- What an instruction does where it takes effect, under both rules. -/
theorem refines_perform (h : lax.Relaxes strict)
    (hlocks : lax.has .discourageNops = true →
      ∀ op, lax.has (LockTime.flag op) = strict.has (LockTime.flag op))
    (instruction : Instruction) :
    Refines (instruction.perform strict) (instruction.perform lax) := by
  rw [perform, perform]
  -- Flags only ever refuse something, apart from those that turn a spare opcode into a lock time.
  cases instruction.operation with
  | pushData => exact .check h.has (.refl _)
  | flow op => exact Flow.refines_execute h instruction.op op
  | stack op => exact Shuffle.refines_execute h op
  | arithmetic op => exact Arithmetic.refines_execute h op
  | crypto op => exact Crypto.refines_execute h op
  | lockTime op => exact LockTime.refines_execute h op fun hnops => hlocks hnops op
  | upgradableNop => exact .refuse h.has (.refl _)
  | _ => exact .refl _

/-- Instructions under both rules. -/
theorem refines_execute (h : lax.Relaxes strict)
    (hlocks : lax.has .discourageNops = true →
      ∀ op, lax.has (LockTime.flag op) = strict.has (LockTime.flag op))
    (instruction : Instruction) :
    Refines (instruction.execute strict) (instruction.execute lax) := by
  have hperform : Refines (do if (← get).isLive ∨ instruction.operation.isConditional then
      instruction.perform strict) (do if (← get).isLive ∨ instruction.operation.isConditional then
      instruction.perform lax) :=
    .bind (.refl _) fun _ => .ite (refines_perform h hlocks instruction) (.refl _)
  -- The size of an element and the count of operations come first, even for instructions
  -- that take no effect.
  exact .guard (Nat.lt_of_le_of_lt h.elementSize) <|
    .ite (.bind (Exec.refines_countOperations h 1) fun _ => .guard id hperform)
      (.guard id hperform)

end Instruction

end Bitcoin
