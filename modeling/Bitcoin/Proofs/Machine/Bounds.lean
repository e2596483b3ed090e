import Bitcoin.Proofs.Ensures
import Bitcoin.Proofs.Machine.Pushes
import Bitcoin.Proofs.Machine.Refines
import Bitcoin.Proofs.Script.Number

/-!
# How Long Elements Get

Only the payloads of pushes are held to a length. Everything else that comes onto a stack
has been computed: it is a number, a digest or a truth value, or it has been on a stack
before. Numbers are computed from operands of a limited length and outgrow them by one
byte at most; the lengths and depths that are counted fit into far fewer bytes than
they count. So the elements of both stacks keep to one bound at all times.

Each operation is followed step by step. What a step takes from the stack keeps to the
bound, which is all that there is to know of it where it is put back.

## Main definitions

* `Limits.elementBound`: The bound on elements.
* `Stack.Short`: A stack whose elements keep to a bound.
* `Frame.Within`, `Frame.Bounded`: Frames that keep to the limits within an instruction, and
  between two.

## Theorems

* `Stack.ensures_nip`, `Stack.ensures_popNumber`: Elements and numbers that are taken.
* `Exec.ensures_onStack`, `Exec.within_of_bounded`: From the stack to the frame.
* `Shuffle.within_execute`, `Arithmetic.within_execute`, `Flow.within_execute`,
  `Crypto.within_execute`, `LockTime.within_execute`: The operations.
* `Instruction.bounded_advance`: One instruction.
-/

namespace Bitcoin

open Steps (Ensures)

/-- No element of a stack is longer than this. Digests have up to thirty-two bytes. -/
def Limits.elementBound (limits : Limits) : Nat :=
  max (max limits.elementSize (limits.numberLength + 1)) 32

/-- The bound covers what is pushed, what is computed, and a digest. -/
theorem Limits.le_elementBound (limits : Limits) :
    limits.elementSize ≤ limits.elementBound ∧
      limits.numberLength + 1 ≤ limits.elementBound ∧ 32 ≤ limits.elementBound := by
  rw [elementBound]
  omega

namespace Stack

/-- The elements of a stack keep to a bound. -/
def Short (bound : Nat) (stack : Stack) : Prop :=
  ∀ element ∈ stack, element.length ≤ bound

variable {bound : Nat} {stack : Stack} {element : Bytes}

theorem Short.nil : Short bound [] :=
  fun _ hmem => absurd hmem List.not_mem_nil

/-- A stack stays short with a short element on it. -/
theorem Short.cons (h : element.length ≤ bound) (hstack : Short bound stack) :
    Short bound (element :: stack) := by
  intro found hfound
  rcases List.mem_cons.mp hfound with rfl | hfound
  · exact h
  · exact hstack found hfound

theorem Short.of_subset {rest : Stack} (hstack : Short bound stack) (h : rest ⊆ stack) :
    Short bound rest :=
  fun found hfound => hstack found (h hfound)

theorem ensures_peek (index : Nat) : Ensures (Short bound) (peek index)
    fun element stack => element.length ≤ bound ∧ Short bound stack := by
  intro stack element stack' hshort h
  rcases Exec.peek_eq_ok.mp h with ⟨hfound, rfl⟩
  exact ⟨hshort element (List.mem_of_getElem? hfound), hshort⟩

/-- The element that is taken out is a short one. -/
theorem ensures_nip (index : Nat) : Ensures (Short bound) (nip index)
    fun element stack => element.length ≤ bound ∧ Short bound stack := by
  intro stack element stack' hshort h
  rw [nip] at h
  split at h
  · next hfound =>
      cases h
      exact ⟨hshort element (List.mem_of_getElem? hfound),
        hshort.of_subset (List.eraseIdx_subset)⟩
  · cases h

theorem ensures_push (h : element.length ≤ bound) :
    Ensures (Short bound) (push element) fun _ => Short bound := by
  intro stack _ stack' hshort hpush
  cases hpush
  exact hshort.cons h

/-- Numbers of a width that keeps to the bound may be pushed. -/
theorem ensures_pushNumber {width : Nat} {n : Int} (h : Number.Fits width n)
    (hwidth : width ≤ bound) : Ensures (Short bound) (pushNumber n) fun _ => Short bound :=
  ensures_push (Nat.le_trans (Number.length_encode_le h) hwidth)

theorem ensures_pushBool (hbound : 1 ≤ bound) (b : Bool) :
    Ensures (Short bound) (pushBool b) fun _ => Short bound := by
  refine ensures_push (Nat.le_trans ?_ hbound)
  cases b with
  | false => exact Nat.zero_le _
  | true => exact Nat.le_refl _

/-- What is read as a number fits into the length that the rule allows. -/
theorem ensures_popNumber (rule : NumberRule) : Ensures (Short bound) (popNumber rule)
    fun n stack => Number.Fits rule.maxLength n ∧ Short bound stack := by
  refine (ensures_nip 0).next fun element _ => ?_
  intro stack n stack' hshort h
  rcases Exec.stackLift_eq_ok.mp h with ⟨hread, rfl⟩
  rcases NumberRule.read_eq_ok.mp hread with ⟨hlong, -, rfl⟩
  exact ⟨Number.fits_decode (Nat.not_lt.mp hlong), hshort⟩

theorem ensures_popMany (count : Nat) :
    Ensures (Short bound) (popMany count) fun _ => Short bound := by
  induction count with
  | zero => exact .pure fun _ h => h
  | succ count ih => exact (ensures_nip 0).next fun _ _ => ih.bind fun _ => .pure fun _ h => h

theorem ensures_pick (index : Nat) : Ensures (Short bound) (pick index) fun _ => Short bound :=
  (ensures_peek index).next fun _ h => ensures_push h

theorem ensures_roll (index : Nat) : Ensures (Short bound) (roll index) fun _ => Short bound :=
  (ensures_nip index).next fun _ h => ensures_push h

/-- What keeps a stack short may be done many times. -/
theorem ensures_times {action : StackM Unit} (count : Nat)
    (h : Ensures (Short bound) action fun _ => Short bound) :
    Ensures (Short bound) (times count action) fun _ => Short bound := by
  induction count with
  | zero => exact .pure fun _ h => h
  | succ count ih => exact h.bind fun _ => ih

theorem ensures_drop (count : Nat) :
    Ensures (Short bound) (drop count) fun _ => Short bound := by
  intro stack _ stack' hshort h
  rw [drop] at h
  split at h
  · cases h
  · cases h
    exact hshort.of_subset (List.drop_subset _ _)

theorem ensures_tuck : Ensures (Short bound) tuck fun _ => Short bound :=
  (ensures_nip 0).next fun _ hfirst => (ensures_nip 0).next fun _ hsecond =>
    (ensures_push hfirst).bind fun _ => (ensures_push hsecond).bind fun _ => ensures_push hfirst

end Stack

/-- The elements of both stacks keep to their bound, and the operations to their limit. -/
structure Frame.Within (limits : Limits) (frame : Frame) : Prop where
  stack : frame.stack.Short limits.elementBound
  alt : frame.alt.Short limits.elementBound
  operations : frame.operations ≤ limits.operations

/-- So does the depth, as it must between instructions. -/
structure Frame.Bounded (limits : Limits) (frame : Frame) : Prop extends
    Within limits frame where
  depth : frame.depth ≤ limits.stackDepth

open Bitcoin.Frame (Within Bounded)

namespace Exec

variable {limits : Limits} {α : Type}

/-- What keeps the elements of the main stack short leaves the rest of the frame alone. -/
theorem ensures_onStack {action : StackM α} {V : α → Prop}
    (h : Ensures (Stack.Short limits.elementBound) action
      fun a stack => V a ∧ stack.Short limits.elementBound) :
    Ensures (Within limits) (onStack action) fun a frame => V a ∧ Within limits frame := by
  intro frame a frame' hwithin hrun
  rcases onStack_eq_ok.mp hrun with ⟨stack, haction, rfl⟩
  rcases h _ _ _ hwithin.stack haction with ⟨hvalue, hshort⟩
  exact ⟨hvalue, hshort, hwithin.alt, hwithin.operations⟩

-- The same where nothing is said of the value.
theorem within_onStack {action : StackM α}
    (h : Ensures (Stack.Short limits.elementBound) action
      fun _ => Stack.Short limits.elementBound) :
    Ensures (Within limits) (onStack action) fun _ => Within limits :=
  (ensures_onStack (V := fun _ => True) (h.weaken fun _ _ hshort => ⟨trivial, hshort⟩)).weaken
    fun _ _ hwithin => hwithin.2

-- Hardly any operation needs to know that the stacks are not too deep.
theorem within_of_bounded {x : Exec α}
    (h : Ensures (Within limits) x fun _ => Within limits) :
    Ensures (Bounded limits) x fun _ => Within limits :=
  h.strengthen fun _ hbounded => hbounded.toWithin

theorem within_lift (result : Except Fault α) :
    Ensures (Within limits) (lift result) fun _ => Within limits := by
  intro frame a frame' hwithin hrun
  rcases lift_eq_ok.mp hrun with ⟨_, rfl⟩
  exact hwithin

theorem within_context (rules : Rules) (use : TransactionUse) :
    Ensures (Within limits) (context rules use) fun _ => Within limits := by
  rw [context]
  rcases rules.context? with _ | found
  · exact .throw _
  · exact .pure fun _ hwithin => hwithin

/-- Counting keeps within the limit on operations or fails. -/
theorem within_countOperations (rules : Rules) (count : Nat) :
    Ensures (Within rules.limits) (countOperations rules count)
      fun _ => Within rules.limits := by
  intro frame _ frame' hwithin hrun
  rcases countOperations_eq_ok.mp hrun with ⟨hlimit, rfl⟩
  exact ⟨hwithin.stack, hwithin.alt, hlimit⟩

theorem bounded_countOperations (rules : Rules) (count : Nat) :
    Ensures (Bounded rules.limits) (countOperations rules count)
      fun _ => Bounded rules.limits := by
  intro frame _ frame' hbounded hrun
  refine ⟨within_countOperations rules count _ _ _ hbounded.toWithin hrun, ?_⟩
  rcases countOperations_eq_ok.mp hrun with ⟨_, rfl⟩
  exact hbounded.depth

theorem within_pop : Ensures (Within limits) (Stack.pop : Exec Bytes)
    fun element frame => element.length ≤ limits.elementBound ∧ Within limits frame :=
  ensures_onStack (Stack.ensures_nip 0)

theorem within_popNumber (rules : Rules) : Ensures (Within limits)
    (Stack.popNumber rules.numbers : Exec Int) fun n frame =>
      Number.Fits rules.limits.numberLength n ∧ Within limits frame :=
  ensures_onStack (Stack.ensures_popNumber _)

theorem within_pushBool (b : Bool) :
    Ensures (Within limits) (Stack.pushBool b : Exec Unit) fun _ => Within limits :=
  within_onStack (Stack.ensures_pushBool (by have := limits.le_elementBound; omega) b)

theorem within_verifyTop (check : Check) :
    Ensures (Within limits) (verifyTop check) fun _ => Within limits :=
  (within_onStack ((Stack.ensures_nip 0).next fun _ _ => .pure fun _ h => h)).bind fun _ =>
    .ite (.throw _) (.pure fun _ hwithin => hwithin)

end Exec

open Exec

variable {rules : Rules}

namespace Shuffle

theorem within_popIndex : Ensures (Within rules.limits) (popIndex rules)
    fun _ => Within rules.limits :=
  (within_popNumber rules).next fun _ _ => .guard fun _ => .pure fun _ hwithin => hwithin

theorem within_toAlt : Ensures (Within rules.limits) toAlt fun _ => Within rules.limits :=
  within_pop.next fun _ hshort => .update fun _ hwithin =>
    ⟨hwithin.stack, hwithin.alt.cons hshort, hwithin.operations⟩

theorem within_fromAlt : Ensures (Within rules.limits) fromAlt fun _ => Within rules.limits := by
  intro frame _ frame' hwithin hrun
  rcases frame with ⟨stack, _ | ⟨element, alt⟩, blocks, operations, signed, next, checks⟩
  · cases hrun
  · cases hrun
    rcases List.forall_mem_cons.mp hwithin.alt with ⟨hshort, halt⟩
    exact ⟨hwithin.stack.cons hshort, halt, hwithin.operations⟩

/-- Elements that are moved about are as long as before. How many there are is itself a
    number, for which the limit on the depth must not be too great. -/
theorem within_execute (hdepth : rules.limits.stackDepth < 2 ^ 64) (op : StackOp) :
    Ensures (Bounded rules.limits) (execute rules op) fun _ => Within rules.limits := by
  have hbound := rules.limits.le_elementBound
  cases op with
  | depth =>
      refine .read fun frame hbounded => within_of_bounded (within_onStack ?_)
      -- The depth is pushed as a number, so it must fit. The limit on the depth sees to that.
      have hlength : frame.stack.length ≤ frame.depth := Nat.le_add_right _ _
      have hframe := hbounded.depth
      have hfits : Number.Fits 9 (frame.stack.length : Int) := by
        rw [Number.Fits, Int.natAbs_natCast]
        omega
      exact Stack.ensures_pushNumber hfits (by omega)
  | toAlt => exact within_of_bounded within_toAlt
  | fromAlt => exact within_of_bounded within_fromAlt
  | pick =>
      exact within_of_bounded <| within_popIndex.bind fun _ =>
        within_onStack (Stack.ensures_pick _)
  | roll =>
      exact within_of_bounded <| within_popIndex.bind fun _ =>
        within_onStack (Stack.ensures_roll _)
  | drop2 | drop => exact within_of_bounded (within_onStack (Stack.ensures_drop _))
  | nip =>
      exact within_of_bounded <|
        (ensures_onStack (Stack.ensures_nip 1)).next fun _ _ => .pure fun _ hwithin => hwithin
  | tuck => exact within_of_bounded (within_onStack Stack.ensures_tuck)
  | dupIfTrue =>
      exact within_of_bounded <| within_onStack <|
        (Stack.ensures_peek 0).next fun _ hshort =>
          .ite (Stack.ensures_push hshort) (.pure fun _ h => h)
  | swap2 | swap | rot2 | rot =>
      exact within_of_bounded <| within_onStack <|
        Stack.ensures_times _ (Stack.ensures_roll _)
  | _ =>
      exact within_of_bounded <| within_onStack <|
        Stack.ensures_times _ (Stack.ensures_pick _)

end Shuffle

/-- What is computed is one byte longer than the operands at most. -/
theorem Arithmetic.within_execute (op : ArithmeticOp) :
    Ensures (Within rules.limits) (execute rules op) fun _ => Within rules.limits := by
  have hbound := rules.limits.le_elementBound
  have hpop : Ensures (Stack.Short rules.limits.elementBound) (Stack.popNumber rules.numbers)
      fun n stack => Number.Fits rules.limits.numberLength n ∧
        stack.Short rules.limits.elementBound := Stack.ensures_popNumber _
  -- A result is at most a byte longer than what it is computed from.
  have hbinary (op : BinaryOp) : Ensures (Stack.Short rules.limits.elementBound)
      (binary rules.numbers op) fun _ => Stack.Short rules.limits.elementBound :=
    hpop.next fun _ hn => hpop.next fun _ hm =>
      Stack.ensures_pushNumber (hm.binary op hn) hbound.2.1
  cases op with
  | unary op =>
      exact within_onStack <| hpop.next fun _ hn =>
        Stack.ensures_pushNumber (hn.unary op) hbound.2.1
  | binary op => exact within_onStack (hbinary op)
  | within =>
      exact within_onStack <| hpop.next fun _ _ => hpop.next fun _ _ => hpop.next fun _ _ =>
        Stack.ensures_pushBool (by omega) _
  | equalVerify => exact (within_onStack (hbinary .equal)).bind fun _ => within_verifyTop _

namespace Flow

theorem within_popCondition (op : UInt8) :
    Ensures (Within rules.limits) (popCondition rules op) fun _ => Within rules.limits :=
  .read fun _ _ => .guard fun _ => within_pop.next fun _ _ => .guard fun _ =>
    .pure fun _ hwithin => hwithin

theorem within_openBlock (op : UInt8) (wanted : Bool) :
    Ensures (Within rules.limits) (openBlock rules op wanted) fun _ => Within rules.limits := by
  have hopen (live : Bool) : Ensures (Within rules.limits)
      (modify fun frame => { frame with blocks := live :: frame.blocks } : Exec Unit)
      fun _ => Within rules.limits :=
    .update fun _ hwithin => ⟨hwithin.stack, hwithin.alt, hwithin.operations⟩
  exact .read fun _ _ => .ite ((within_popCondition op).bind fun _ => hopen _) (hopen _)

/-- Blocks have nothing to do with the stacks, but for the conditions that they take. -/
theorem within_execute (code : UInt8) (op : FlowOp) :
    Ensures (Within rules.limits) (execute rules code op) fun _ => Within rules.limits := by
  cases op with
  | nop => exact .pure fun _ hwithin => hwithin
  | ifTrue => exact within_openBlock code true
  | ifFalse => exact within_openBlock code false
  | ifVersion | ifNotVersion | earlyReturn => exact .throw _
  | verify => exact within_verifyTop _
  | otherwise | endIf =>
      -- Both need an open block, and change nothing but the blocks.
      intro frame _ frame' hwithin hrun
      rcases frame with ⟨stack, alt, _ | ⟨live, outer⟩, operations, signed, next, checks⟩
      · cases hrun
      · cases hrun
        exact ⟨hwithin.stack, hwithin.alt, hwithin.operations⟩

end Flow

namespace Crypto

/-- A digest has at most 32 bytes. -/
theorem within_digest {size : Nat} (hash : Bytes → ByteVec size) (hsize : size ≤ 32) :
    Ensures (Within rules.limits) (digest hash : Exec Unit) fun _ => Within rules.limits := by
  have hbound := rules.limits.le_elementBound
  refine within_onStack ((Stack.ensures_nip 0).next fun element _ => Stack.ensures_push ?_)
  rw [(hash element).length_bytes]
  omega

theorem within_checkForms (sig key : Bytes) :
    Ensures (Within rules.limits) (checkForms rules sig key) fun _ => Within rules.limits :=
  (within_lift _).bind fun _ => within_lift _

theorem within_ask (context : Context) (code : Script) (sig key : Bytes) :
    Ensures (Within rules.limits) (ask rules context code sig key)
      fun _ => Within rules.limits :=
  .ite (.pure fun _ hwithin => hwithin) <| .bind
    (.update fun _ hwithin => ⟨hwithin.stack, hwithin.alt, hwithin.operations⟩)
    fun _ => .pure fun _ hwithin => hwithin

/-- However the matching goes, it only adds to the record. -/
theorem within_matchKeys (context : Context) (code : Script) (sigs keys : List Bytes) :
    Ensures (Within rules.limits) (matchKeys rules context code sigs keys)
      fun _ => Within rules.limits := by
  induction keys generalizing sigs with
  | nil =>
      cases sigs with
      | nil => exact .pure fun _ hwithin => hwithin
      | cons sig sigs => exact .pure fun _ hwithin => hwithin
  | cons key keys ih =>
      cases sigs with
      | nil => exact .pure fun _ hwithin => hwithin
      | cons sig sigs =>
          exact (within_checkForms sig key).bind fun _ =>
            (within_ask context code sig key).bind fun _ =>
              .ite (.pure fun _ hwithin => hwithin) (ih _)

theorem within_popCount (limit : Nat) (fault : Int → Nat → Fault) :
    Ensures (Within rules.limits) (popCount rules limit fault) fun _ => Within rules.limits :=
  (within_popNumber rules).next fun _ _ => .guard fun _ => .pure fun _ hwithin => hwithin

theorem within_checkSig :
    Ensures (Within rules.limits) (checkSig rules) fun _ => Within rules.limits :=
  within_pop.next fun _ _ => within_pop.next fun _ _ => (within_context rules _).bind fun _ =>
    (within_checkForms _ _).bind fun _ => .read fun _ _ => (within_ask _ _ _ _).bind fun _ =>
      .guard fun _ => within_pushBool _

theorem within_checkMultiSig :
    Ensures (Within rules.limits) (checkMultiSig rules) fun _ => Within rules.limits :=
  (within_popCount _ _).bind fun _ => (within_countOperations rules _).bind fun _ =>
    (within_onStack (Stack.ensures_popMany _)).bind fun _ => (within_popCount _ _).bind fun _ =>
      (within_onStack (Stack.ensures_popMany _)).bind fun _ => within_pop.next fun _ _ =>
        .guard fun _ => (within_context rules _).bind fun _ => .read fun _ _ =>
          (within_matchKeys _ _ _ _).bind fun _ => .guard fun _ => within_pushBool _

/-- Digests and answers are short, and keys are counted as operations. -/
theorem within_execute (op : CryptoOp) :
    Ensures (Within rules.limits) (execute rules op) fun _ => Within rules.limits := by
  cases op with
  | codeSeparator =>
      exact .update fun _ hwithin => ⟨hwithin.stack, hwithin.alt, hwithin.operations⟩
  | checkSig => exact within_checkSig
  | checkSigVerify => exact within_checkSig.bind fun _ => within_verifyTop _
  | checkMultiSig => exact within_checkMultiSig
  | checkMultiSigVerify => exact within_checkMultiSig.bind fun _ => within_verifyTop _
  | _ => exact within_digest _ (by decide)

end Crypto

theorem LockTime.within_execute (op : LockTimeOp) :
    Ensures (Within rules.limits) (execute rules op) fun _ => Within rules.limits := by
  have hcheck : Ensures (Within rules.limits) (check rules op) fun _ => Within rules.limits := by
    intro frame _ frame' hwithin hrun
    rw [(leaves_check rules op).eq_of_ok hrun]
    exact hwithin
  exact .ite hcheck (.ite (.throw _) (.pure fun _ hwithin => hwithin))

/-- Whether an operation pushes no number of its own, or one of those up to sixteen. -/
def Operation.isSmall : Operation → Bool
  | .pushNumber n => n.natAbs ≤ 16
  | _ => true

theorem Opcode.isSmall_operation (op : UInt8) : (operation op).isSmall = true :=
  have hop : op ≤ 0xff := UInt8.le_iff_toNat_le.mpr (Nat.le_of_lt_succ op.toNat_lt)
  of_le (p := fun op => (operation op).isSmall = true) hop (by decide +kernel)

/-- The numbers that opcodes push fit into one byte. -/
theorem Opcode.fits_of_pushNumber {op : UInt8} {n : Int} (h : operation op = .pushNumber n) :
    Number.Fits 1 n := by
  have hsmall := isSmall_operation op
  rw [h] at hsmall
  have hle : n.natAbs ≤ 16 := of_decide_eq_true hsmall
  rw [Number.Fits]
  omega

namespace Instruction

variable (instruction : Instruction)

/-- An instruction that takes effect, with a payload that may be pushed. -/
theorem within_perform (hdepth : rules.limits.stackDepth < 2 ^ 64)
    (hsize : instruction.data.length ≤ rules.limits.elementSize) :
    Ensures (Bounded rules.limits) (instruction.perform rules)
      fun _ => Within rules.limits := by
  have hbound := rules.limits.le_elementBound
  have hequal : Ensures (Stack.Short rules.limits.elementBound) pushEqual
      fun _ => Stack.Short rules.limits.elementBound :=
    (Stack.ensures_nip 0).next fun _ _ => (Stack.ensures_nip 0).next fun _ _ =>
      Stack.ensures_pushBool (by omega) _
  rw [perform]
  -- What is put on the stack is one case for each kind of instruction.
  cases hoperation : instruction.operation with
  | stack op => exact Shuffle.within_execute hdepth op
  | pushData =>
      have hpush : Ensures (Within rules.limits) (Stack.push instruction.data : Exec Unit)
          fun _ => Within rules.limits := within_onStack (Stack.ensures_push (by omega))
      exact within_of_bounded (.ite ((within_lift _).bind fun _ => hpush) hpush)
  | pushNumber n =>
      exact within_of_bounded <| within_onStack <|
        Stack.ensures_pushNumber (Opcode.fits_of_pushNumber hoperation) (by omega)
  | flow op => exact within_of_bounded (Flow.within_execute _ op)
  | size =>
      exact within_of_bounded <| within_onStack <|
        (Stack.ensures_peek 0).next fun _ hshort =>
          Stack.ensures_pushNumber (Number.fits_of_le hshort (by omega)) (Nat.le_refl _)
  | equal => exact within_of_bounded (within_onStack hequal)
  | equalVerify =>
      exact within_of_bounded <| (within_onStack hequal).bind fun _ =>
        within_verifyTop _
  | arithmetic op => exact within_of_bounded (Arithmetic.within_execute op)
  | crypto op => exact within_of_bounded (Crypto.within_execute op)
  | lockTime op => exact within_of_bounded (LockTime.within_execute op)
  | upgradableNop =>
      exact within_of_bounded (.ite (.throw _) (.pure fun _ hwithin => hwithin))
  | disabled | reserved | invalid => exact .throw _

/-- The payload is held to its limit first, so what is performed may push it. -/
theorem within_execute (hdepth : rules.limits.stackDepth < 2 ^ 64) :
    Ensures (Bounded rules.limits) (instruction.execute rules) fun _ => Within rules.limits := by
  refine .guard fun hlong => ?_
  have hperform : Ensures (Bounded rules.limits) (do
      if (← get).isLive ∨ instruction.operation.isConditional then instruction.perform rules)
      fun _ => Within rules.limits :=
    .read fun _ _ => .ite (instruction.within_perform hdepth (Nat.not_lt.mp hlong))
      (.pure fun _ hbounded => hbounded.toWithin)
  exact .ite ((bounded_countOperations rules 1).bind fun _ => .guard fun _ => hperform)
    (.guard fun _ => hperform)

/-- The depth is held to its limit at the end. -/
theorem bounded_advance (rest : Program) (hdepth : rules.limits.stackDepth < 2 ^ 64) :
    Ensures (Bounded rules.limits) (instruction.advance rules rest)
      fun _ => Bounded rules.limits := by
  intro frame _ frame' hbounded hrun
  rcases advance_eq_ok.mp hrun with ⟨hexecute, hlimit⟩
  have hstart : Bounded rules.limits { frame with next := rest } :=
    ⟨⟨hbounded.stack, hbounded.alt, hbounded.operations⟩, hbounded.depth⟩
  exact ⟨instruction.within_execute hdepth _ _ _ hstart hexecute, hlimit⟩

end Instruction

end Bitcoin
