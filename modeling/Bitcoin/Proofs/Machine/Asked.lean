import Bitcoin.Proofs.Machine.Evaluation
import Bitcoin.Proofs.Machine.Form
import Bitcoin.Proofs.Machine.Pushes

/-!
# Which Questions Are Asked

The context is asked only by the operations that check signatures, and only about what
they have taken from the stack. A question may precede a failure, so it is followed
here what a computation leaves whether it succeeds or not: the record is added to, and
what is added is of a kind that the frame before the operation determines.

The script code of a question is made from the instructions that signatures commit to. They
are part of the same account, since they must not have changed between the beginning of an
operation and its questions. Only a code separator changes them, and it asks nothing.

## Main definitions

* `Exec.Asks`: Computations that ask questions of a kind.
* `Crypto.Takes`: The signatures and keys that an operation takes from the stack.
* `Crypto.Asked`, `Instruction.Asked`: What an operation asks.

## Theorems

* `Exec.Asks.bind`, `Exec.Asks.onStack`, `Exec.Asks.read`: How such computations are made.
* `Crypto.takes_several`: What a multisignature takes, by its counts.
* `Crypto.asks_checkSig`, `Crypto.asks_checkMultiSig`: The operations that ask.
* `Instruction.asks_perform`: All operations but the code separator.
* `Instruction.signed_advance`, `Instruction.asked_advance`: One instruction.
-/

namespace Bitcoin

theorem Frame.scriptCode_congr {frame frame' : Frame} (h : frame'.signed = frame.signed)
    (sigs : List Bytes) : frame'.scriptCode sigs = frame.scriptCode sigs := by
  rw [scriptCode, scriptCode, h]

namespace Exec

variable {α β : Type} {P : SignatureCheck → Prop} {frame : Frame}

/-- From a frame on, a computation asks questions of a kind only, whether it succeeds or
    not, and what signatures commit to stays as it is. -/
structure Asks (P : SignatureCheck → Prop) (x : Exec α) (frame : Frame) : Prop where
  signed : (x.after frame).signed = frame.signed
  checks : ∃ asked, (x.after frame).checks = asked ++ frame.checks ∧ ∀ check ∈ asked, P check

namespace Asks

-- Most computations ask nothing.
theorem of_after {x : Exec α} {frame' : Frame} (h : x.after frame = frame')
    (hsigned : frame'.signed = frame.signed) (hchecks : frame'.checks = frame.checks) :
    Asks P x frame := by
  subst h
  exact ⟨hsigned, [], hchecks, fun _ hmem => absurd hmem List.not_mem_nil⟩

theorem pure (a : α) : Asks P (Pure.pure a : Exec α) frame :=
  of_after rfl rfl rfl

theorem throw (fault : Fault) : Asks P (MonadExcept.throw fault : Exec α) frame :=
  of_after rfl rfl rfl

theorem modify {g : Frame → Frame} (hsigned : (g frame).signed = frame.signed)
    (hchecks : (g frame).checks = frame.checks) : Asks P (modify g) frame :=
  of_after rfl hsigned hchecks

/-- Less may be wanted of the questions. -/
theorem mono {Q : SignatureCheck → Prop} {x : Exec α} (hx : Asks P x frame)
    (h : ∀ check, P check → Q check) : Asks Q x frame := by
  rcases hx.checks with ⟨asked, hchecks, hasked⟩
  exact ⟨hx.signed, asked, hchecks, fun check hmem => h check (hasked check hmem)⟩

/-- The second step begins in the frame that the first one leaves, if it does not fail. -/
theorem bind {x : Exec α} {f : α → Exec β} (hx : Asks P x frame)
    (hf : ∀ a between, x frame = .ok a between → between.signed = frame.signed →
      Asks P (f a) between) : Asks P (x >>= f) frame := by
  -- The second computation adds its questions to those of the first one, or it is not reached.
  rcases hfirst : x frame with ⟨a, between⟩ | ⟨fault, between⟩
  · have hafter : (x >>= f).after frame = (f a).after between := by
      rw [after, after, Steps.bind_ok hfirst]
    have hsigned := hx.signed
    rcases hx.checks with ⟨asked, hchecks, hasked⟩
    rw [after_of_ok hfirst] at hsigned hchecks
    have hrest := hf a between hfirst hsigned
    rcases hrest.checks with ⟨asked', hchecks', hasked'⟩
    refine ⟨hafter ▸ hrest.signed.trans hsigned, asked' ++ asked, ?_, ?_⟩
    · rw [hafter, hchecks', hchecks, List.append_assoc]
    · exact List.forall_mem_append.mpr ⟨hasked', hasked⟩
  · have hafter : (x >>= f).after frame = x.after frame := by
      rw [after, after, Steps.bind_error hfirst, hfirst]
    exact ⟨hafter ▸ hx.signed, hafter ▸ hx.checks⟩

theorem ite {x y : Exec α} {c : Prop} [Decidable c] (hx : Asks P x frame) (hy : Asks P y frame) :
    Asks P (if c then x else y) frame := by
  by_cases h : c
  · rw [if_pos h]
    exact hx
  · rw [if_neg h]
    exact hy

-- A refusal that is met ends the computation.
theorem guard {x : Exec α} {k : β → Exec α} {c : Prop} [Decidable c] {fault : Fault}
    (hx : Asks P x frame) :
    Asks P (if c then MonadExcept.throw fault >>= k else x) frame :=
  .ite (.of_after rfl rfl rfl) hx

/-- What works on the stack asks nothing. -/
theorem onStack (action : StackM α) : Asks P (Exec.onStack action) frame := by
  have hafter : ∃ stack, (Exec.onStack action).after frame = { frame with stack } := by
    rw [after, Exec.onStack]
    rcases action frame.stack with ⟨a, stack⟩ | ⟨fault, stack⟩
    · exact ⟨stack, rfl⟩
    · exact ⟨stack, rfl⟩
  rcases hafter with ⟨stack, hafter⟩
  exact of_after hafter rfl rfl

-- Where no question is of the kind, none is asked.
theorem checks_eq {x : Exec α} {a : α} {frame' : Frame} (h : Asks (fun _ => False) x frame)
    (hx : x frame = .ok a frame') : frame'.checks = frame.checks := by
  rcases h.checks with ⟨asked, hchecks, hasked⟩
  rw [after_of_ok hx, List.eq_nil_iff_forall_not_mem.mpr hasked] at hchecks
  exact hchecks

theorem lift (result : Except Fault α) : Asks P (Exec.lift result) frame := by
  rcases result with fault | value
  · exact throw fault
  · exact pure value

theorem read {f : Frame → Exec α} (hf : Asks P (f frame) frame) : Asks P (get >>= f) frame :=
  ⟨hf.signed, hf.checks⟩

end Asks

variable (rules : Rules)

theorem asks_countOperations (count : Nat) : Asks P (countOperations rules count) frame :=
  .bind (.modify rfl rfl) fun _ _ _ _ => .read (.ite (.throw _) (.pure _))

theorem asks_verifyTop (check : Check) : Asks P (verifyTop check) frame :=
  .bind (.onStack _) fun _ _ _ _ => .ite (.throw _) (.pure _)

theorem asks_context (use : TransactionUse) : Asks P (context rules use) frame := by
  rw [context]
  rcases rules.context? with _ | found
  · exact .throw _
  · exact .pure _

end Exec

open Exec (Asks)

section
variable {P : SignatureCheck → Prop} {frame : Frame} (rules : Rules)

/-- Blocks are opened and closed without a question. -/
theorem Flow.asks_execute (op : UInt8) (flow : FlowOp) : Asks P (execute rules op flow) frame := by
  have hcondition (frame : Frame) : Asks P (popCondition rules op) frame :=
    .read (.guard (.bind (.onStack _) fun _ _ _ _ => .guard (.pure _)))
  have hopen (wanted : Bool) : Asks P (openBlock rules op wanted) frame :=
    .read (.ite (.bind (hcondition frame) fun _ _ _ _ => .modify rfl rfl) (.modify rfl rfl))
  -- Only the blocks are changed, or the top of the stack is taken.
  cases flow with
  | nop => exact .pure _
  | ifTrue => exact hopen true
  | ifFalse => exact hopen false
  | ifVersion => exact .throw _
  | ifNotVersion => exact .throw _
  | otherwise =>
      change Asks P (turn op) frame
      rcases hblocks : frame.blocks with _ | ⟨live, outer⟩
      · exact .of_after (Exec.after_of_error (by rw [turn, hblocks])) rfl rfl
      · have hturn : turn op frame = .ok () { frame with blocks := (!live) :: outer } := by
          rw [turn, hblocks]
        exact .of_after (Exec.after_of_ok hturn) rfl rfl
  | endIf =>
      change Asks P (close op) frame
      rcases hblocks : frame.blocks with _ | ⟨live, outer⟩
      · exact .of_after (Exec.after_of_error (by rw [close, hblocks])) rfl rfl
      · have hclose : close op frame = .ok () { frame with blocks := outer } := by
          rw [close, hblocks]
        exact .of_after (Exec.after_of_ok hclose) rfl rfl
  | verify => exact Exec.asks_verifyTop _
  | earlyReturn => exact .throw _

/-- Neither do operations on the stack ask anything. -/
theorem Shuffle.asks_execute (op : StackOp) : Asks P (execute rules op) frame := by
  have hindex : Asks P (popIndex rules) frame :=
    .bind (.onStack _) fun _ _ _ _ => .guard (.pure _)
  cases op with
  | toAlt => exact .bind (.onStack _) fun _ _ _ _ => .modify rfl rfl
  | fromAlt =>
      change Asks P fromAlt frame
      rcases halt : frame.alt with _ | ⟨element, alt⟩
      · exact .of_after (Exec.after_of_error (by rw [fromAlt, halt])) rfl rfl
      · have hback : fromAlt frame
            = .ok () { frame with stack := element :: frame.stack, alt } := by
          rw [fromAlt, halt]
        exact .of_after (Exec.after_of_ok hback) rfl rfl
  | depth => exact .read (.onStack _)
  | pick => exact .bind hindex fun _ _ _ _ => .onStack _
  | roll => exact .bind hindex fun _ _ _ _ => .onStack _
  | nip => exact .bind (.onStack (Stack.nip 1)) fun _ _ _ _ => .pure ()
  | _ => exact .onStack _

theorem Arithmetic.asks_execute (op : ArithmeticOp) : Asks P (execute rules op) frame := by
  cases op with
  | equalVerify => exact .bind (.onStack _) fun _ _ _ _ => Exec.asks_verifyTop _
  | _ => exact .onStack _

/-- Lock times are read off the transaction, and no signature is asked about. -/
theorem LockTime.asks_execute (op : LockTimeOp) : Asks P (execute rules op) frame := by
  have hrequired : Asks P (required rules) frame :=
    .bind (.onStack _) fun _ _ _ _ => .guard (.pure _)
  have hcheck : Asks P (check rules op) frame := by
    cases op with
    | absolute =>
        exact .bind hrequired fun _ _ _ _ =>
          .bind (Exec.asks_context rules _) fun _ _ _ _ => .lift _
    | relative =>
        exact .bind hrequired fun _ _ _ _ =>
          .ite (.bind (Exec.asks_context rules _) fun _ _ _ _ => .lift _) (.pure _)
  exact .ite hcheck (.ite (.throw _) (.pure _))

end

namespace Exec

variable {frame frame' : Frame}

theorem stack_of_pop {top : Bytes} (h : (Stack.pop : Exec Bytes) frame = .ok top frame') :
    frame.stack = top :: frame'.stack := by
  rcases pop_eq_ok.mp h with ⟨below, hstack, rfl⟩
  exact hstack

/-- Several elements that are taken are those on top, as many as are asked for. -/
theorem stack_of_popMany {count : Nat} {taken : List Bytes}
    (h : (Stack.popMany count : Exec (List Bytes)) frame = .ok taken frame') :
    taken.length = count ∧ frame.stack = taken ++ frame'.stack := by
  -- On the bare stack first, as for what they leave.
  have hpop : ∀ count stack taken rest, Stack.popMany count stack = .ok taken rest →
      taken.length = count ∧ stack = taken ++ rest := by
    intro count
    induction count with
    | zero =>
        intro stack taken rest h
        cases h
        exact ⟨rfl, rfl⟩
    | succ count ih =>
        intro stack taken rest h
        rcases Steps.bind_eq_ok.mp h with ⟨first, below, hfirst, hrest⟩
        rcases Steps.bind_eq_ok.mp hrest with ⟨more, last, hmore, hreturn⟩
        cases hreturn
        rcases ih _ _ _ hmore with ⟨hlength, rfl⟩
        exact ⟨congrArg Nat.succ hlength, Stack.pop_eq_ok.mp hfirst⟩
  rcases onStack_eq_ok.mp h with ⟨rest, htaken, rfl⟩
  exact hpop _ _ _ _ htaken

end Exec

namespace Crypto

/-- The signatures and keys that an operation takes from the stack. There may be several, and
    then their numbers are above them, and below them is one element more. -/
inductive Takes : CryptoOp → Stack → (sigs keys : List Bytes) → Prop
  | one {op : CryptoOp} {sig key : Bytes} {rest : Stack}
      (h : op = .checkSig ∨ op = .checkSigVerify) : Takes op (key :: sig :: rest) [sig] [key]
  | several {op : CryptoOp} {keyCount sigCount extra : Bytes} {sigs keys : List Bytes}
      {rest : Stack} (h : op = .checkMultiSig ∨ op = .checkMultiSigVerify)
      (hkeys : Number.clamp 0x80000000 (Number.decode keyCount) = keys.length)
      (hsigs : Number.clamp 0x80000000 (Number.decode sigCount) = sigs.length) :
      Takes op (keyCount :: (keys ++ sigCount :: (sigs ++ extra :: rest))) sigs keys

/-- What an operation asks in a frame: whether a signature that it takes belongs to a key
    that it takes, over the script code of all these signatures. -/
def Asked (rules : Rules) (op : CryptoOp) (frame : Frame) (check : SignatureCheck) : Prop :=
  ∃ sigs keys, Takes op frame.stack sigs keys ∧ check.sig ∈ sigs ∧ check.key ∈ keys ∧
    check.code = frame.scriptCode sigs ∧ check.input = rules.input

variable {P : SignatureCheck → Prop} {rules : Rules} {frame frame' : Frame}

/-- A question that is recorded satisfies the condition. -/
theorem asks_ask {context : Context} {code : Script} {sig key : Bytes}
    (h : P ⟨sig, key, code, rules.input⟩) : Asks P (ask rules context code sig key) frame := by
  have hrecord : Asks P (modify fun frame =>
      { frame with checks := ⟨sig, key, code, rules.input⟩ :: frame.checks } : Exec Unit) frame :=
    ⟨rfl, [⟨sig, key, code, rules.input⟩], rfl, List.forall_mem_singleton.mpr h⟩
  exact .ite (.pure _) (.bind hrecord fun _ _ _ _ => .pure _)

theorem asks_checkForms (sig key : Bytes) : Asks P (checkForms rules sig key) frame :=
  .bind (.lift _) fun _ _ _ _ => .lift _

/-- The matching asks about the given signatures and keys only. -/
theorem asks_matchKeys {context : Context} {code : Script} {sigs keys : List Bytes}
    (h : ∀ sig ∈ sigs, ∀ key ∈ keys, P ⟨sig, key, code, rules.input⟩) :
    Asks P (matchKeys rules context code sigs keys) frame := by
  induction keys generalizing sigs frame with
  | nil =>
      rcases sigs with _ | ⟨sig, sigs⟩
      · exact .pure _
      · exact .pure _
  | cons key keys ih =>
      rcases sigs with _ | ⟨sig, sigs⟩
      · exact .pure _
      · rw [matchKeys]
        refine .bind (asks_checkForms sig key) fun _ _ _ _ => ?_
        refine .bind (asks_ask (h sig List.mem_cons_self key List.mem_cons_self))
          fun valid _ _ _ => .ite (.pure _) (ih fun other hother key' hkey' => ?_)
        -- The signatures that are left are among the given ones.
        refine h other ?_ key' (List.mem_cons_of_mem _ hkey')
        by_cases hvalid : valid = true
        · rw [if_pos hvalid] at hother
          exact List.mem_cons_of_mem _ hother
        · rw [if_neg hvalid] at hother
          exact hother

/-- A count that is taken is that of the top element. -/
theorem stack_of_popCount {limit count : Nat} {fault : Int → Nat → Fault}
    (h : popCount rules limit fault frame = .ok count frame') :
    ∃ top, frame.stack = top :: frame'.stack ∧
      Number.clamp 0x80000000 (Number.decode top) = count := by
  rcases Steps.bind_eq_ok.mp h with ⟨n, between, hpop, hrest⟩
  rcases Exec.onStack_eq_ok.mp hpop with ⟨below, hnumber, rfl⟩
  rcases Steps.bind_eq_ok.mp hnumber with ⟨top, stack, htop, hlift⟩
  rcases Exec.stackLift_eq_ok.mp hlift with ⟨hread, rfl⟩
  rcases NumberRule.read_eq_ok.mp hread with ⟨-, -, rfl⟩
  rcases Steps.guard_eq_ok.mp hrest with ⟨hrange, hreturn⟩
  cases hreturn
  refine ⟨top, Stack.pop_eq_ok.mp htop, ?_⟩
  rw [Int.toNat_of_nonneg (by omega)]

/-- What is taken one after the other by a multisignature. -/
theorem takes_several {op : CryptoOp} {limit limit' keyCount sigCount : Nat}
    {fault fault' : Int → Nat → Fault} {keys sigs : List Bytes} {extra : Bytes}
    {first second third fourth fifth sixth : Frame}
    (h : op = .checkMultiSig ∨ op = .checkMultiSigVerify)
    (hfirst : popCount rules limit fault frame = .ok keyCount first)
    (hsecond : Exec.countOperations rules keyCount first = .ok () second)
    (hthird : (Stack.popMany keyCount : Exec (List Bytes)) second = .ok keys third)
    (hfourth : popCount rules limit' fault' third = .ok sigCount fourth)
    (hfifth : (Stack.popMany sigCount : Exec (List Bytes)) fourth = .ok sigs fifth)
    (hsixth : (Stack.pop : Exec Bytes) fifth = .ok extra sixth) :
    Takes op frame.stack sigs keys := by
  rcases stack_of_popCount hfirst with ⟨top, hstack, hkeys⟩
  rcases Exec.stack_of_popMany hthird with ⟨hkeysLength, hkeysStack⟩
  rcases stack_of_popCount hfourth with ⟨top', hstack', hsigs⟩
  rcases Exec.stack_of_popMany hfifth with ⟨hsigsLength, hsigsStack⟩
  -- Counting the keys as operations does not touch the stack.
  have hcounted : second.stack = first.stack := by
    rcases Exec.countOperations_eq_ok.mp hsecond with ⟨-, rfl⟩
    rfl
  rw [hstack, ← hcounted, hkeysStack, hstack', hsigsStack, Exec.stack_of_pop hsixth]
  exact .several h (hkeys.trans (congrArg Nat.cast hkeysLength.symm))
    (hsigs.trans (congrArg Nat.cast hsigsLength.symm))

theorem asks_popCount (limit : Nat) (fault : Int → Nat → Fault) :
    Asks P (popCount rules limit fault) frame :=
  .bind (.onStack _) fun _ _ _ _ => .guard (.pure _)

/-- A signature check asks about the two elements that it takes. -/
theorem asks_checkSig {op : CryptoOp} (h : op = .checkSig ∨ op = .checkSigVerify) :
    Asks (Asked rules op frame) (checkSig rules) frame := by
  refine .bind (.onStack _) fun key below hkey hsigned => ?_
  refine .bind (.onStack _) fun sig below' hsig hsigned' => ?_
  refine .bind (Exec.asks_context rules _) fun context between _ hsigned'' => ?_
  refine .bind (asks_checkForms sig key) fun _ last _ hsigned''' => .read ?_
  refine .bind (asks_ask ⟨[sig], [key], ?_, ?_⟩) fun _ _ _ _ => .guard (.onStack _)
  · rw [Exec.stack_of_pop hkey, Exec.stack_of_pop hsig]
    exact .one h
  · have hcode : last.signed = frame.signed :=
      hsigned'''.trans (hsigned''.trans (hsigned'.trans hsigned))
    exact ⟨List.mem_singleton_self _, List.mem_singleton_self _, Frame.scriptCode_congr hcode [sig],
      rfl⟩

/-- A multisignature asks about the elements that its counts tell, over a script code without all
    of its signatures. -/
theorem asks_checkMultiSig {op : CryptoOp} (h : op = .checkMultiSig ∨ op = .checkMultiSigVerify) :
    Asks (Asked rules op frame) (checkMultiSig rules) frame := by
  refine .bind (asks_popCount _ _) fun keyCount first hfirst hsigned₁ => ?_
  refine .bind (Exec.asks_countOperations rules _) fun _ second hsecond hsigned₂ => ?_
  refine .bind (.onStack _) fun keys third hthird hsigned₃ => ?_
  refine .bind (asks_popCount _ _) fun sigCount fourth hfourth hsigned₄ => ?_
  refine .bind (.onStack _) fun sigs fifth hfifth hsigned₅ => ?_
  refine .bind (.onStack _) fun extra sixth hsixth hsigned₆ => .guard ?_
  refine .bind (Exec.asks_context rules _) fun context last _ hsigned₇ => .read ?_
  refine .bind (asks_matchKeys fun sig hsig key hkey => ⟨sigs, keys, ?_, hsig, hkey, ?_, rfl⟩)
    fun _ _ _ _ => .guard (.onStack _)
  · -- The six steps before the matching have taken them off the stack.
    exact takes_several h hfirst hsecond hthird hfourth hfifth hsixth
  · -- None of these steps has changed what is signed.
    have hcode : last.signed = frame.signed := by
      rw [hsigned₇, hsigned₆, hsigned₅, hsigned₄, hsigned₃, hsigned₂, hsigned₁]
    exact Frame.scriptCode_congr hcode sigs

/-- All operations but the code separator. -/
theorem asks_execute {op : CryptoOp} (h : op ≠ .codeSeparator) :
    Asks (Asked rules op frame) (execute rules op) frame := by
  cases op with
  | codeSeparator => exact absurd rfl h
  | checkSig => exact asks_checkSig (.inl rfl)
  | checkSigVerify => exact .bind (asks_checkSig (.inr rfl)) fun _ _ _ _ => Exec.asks_verifyTop _
  | checkMultiSig => exact asks_checkMultiSig (.inl rfl)
  | checkMultiSigVerify =>
      exact .bind (asks_checkMultiSig (.inr rfl)) fun _ _ _ _ => Exec.asks_verifyTop _
  | _ => exact .onStack _

end Crypto

namespace Instruction

variable {rules : Rules} {instruction : Instruction} {rest : Program} {frame frame' : Frame}

/-- What an instruction asks in a frame. -/
def Asked (rules : Rules) (instruction : Instruction) (frame : Frame) (check : SignatureCheck) :
    Prop :=
  ∃ op, instruction.operation = .crypto op ∧ Crypto.Asked rules op frame check

/-- Only operations on signatures ask, apart from the separator, which changes what is signed. -/
theorem asks_perform (h : instruction.operation ≠ .crypto .codeSeparator) :
    Asks (Asked rules instruction frame) (instruction.perform rules) frame := by
  rw [perform]
  cases hoperation : instruction.operation with
  | pushData => exact .ite (.bind (.lift _) fun _ _ _ _ => .onStack _) (.onStack _)
  | flow op => exact Flow.asks_execute rules _ op
  | stack op => exact Shuffle.asks_execute rules op
  | equalVerify => exact .bind (.onStack _) fun _ _ _ _ => Exec.asks_verifyTop _
  | arithmetic op => exact Arithmetic.asks_execute rules op
  | crypto op =>
      have hop : op ≠ .codeSeparator := fun hc => h (hc ▸ hoperation)
      exact (Crypto.asks_execute hop).mono fun _ hasked => ⟨op, hoperation, hasked⟩
  | lockTime op => exact LockTime.asks_execute rules op
  | upgradableNop => exact .ite (.throw _) (.pure _)
  | disabled => exact .throw _
  | reserved => exact .throw _
  | invalid => exact .throw _
  | _ => exact .onStack _

/-- What may be asked depends on the stack and on what is signed. -/
theorem Asked.congr {check : SignatureCheck} (hstack : frame'.stack = frame.stack)
    (hsigned : frame'.signed = frame.signed) (h : Asked rules instruction frame' check) :
    Asked rules instruction frame check := by
  rcases h with ⟨op, hoperation, sigs, keys, htakes, hsig, hkey, hcode, hinput⟩
  refine ⟨op, hoperation, sigs, keys, hstack ▸ htakes, hsig, hkey, ?_, hinput⟩
  rw [hcode, Frame.scriptCode_congr hsigned]

/-- Where a code separator takes no effect it is like any other instruction. -/
theorem asks_execute (h : ¬(instruction.operation = .crypto .codeSeparator ∧ frame.isLive = true)) :
    Asks (Asked rules instruction frame) (instruction.execute rules) frame := by
  -- Counting operations keeps all that a question depends on. A separator is not reached alive.
  have hperform (between : Frame) (hstack : between.stack = frame.stack)
      (hsigned : between.signed = frame.signed) (hblocks : between.blocks = frame.blocks) :
      Asks (Asked rules instruction frame) (do
        if (← get).isLive ∨ instruction.operation.isConditional then instruction.perform rules)
        between := by
    refine .read ?_
    by_cases hseparator : instruction.operation = .crypto .codeSeparator
    · have hskipped : ¬(between.isLive = true ∨ instruction.operation.isConditional = true) := by
        rw [hseparator, Frame.isLive, hblocks]
        rintro (hlive | hconditional)
        · exact h ⟨hseparator, hlive⟩
        · cases hconditional
      rw [if_neg hskipped]
      exact .pure _
    · refine .ite ((asks_perform hseparator).mono fun _ hasked => ?_) (.pure _)
      exact hasked.congr hstack hsigned
  refine .guard (.ite ?_ ?_)
  · refine .bind (Exec.asks_countOperations rules 1) fun _ between hcount hsigned => .guard ?_
    rcases Exec.countOperations_eq_ok.mp hcount with ⟨-, rfl⟩
    exact hperform _ rfl rfl rfl
  · exact .guard (hperform frame rfl rfl rfl)

-- No digest or signature operation is a push.
theorem sixteen_lt_of_crypto {op : CryptoOp} (hoperation : instruction.operation = .crypto op) :
    Opcode.sixteen < instruction.op := by
  refine UInt8.not_le.mp fun hc => ?_
  have hpush : instruction.operation.isPush = true := Opcode.isPush_operation hc
  rw [hoperation] at hpush
  cases hpush

-- Where it takes effect it asks nothing, and it moves the mark if it is not too much.
theorem execute_separator (rules : Rules)
    (hoperation : instruction.operation = .crypto .codeSeparator) (hlive : frame.isLive = true) :
    (∃ fault operations, instruction.execute rules frame = .error fault { frame with operations }) ∨
      ∃ operations, instruction.execute rules frame
        = .ok () { frame with operations, signed := frame.next } := by
  have hop := sixteen_lt_of_crypto hoperation
  -- It may fail by two limits, and otherwise it moves the mark.
  by_cases hsize : rules.limits.elementSize < instruction.data.length
  · rw [execute, if_pos hsize]
    exact .inl ⟨_, frame.operations, rfl⟩
  by_cases hlimit : frame.operations + 1 ≤ rules.limits.operations
  · have henabled : instruction.operation ≠ .disabled := by
      rw [hoperation]
      simp only [ne_eq, reduceCtorEq, not_false_eq_true]
    rw [execute_counted hop henabled (Nat.not_lt.mp hsize) hlive hlimit, perform, hoperation]
    exact .inr ⟨frame.operations + 1, rfl⟩
  · rw [execute, if_neg hsize, if_pos hop]
    exact .inl ⟨_, _, Steps.bind_error (Exec.countOperations_error (Nat.not_le.mp hlimit))⟩

/-- What comes next is set before and the depth is checked behind, which asks nothing. -/
theorem asks_advance (h : ¬(instruction.operation = .crypto .codeSeparator ∧ frame.isLive = true)) :
    Asks (Asked rules instruction frame) (instruction.advance rules rest) frame := by
  refine .bind (.modify rfl rfl) fun _ between hnext _ => ?_
  cases hnext
  have hexecute : Asks (Asked rules instruction { frame with next := rest })
      (instruction.execute rules) { frame with next := rest } := asks_execute h
  exact .bind (hexecute.mono fun _ hasked => hasked.congr rfl rfl) fun _ _ _ _ => .read (.lift _)

/-- A separator asks nothing, and what follows it is what is signed from then on. -/
theorem advance_separator (hoperation : instruction.operation = .crypto .codeSeparator)
    (hlive : frame.isLive = true) :
    ((instruction.advance rules rest).after frame).checks = frame.checks ∧
      ∀ frame', instruction.advance rules rest frame = .ok () frame' → frame'.signed = rest := by
  have hlive' : { frame with next := rest }.isLive = true := hlive
  rcases execute_separator rules hoperation hlive' with
    ⟨fault, operations, hexecute⟩ | ⟨operations, hexecute⟩
  · have hadvance : instruction.advance rules rest frame
        = .error fault { frame with next := rest, operations } :=
      (Steps.bind_ok rfl).trans (Steps.bind_error hexecute)
    refine ⟨by rw [Exec.after_of_error hadvance], fun frame' h => ?_⟩
    cases hadvance.symm.trans h
  · -- The mark has been moved even if the check of the depth fails.
    have hadvance : ∃ result : Except Fault Unit, instruction.advance rules rest frame
        = Exec.lift result { frame with next := rest, operations, signed := rest } :=
      ⟨_, (Steps.bind_ok rfl).trans (Steps.bind_ok hexecute)⟩
    rcases hadvance with ⟨fault | _, hadvance⟩
    · refine ⟨by rw [Exec.after, hadvance]; rfl, fun frame' h => ?_⟩
      cases hadvance.symm.trans h
    · refine ⟨by rw [Exec.after, hadvance]; rfl, fun frame' h => ?_⟩
      cases hadvance.symm.trans h
      rfl

/-- What an instruction adds to the record of questions, whether it succeeds or not. -/
theorem asked_advance : ∃ asked,
    ((instruction.advance rules rest).after frame).checks = asked ++ frame.checks ∧
      ∀ check ∈ asked, Asked rules instruction frame check := by
  by_cases h : instruction.operation = .crypto .codeSeparator ∧ frame.isLive = true
  · exact ⟨[], (advance_separator h.1 h.2).1, fun _ hmem => absurd hmem List.not_mem_nil⟩
  · exact (asks_advance h).checks

/-- Signatures commit to what follows a code separator that has taken effect, and else to what
    they did before. -/
theorem signed_advance (h : instruction.advance rules rest frame = .ok () frame') :
    frame'.signed = if instruction.operation = .crypto .codeSeparator ∧ frame.isLive = true
      then rest else frame.signed := by
  by_cases hmarks : instruction.operation = .crypto .codeSeparator ∧ frame.isLive = true
  · rw [if_pos hmarks]
    exact (advance_separator hmarks.1 hmarks.2).2 frame' h
  · rw [if_neg hmarks, ← Exec.after_of_ok h]
    have hasks : Asks (Asked rules instruction frame) (instruction.advance rules rest) frame :=
      asks_advance hmarks
    exact hasks.signed

end Instruction

end Bitcoin
