import Bitcoin.Proofs.Machine.Asked
import Bitcoin.Proofs.Machine.Context
import Bitcoin.Proofs.Machine.Operations

/-!
# What the Replies Decide

The record of questions is kept by the machine itself, and a record can be wrong in two ways.
The context may have been asked something that is not in it, or something in it may never
have been asked.

The first is excluded by giving the machine another context, which replies in the same way
to what is in the record and in any other way to all else. If the machine does the same, it
has not heard of anything else. This is followed through the computations side by side, and
what the first one adds to the record is what both must be told alike.

The second is excluded by what comes of the replies. Each signature needs one yes, and the
matching ends once all signatures have theirs or once there are too few keys, so the
answer of the machine is yes exactly if as many replies in the record are yes as there are
signatures. A machine that did not listen to its context could not know.

## Main definitions

* `Context.reply`, `Context.deciding`: What a context replies, and one that replies otherwise.
* `Exec.Heeds`: Computations with two contexts that differ only by what they are told.
* `Crypto.Finds`, `Crypto.Answers`: How an operation says what it has found.
* `Machine.Consults`: A step that asks its context just these questions.

## Theorems

* `Exec.Heeds.bind`, `Exec.Heeds.context`: How such computations are made.
* `Crypto.heeds_matchKeys`, `Crypto.heeds_execute`, `Instruction.heeds_advance`: The operations
  and the instructions.
* `Crypto.matchKeys_counts`, `Crypto.finds_execute`: A yes for each signature.
* `Machine.consults_of_step`: One step.
-/

namespace Bitcoin

namespace Context

/-- What a context replies to a question. -/
def reply (context : Context) (check : SignatureCheck) : Bool :=
  context.verifySignature check.sig check.key check.code check.input

/-- The same transaction with another opinion on signatures. -/
def deciding (context : Context)
    (verify : (sig key : Bytes) → (code : Script) → (input : Nat) → Bool) : Context :=
  { context with verifySignature := verify }

end Context

namespace Exec

variable {α β : Type} {given other : Context} {frame : Frame}

/-- From a frame on, the second computation does what the first one does, if its context
    replies in the same way to all that the first one asks. -/
def Heeds (given other : Context) (x x' : Exec α) (frame : Frame) : Prop :=
  ∃ asked, (x.after frame).checks = asked ++ frame.checks ∧
    ((∀ check ∈ asked, other.reply check = given.reply check) → x' frame = x frame)

namespace Heeds

-- What asks nothing, or gives up, is the same for both.
theorem silent {x : Exec α} (h : (x.after frame).checks = frame.checks) :
    Heeds given other x x frame :=
  ⟨[], h, fun _ => rfl⟩

/-- What never asks for the context asks nothing. -/
theorem same {x : Exec α} (h : Asks (fun _ => True) x frame) : Heeds given other x x frame := by
  rcases h.checks with ⟨asked, hchecks, -⟩
  exact ⟨asked, hchecks, fun _ => rfl⟩

/-- Neither does what works on the stack. -/
theorem onStack (action : StackM α) :
    Heeds given other (Exec.onStack action) (Exec.onStack action) frame :=
  same (.onStack action)

/-- The second step is reached in the same frame if the replies have been the same before. -/
theorem bind {x x' : Exec α} {f f' : α → Exec β} (hx : Heeds given other x x' frame)
    (hf : ∀ a between, x frame = .ok a between → Heeds given other (f a) (f' a) between) :
    Heeds given other (x >>= f) (x' >>= f') frame := by
  rcases hx with ⟨asked, hchecks, hsame⟩
  -- The first computation decides whether the second one is reached, and its replies come first.
  rcases hfirst : x frame with ⟨a, between⟩ | ⟨fault, between⟩
  · have hafter : (x >>= f).after frame = (f a).after between := by
      rw [after, after, Steps.bind_ok hfirst]
    rw [after_of_ok hfirst] at hchecks
    rcases hf a between hfirst with ⟨asked', hchecks', hsame'⟩
    refine ⟨asked' ++ asked, ?_, fun hreplies => ?_⟩
    · rw [hafter, hchecks', hchecks, List.append_assoc]
    · rcases List.forall_mem_append.mp hreplies with ⟨hlater, hearlier⟩
      rw [Steps.bind_ok hfirst, Steps.bind_ok ((hsame hearlier).trans hfirst)]
      exact hsame' hlater
  · have hafter : (x >>= f).after frame = x.after frame := by
      rw [after, after, Steps.bind_error hfirst, hfirst]
    refine ⟨asked, hafter ▸ hchecks, fun hreplies => ?_⟩
    rw [Steps.bind_error hfirst, Steps.bind_error ((hsame hreplies).trans hfirst)]

/-- A condition that does not depend on the replies is the same for both. -/
theorem ite {x x' y y' : Exec α} {c : Prop} [Decidable c] (hx : Heeds given other x x' frame)
    (hy : Heeds given other y y' frame) :
    Heeds given other (if c then x else y) (if c then x' else y') frame := by
  by_cases h : c
  · rw [if_pos h, if_pos h]
    exact hx
  · rw [if_neg h, if_neg h]
    exact hy

-- A refusal that is met ends both computations.
theorem guard {x x' : Exec α} {k k' : β → Exec α} {c : Prop} [Decidable c] {fault : Fault}
    (hx : Heeds given other x x' frame) :
    Heeds given other (if c then MonadExcept.throw fault >>= k else x)
      (if c then MonadExcept.throw fault >>= k' else x') frame :=
  .ite ⟨[], rfl, fun _ => rfl⟩ hx

/-- Both are in the same frame. -/
theorem read {f f' : Frame → Exec α} (hf : Heeds given other (f frame) (f' frame) frame) :
    Heeds given other (get >>= f) (get >>= f') frame :=
  hf

/-- Where the context is asked for, each computation gets its own. -/
theorem context {rules : Rules} {use : TransactionUse} {f f' : Context → Exec α}
    (hf : Heeds given other (f given) (f' other) frame) :
    Heeds given other (Exec.context (rules.withContext? (some given)) use >>= f)
      (Exec.context (rules.withContext? (some other)) use >>= f') frame :=
  hf

end Heeds

end Exec

open Exec (Asks Heeds)

section
variable {rules : Rules} {given : Context} {frame : Frame}
  {verify : (sig key : Bytes) → (code : Script) → (input : Nat) → Bool}

namespace Crypto

/-- The reply to the question that is recorded is the only one that is heard. -/
theorem heeds_ask {code : Script} {sig key : Bytes} : Heeds given (given.deciding verify)
    (ask (rules.withContext? (some given)) given code sig key)
    (ask (rules.withContext? (some (given.deciding verify))) (given.deciding verify) code sig key)
    frame := by
  rcases sig with _ | ⟨first, others⟩
  · exact ⟨[], rfl, fun _ => rfl⟩
  · refine ⟨[⟨first :: others, key, code, rules.input⟩], rfl, fun hreplies => ?_⟩
    have hreply := List.forall_mem_singleton.mp hreplies
    rw [ask_eq, ask_eq]
    exact congrArg (fun fits => EStateM.Result.ok fits _) hreply

/-- The induction is on the keys, as the matching is. After the same reply both go on with
    the same signatures. -/
theorem heeds_matchKeys {code : Script} {sigs keys : List Bytes} :
    Heeds given (given.deciding verify)
      (matchKeys (rules.withContext? (some given)) given code sigs keys)
      (matchKeys (rules.withContext? (some (given.deciding verify))) (given.deciding verify)
        code sigs keys) frame := by
  induction keys generalizing sigs frame with
  | nil =>
      rcases sigs with _ | ⟨sig, sigs⟩
      · exact .silent rfl
      · exact .silent rfl
  | cons key keys ih =>
      rcases sigs with _ | ⟨sig, sigs⟩
      · exact .silent rfl
      · rw [matchKeys, matchKeys]
        refine .bind (.same (asks_checkForms sig key)) fun _ _ _ => ?_
        exact .bind heeds_ask fun _ _ _ => .ite (.silent rfl) ih

/-- A signature check hears one reply. -/
theorem heeds_checkSig : Heeds given (given.deciding verify)
    (checkSig (rules.withContext? (some given)))
    (checkSig (rules.withContext? (some (given.deciding verify)))) frame := by
  refine .bind (.onStack _) fun _ _ _ => .bind (.onStack _) fun _ _ _ => .context ?_
  refine .bind (.same (asks_checkForms _ _)) fun _ _ _ => .read ?_
  exact .bind heeds_ask fun _ _ _ => .guard (.onStack _)

/-- A multisignature hears those of its matching. -/
theorem heeds_checkMultiSig : Heeds given (given.deciding verify)
    (checkMultiSig (rules.withContext? (some given)))
    (checkMultiSig (rules.withContext? (some (given.deciding verify)))) frame := by
  refine .bind (.same (asks_popCount _ _)) fun _ _ _ => ?_
  refine .bind (.same (Exec.asks_countOperations _ _)) fun _ _ _ => ?_
  refine .bind (.onStack _) fun _ _ _ => ?_
  refine .bind (.same (asks_popCount _ _)) fun _ _ _ => ?_
  refine .bind (.onStack _) fun _ _ _ => .bind (.onStack _) fun _ _ _ => ?_
  refine .guard (.context (.read ?_))
  exact .bind heeds_matchKeys fun _ _ _ => .guard (.onStack _)

/-- An operation on signatures is the same as long as the replies are. -/
theorem heeds_execute (op : CryptoOp) : Heeds given (given.deciding verify)
    (execute (rules.withContext? (some given)) op)
    (execute (rules.withContext? (some (given.deciding verify))) op) frame := by
  cases op with
  | codeSeparator => exact .silent rfl
  | checkSig => exact heeds_checkSig
  | checkSigVerify =>
      exact .bind heeds_checkSig fun _ _ _ => .same (Exec.asks_verifyTop _)
  | checkMultiSig => exact heeds_checkMultiSig
  | checkMultiSigVerify =>
      exact .bind heeds_checkMultiSig fun _ _ _ => .same (Exec.asks_verifyTop _)
  | _ => exact .onStack _

end Crypto

-- The locks look at other parts of the transaction, which are the same.
theorem LockTime.heeds_execute (op : LockTimeOp) : Heeds given (given.deciding verify)
    (execute (rules.withContext? (some given)) op)
    (execute (rules.withContext? (some (given.deciding verify))) op) frame :=
  .same (asks_execute (rules.withContext? (some given)) op)

namespace Instruction

variable {instruction : Instruction}

/-- All other instructions do not care for the context at all. -/
theorem heeds_perform : Heeds given (given.deciding verify)
    (instruction.perform (rules.withContext? (some given)))
    (instruction.perform (rules.withContext? (some (given.deciding verify)))) frame := by
  rw [perform, perform]
  -- Only signature operations ask, and lock times read what both contexts have in common.
  cases hoperation : instruction.operation with
  | pushData => exact .ite (.bind (.same (.lift _)) fun _ _ _ => .onStack _) (.onStack _)
  | flow op => exact .same (Flow.asks_execute _ _ op)
  | stack op => exact .same (Shuffle.asks_execute _ op)
  | equalVerify => exact .bind (.onStack _) fun _ _ _ => .same (Exec.asks_verifyTop _)
  | arithmetic op => exact .same (Arithmetic.asks_execute _ op)
  | crypto op => exact Crypto.heeds_execute op
  | lockTime op => exact LockTime.heeds_execute op
  | upgradableNop => exact .ite (.silent rfl) (.silent rfl)
  | disabled => exact .silent rfl
  | reserved => exact .silent rfl
  | invalid => exact .silent rfl
  | _ => exact .onStack _

/-- The limits that are checked around an instruction do not depend on the context. -/
theorem heeds_execute : Heeds given (given.deciding verify)
    (instruction.execute (rules.withContext? (some given)))
    (instruction.execute (rules.withContext? (some (given.deciding verify)))) frame := by
  have hperform (between : Frame) : Heeds given (given.deciding verify)
      (do if (← get).isLive ∨ instruction.operation.isConditional then
        instruction.perform (rules.withContext? (some given)))
      (do if (← get).isLive ∨ instruction.operation.isConditional then
        instruction.perform (rules.withContext? (some (given.deciding verify)))) between :=
    .read (.ite heeds_perform (.silent rfl))
  refine .guard (.ite ?_ (.guard (hperform frame)))
  exact .bind (.same (Exec.asks_countOperations _ 1)) fun _ between _ => .guard (hperform between)

theorem heeds_advance {rest : Program} : Heeds given (given.deciding verify)
    (instruction.advance (rules.withContext? (some given)) rest)
    (instruction.advance (rules.withContext? (some (given.deciding verify))) rest) frame :=
  .bind (.silent rfl) fun _ _ _ => .bind heeds_execute fun _ _ _ => .read (.same (.lift _))

end Instruction

namespace Machine

variable {m : Machine}

/-- The record is kept when a script ends. -/
theorem checks_endScript (m : Machine) : m.endScript.frame.checks = m.frame.checks := by
  rcases m.endScript_cases with ⟨status, _, h⟩ | ⟨stage, stack, program, _, h⟩
  · rw [h]
  · rw [h]
    rfl

/-- Whatever comes of an instruction, its record is kept. -/
theorem checks_executeNext {instruction : Instruction} {rest : Program} :
    (m.executeNext instruction rest).frame.checks =
      ((instruction.advance m.rules rest).after m.frame).checks := by
  rcases hadvance : instruction.advance m.rules rest m.frame with ⟨_, frame⟩ | ⟨fault, frame⟩
  · rw [executeNext_of_ok hadvance, Exec.after_of_ok hadvance]
    split
    · exact checks_endScript _
    · rfl
  · rw [executeNext_of_fault hadvance, Exec.after_of_error hadvance]
    rfl

/-- A step with another opinion on signatures is the same, if this opinion is the same on all
    that is added to the record. -/
theorem step_deciding {context : Context} {asked : List SignatureCheck}
    (hcontext : m.rules.context? = some context)
    (hasked : m.step.frame.checks = asked ++ m.frame.checks)
    (h : ∀ check ∈ asked, (context.deciding verify).reply check = context.reply check) :
    (m.withContext? (some (context.deciding verify))).step =
      m.step.withContext? (some (context.deciding verify)) := by
  let other := context.deciding verify
  have hself : m.rules.withContext? (some context) = m.rules := by
    rw [Rules.withContext?, ← hcontext]
  have hmachine : m.withContext? (some context) = m := by
    rw [withContext?, hself]
  by_cases hrunning : m.status = .running
  · rcases hnext : m.frame.next with _ | ⟨instruction, rest⟩
    · rw [step_of_end hrunning hnext, step_of_end (m := m.withContext? (some other)) hrunning hnext]
      exact endScript_withContext? m _
    · have hheeds : Heeds context other (instruction.advance (m.rules.withContext? (some context))
          rest) (instruction.advance (m.rules.withContext? (some other)) rest) m.frame :=
        Instruction.heeds_advance
      rcases hheeds with ⟨asked', hasked', hsame⟩
      -- What the instruction has asked is what has been added to the record.
      rw [step_of_next hrunning hnext, checks_executeNext, ← hself, hasked'] at hasked
      obtain rfl := List.append_cancel_right hasked
      rcases executeNext_withContext? (hsame h) with ⟨after, hfirst, hsecond⟩
      rw [hmachine] at hfirst
      rw [step_of_next hrunning hnext, hfirst,
        step_of_next (m := m.withContext? (some other)) hrunning hnext]
      exact hsecond
  · have hhalted : m.step = m := runFor_of_halted hrunning 1
    rw [hhalted]
    exact runFor_of_halted (m := m.withContext? (some other)) hrunning 1

end Machine

end

namespace Crypto

variable {rules : Rules} {context : Context} {op : CryptoOp} {frame frame' : Frame}
  {sig key : Bytes} {sigs keys : List Bytes}

/-- An operation says whether the signatures are good by the top element that it leaves, or
    by not going on unless they are. -/
def Finds (op : CryptoOp) (good : Bool) (stack : Stack) : Prop :=
  match op with
  | .checkSigVerify | .checkMultiSigVerify => good = true
  | _ => stack.head? = some (Element.ofBool good)

/-- There are four operations that take signatures. -/
theorem Takes.op_eq {stack : Stack} (h : Takes op stack sigs keys) :
    op = .checkSig ∨ op = .checkSigVerify ∨ op = .checkMultiSig ∨ op = .checkMultiSigVerify := by
  cases h with
  | one hop => exact or_assoc.mp (.inl hop)
  | several hop _ _ => exact .inr (.inr hop)

/-- The counts tell where the keys and the signatures end. -/
theorem Takes.unique {stack : Stack} {sigs' keys' : List Bytes} (h : Takes op stack sigs keys)
    (h' : Takes op stack sigs' keys') : sigs = sigs' := by
  -- An operation takes either one of each or several.
  have hkinds : ¬((op = .checkSig ∨ op = .checkSigVerify) ∧
      (op = .checkMultiSig ∨ op = .checkMultiSigVerify)) := by
    rintro ⟨rfl | rfl, hop | hop⟩ <;> cases hop
  generalize hstack : stack = other at h'
  cases h with
  | one hop =>
      cases h' with
      | one _ =>
          cases hstack
          rfl
      | several hop' _ _ => exact absurd ⟨hop, hop'⟩ hkinds
  | several hop hkeys hsigs =>
      cases h' with
      | one hop' => exact absurd ⟨hop', hop⟩ hkinds
      | several _ hkeys' hsigs' =>
          rcases List.cons.inj hstack with ⟨rfl, hbelow⟩
          rcases List.append_inj hbelow (Int.ofNat.inj (hkeys.symm.trans hkeys')) with
            ⟨-, hcounted⟩
          rcases List.cons.inj hcounted with ⟨rfl, hrest⟩
          exact (List.append_inj hrest (Int.ofNat.inj (hsigs.symm.trans hsigs'))).1

/-- From the one frame to the other an operation has asked its questions and has left its answer on
    top, which is yes exactly if there has been a yes for each signature. -/
def Answers (context : Context) (op : CryptoOp) (frame frame' : Frame) : Prop :=
  ∃ sigs keys asked below, Takes op frame.stack sigs keys ∧
    frame'.checks = asked ++ frame.checks ∧
    frame'.stack = Element.ofBool (decide (asked.countP context.reply = sigs.length)) :: below

/-- The answer is about the signatures that were there to be taken. -/
theorem Answers.finds (h : Answers context op frame frame')
    (htakes : Takes op frame.stack sigs keys) :
    ∃ asked, frame'.checks = asked ++ frame.checks ∧
      frame'.stack.head? =
        some (Element.ofBool (decide (asked.countP context.reply = sigs.length))) := by
  rcases h with ⟨_, _, asked, _, htaken, hchecks, hstack⟩
  obtain rfl := htakes.unique htaken
  exact ⟨asked, hchecks, congrArg List.head? hstack⟩

/-- A check that takes the answer away has seen that it is yes. -/
theorem Answers.verified {check : Check} {between : Frame}
    (h : Answers context op frame between) (htakes : Takes op frame.stack sigs keys)
    (hverify : Exec.verifyTop check between = .ok () frame') :
    ∃ asked, frame'.checks = asked ++ frame.checks ∧
      decide (asked.countP context.reply = sigs.length) = true := by
  rcases h.finds htakes with ⟨asked, hchecks, hhead⟩
  rcases Exec.verifyTop_eq_ok.mp hverify with ⟨top, below, hstack, htrue, rfl⟩
  rw [hstack, List.head?_cons, Option.some.injEq] at hhead
  rw [hhead, Element.isTrue_ofBool] at htrue
  exact ⟨asked, hchecks, htrue⟩

/-- One question is recorded with its reply, or none with a no. -/
theorem record_counts (rules : Rules) (context : Context) (code : Script) (sig key : Bytes)
    (checks : List SignatureCheck) :
    ∃ asked, record rules code sig key checks = asked ++ checks ∧
      asked.countP context.reply = if answer rules context code sig key = true then 1 else 0 := by
  rcases sig with _ | ⟨first, others⟩
  · exact ⟨[], rfl, rfl⟩
  · exact ⟨[⟨first :: others, key, code, rules.input⟩], rfl, List.countP_singleton⟩

/-- A matching is found exactly if there is a yes for each signature. The induction is on the
    keys. Each turn that uses up a signature adds a yes, so the signatures that are left and the
    replies so far are always as many as there have been signatures. -/
theorem matchKeys_counts {code : Script} {valid : Bool}
    (h : matchKeys rules context code sigs keys frame = .ok valid frame') :
    ∃ asked, frame'.checks = asked ++ frame.checks ∧
      (valid = true ↔ asked.countP context.reply = sigs.length) := by
  induction keys generalizing sigs frame with
  | nil =>
      rcases sigs with _ | ⟨sig, sigs⟩
      · cases h
        exact ⟨[], rfl, fun _ => rfl, fun _ => rfl⟩
      · cases h
        exact ⟨[], rfl, nofun, nofun⟩
  | cons key keys ih =>
      rcases sigs with _ | ⟨sig, sigs⟩
      · cases h
        exact ⟨[], rfl, fun _ => rfl, fun _ => rfl⟩
      · rw [matchKeys] at h
        rcases Steps.bind_eq_ok.mp h with ⟨_, _, hforms, hrest⟩
        rcases checkForms_eq_ok.mp hforms with ⟨-, rfl⟩
        rw [Steps.bind_ok ask_eq] at hrest
        rcases record_counts rules context code sig key frame.checks with ⟨asked, hrecord, hcount⟩
        rw [hrecord] at hrest
        generalize answer rules context code sig key = fits at hcount hrest
        have hleft : (if fits = true then sigs else sig :: sigs).length
            + asked.countP context.reply = sigs.length + 1 := by
          rw [hcount]
          split
          · rfl
          · rfl
        by_cases hfew : keys.length < (if fits = true then sigs else sig :: sigs).length
        · -- Some signature is left without a key, so there are fewer replies than signatures.
          rw [if_pos hfew] at hrest
          cases hrest
          refine ⟨asked, rfl, nofun, fun hall => ?_⟩
          rw [List.length_cons] at hall
          omega
        · rw [if_neg hfew] at hrest
          rcases ih hrest with ⟨asked', hchecks, hvalid⟩
          refine ⟨asked' ++ asked, ?_, ?_⟩
          · rw [hchecks, List.append_assoc]
          · rw [hvalid, List.countP_append, List.length_cons]
            omega

/-- A signature check that goes through leaves what the context has replied. -/
theorem answers_checkSig (hcontext : rules.context? = some context)
    (hop : op = .checkSig ∨ op = .checkSigVerify) (h : checkSig rules frame = .ok () frame') :
    Answers context op frame frame' := by
  rcases checkSig_eq_ok.mp h with ⟨key, sig, below, found, hstack, hfound, -, -, -, rfl⟩
  obtain rfl := Option.some.inj (hcontext.symm.trans hfound)
  rcases record_counts rules context (frame.scriptCode [sig]) sig key frame.checks with
    ⟨asked, hrecord, hcount⟩
  refine ⟨[sig], [key], asked, below, hstack ▸ .one hop, hrecord, ?_⟩
  rw [hcount, List.length_singleton]
  -- One reply or none is left to be counted, against one signature.
  generalize answer rules context (frame.scriptCode [sig]) sig key = fits
  cases fits with
  | true => rfl
  | false => rfl

/-- So does a multisignature, where there must be a yes for each signature. -/
theorem answers_checkMultiSig (hcontext : rules.context? = some context)
    (hop : op = .checkMultiSig ∨ op = .checkMultiSigVerify)
    (h : checkMultiSig rules frame = .ok () frame') : Answers context op frame frame' := by
  rcases Steps.bind_eq_ok.mp h with ⟨keyCount, first, hfirst, hrest⟩
  rcases Steps.bind_eq_ok.mp hrest with ⟨_, second, hsecond, hrest⟩
  rcases Steps.bind_eq_ok.mp hrest with ⟨keys, third, hthird, hrest⟩
  rcases Steps.bind_eq_ok.mp hrest with ⟨sigCount, fourth, hfourth, hrest⟩
  rcases Steps.bind_eq_ok.mp hrest with ⟨sigs, fifth, hfifth, hrest⟩
  rcases Steps.bind_eq_ok.mp hrest with ⟨extra, sixth, hsixth, hrest⟩
  rcases Steps.guard_eq_ok.mp hrest with ⟨-, hrest⟩
  rcases Steps.bind_eq_ok.mp hrest with ⟨found, _, hgiven, hrest⟩
  rcases Exec.context_eq_ok.mp hgiven with ⟨hfound, rfl⟩
  obtain rfl := Option.some.inj (hcontext.symm.trans hfound)
  rcases Steps.bind_eq_ok.mp hrest with ⟨_, _, hget, hrest⟩
  cases hget
  rcases Steps.bind_eq_ok.mp hrest with ⟨valid, last, hmatch, hrest⟩
  rcases Steps.guard_eq_ok.mp hrest with ⟨-, hpush⟩
  cases hpush
  -- Nothing has been asked before the matching.
  have hbefore : sixth.checks = frame.checks := by
    rw [Asks.checks_eq (.onStack _) hsixth, Asks.checks_eq (.onStack _) hfifth,
      (asks_popCount _ _).checks_eq hfourth, Asks.checks_eq (.onStack _) hthird,
      (Exec.asks_countOperations _ _).checks_eq hsecond, (asks_popCount _ _).checks_eq hfirst]
  rcases matchKeys_counts hmatch with ⟨asked, hchecks, hvalid⟩
  have hanswer : valid = decide (asked.countP context.reply = sigs.length) := by
    rw [Bool.eq_iff_iff, decide_eq_true_iff]
    exact hvalid
  refine ⟨sigs, keys, asked, last.stack,
    takes_several hop hfirst hsecond hthird hfourth hfifth hsixth, ?_, ?_⟩
  · rw [← hbefore]
    exact hchecks
  · exact congrArg (Element.ofBool · :: last.stack) hanswer

/-- What an operation that goes through finds is what the replies say. -/
theorem finds_execute (hcontext : rules.context? = some context)
    (htakes : Takes op frame.stack sigs keys) (h : execute rules op frame = .ok () frame') :
    ∃ asked, frame'.checks = asked ++ frame.checks ∧
      Finds op (decide (asked.countP context.reply = sigs.length)) frame'.stack := by
  rcases htakes.op_eq with rfl | rfl | rfl | rfl
  · exact (answers_checkSig hcontext (.inl rfl) h).finds htakes
  · rcases Steps.bind_eq_ok.mp h with ⟨_, between, hcheck, hverify⟩
    exact (answers_checkSig hcontext (.inr rfl) hcheck).verified htakes hverify
  · exact (answers_checkMultiSig hcontext (.inl rfl) h).finds htakes
  · rcases Steps.bind_eq_ok.mp h with ⟨_, between, hcheck, hverify⟩
    exact (answers_checkMultiSig hcontext (.inr rfl) hcheck).verified htakes hverify

end Crypto

/-- Where an instruction takes effect and goes through, its operation has gone through, with one
    more operation counted. -/
theorem Instruction.crypto_of_execute {rules : Rules} {instruction : Instruction}
    {op : CryptoOp} {frame frame' : Frame} (hoperation : instruction.operation = .crypto op)
    (hlive : frame.isLive = true) (h : instruction.execute rules frame = .ok () frame') :
    Crypto.execute rules op { frame with operations := frame.operations + 1 } = .ok () frame' := by
  have hop := sixteen_lt_of_crypto hoperation
  rw [execute] at h
  rcases Steps.guard_eq_ok.mp h with ⟨hsize, hcounted⟩
  rw [if_pos hop] at hcounted
  rcases Steps.bind_eq_ok.mp hcounted with ⟨_, _, hcount, -⟩
  have hlimit := (Exec.countOperations_eq_ok.mp hcount).1
  -- It has passed the limits and the check for operations that are disabled.
  have henabled : instruction.operation ≠ .disabled := by
    rw [hoperation]
    simp only [ne_eq, reduceCtorEq, not_false_eq_true]
  rw [← execute, execute_counted hop henabled (Nat.not_lt.mp hsize) hlive hlimit, perform,
    hoperation] at h
  exact h

namespace Machine

variable {m : Machine} {context : Context} {asked : List SignatureCheck}

/-- In its next step a machine asks its context just these questions, and goes by the replies. -/
structure Consults (m : Machine) (context : Context) (asked : List SignatureCheck) : Prop where
  /-- A context that replies to these questions in the same way leads to the same step, whatever
      it may reply to others. -/
  only : ∀ verify, (∀ check ∈ asked, verify check.sig check.key check.code check.input
      = context.verifySignature check.sig check.key check.code check.input) →
    (m.withContext? (some (context.deciding verify))).step =
      m.step.withContext? (some (context.deciding verify))
  /-- An operation that goes through finds the signatures that it takes good exactly if the
      context has said yes as many times. -/
  finds : ∀ instruction rest op sigs keys after, m.frame.next = instruction :: rest →
    instruction.operation = .crypto op → m.frame.isLive = true →
    Crypto.Takes op m.frame.stack sigs keys →
    instruction.advance m.rules rest m.frame = .ok () after →
      Crypto.Finds op (decide (asked.countP context.reply = sigs.length)) after.stack

/-- What a step adds to the record is what it asks the context. -/
theorem consults_of_step (hrunning : m.status = .running)
    (hcontext : m.rules.context? = some context)
    (hasked : m.step.frame.checks = asked ++ m.frame.checks) : m.Consults context asked := by
  refine ⟨fun verify h => step_deciding hcontext hasked h, ?_⟩
  intro instruction rest op sigs keys after hnext hoperation hlive htakes hadvance
  rw [step_of_next hrunning hnext, checks_executeNext, Exec.after_of_ok hadvance] at hasked
  have hexecute := (Instruction.advance_eq_ok.mp hadvance).1
  have hcrypto := Instruction.crypto_of_execute hoperation (by exact hlive) hexecute
  rcases Crypto.finds_execute hcontext (by exact htakes) hcrypto with ⟨asked', hchecks, hfinds⟩
  obtain rfl := List.append_cancel_right (hasked.symm.trans hchecks)
  exact hfinds

end Machine

end Bitcoin
