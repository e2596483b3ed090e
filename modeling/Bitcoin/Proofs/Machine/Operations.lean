import Bitcoin.Proofs.Machine.Multisig
import Bitcoin.Proofs.Machine.Pushes

/-!
# Operations That Succeed

The instructions that do not push are counted, and then they do something to the stack or
ask the context. For those that payments are made of it is said here, as equivalences, on
which frames they succeed and what they leave. So a run of a payment can be followed from
its first frame to its last, and it can also be told from its last frame how it must have
begun.

Nothing is said of frames in a half of a block that is not live, as payments have no
blocks.

## Theorems

* `Instruction.advance_counted_eq_ok`: An instruction that is counted and performed.
* `Instruction.advance_dup_eq_ok`, `Instruction.advance_hash160_eq_ok`,
  `Instruction.advance_equal_eq_ok`, `Instruction.advance_equalVerify_eq_ok`: Those on the
  stack.
* `Crypto.checkSig_eq_ok`, `Instruction.advance_checkSig_eq_ok`: A signature check.
-/

namespace Bitcoin

section
variable {stack stack' : Stack}

/-- A truth value is the truth of the top. -/
theorem Stack.popBool_eq_ok {truth : Bool} :
    popBool stack = .ok truth stack' ↔
      ∃ top, stack = top :: stack' ∧ Element.isTrue top = truth := by
  rw [popBool, Steps.bind_eq_ok]
  constructor
  · rintro ⟨top, below, hpop, hreturn⟩
    cases hreturn
    exact ⟨top, pop_eq_ok.mp hpop, rfl⟩
  · rintro ⟨top, hstack, rfl⟩
    exact ⟨top, stack', pop_eq_ok.mpr hstack, rfl⟩

/-- The top is there twice. -/
theorem Stack.dup_one_eq_ok :
    dup 1 stack = .ok () stack' ↔
      ∃ top below, stack = top :: below ∧ stack' = top :: top :: below := by
  rcases stack with _ | ⟨top, below⟩
  · constructor
    · intro h
      cases h
    · rintro ⟨_, _, h, -⟩
      cases h
  · constructor
    · intro h
      cases h
      exact ⟨top, below, rfl, rfl⟩
    · rintro ⟨_, _, h, rfl⟩
      cases h
      rfl

/-- The digest takes the place of the top. -/
theorem Crypto.digest_eq_ok {size : Nat} {hash : Bytes → ByteVec size} :
    digest hash stack = .ok () stack' ↔
      ∃ top below, stack = top :: below ∧ stack' = (hash top).bytes :: below := by
  rw [digest, Steps.bind_eq_ok]
  constructor
  · rintro ⟨top, below, hpop, hpush⟩
    cases hpush
    exact ⟨top, below, Stack.pop_eq_ok.mp hpop, rfl⟩
  · rintro ⟨top, below, hstack, rfl⟩
    exact ⟨top, below, Stack.pop_eq_ok.mpr hstack, rfl⟩

/-- The two elements on top are compared and taken off. -/
theorem Instruction.pushEqual_eq_ok :
    pushEqual stack = .ok () stack' ↔
      ∃ a b below, stack = a :: b :: below ∧ stack' = Element.ofBool (a = b) :: below := by
  rw [pushEqual, Steps.bind_eq_ok]
  constructor
  · rintro ⟨a, rest, ha, hrest⟩
    rcases Steps.bind_eq_ok.mp hrest with ⟨b, below, hb, hpush⟩
    cases hpush
    refine ⟨a, b, below, ?_, rfl⟩
    rw [Stack.pop_eq_ok.mp ha, Stack.pop_eq_ok.mp hb]
  · rintro ⟨a, b, below, rfl, rfl⟩
    exact ⟨a, b :: below, Stack.pop_eq_ok.mpr rfl,
      Steps.bind_eq_ok.mpr ⟨b, below, Stack.pop_eq_ok.mpr rfl, rfl⟩⟩

end

/-- A truth value is read back. -/
theorem Element.isTrue_ofBool (b : Bool) : isTrue (ofBool b) = b := by
  cases b with
  | false => rfl
  | true => rfl

section
variable {rules : Rules} {frame frame' : Frame}

/-- A check is passed by a true element. -/
theorem Exec.verifyTop_eq_ok {check : Check} :
    verifyTop check frame = .ok () frame' ↔
      ∃ top below, frame.stack = top :: below ∧ Element.isTrue top = true ∧
        frame' = { frame with stack := below } := by
  rw [verifyTop, Steps.bind_eq_ok]
  constructor
  · rintro ⟨passed, _, hpop, hguard⟩
    rcases onStack_eq_ok.mp hpop with ⟨below, hbool, rfl⟩
    rcases Stack.popBool_eq_ok.mp hbool with ⟨top, hstack, rfl⟩
    -- The top is popped before it is looked at.
    rcases Steps.refuse_eq_ok.mp hguard with ⟨htrue, hreturn⟩
    cases hreturn
    exact ⟨top, below, hstack, by simpa using htrue, rfl⟩
  · rintro ⟨top, below, hstack, htrue, rfl⟩
    have hbool := Stack.popBool_eq_ok.mpr ⟨top, hstack, htrue⟩
    exact ⟨true, _, onStack_eq_ok.mpr ⟨below, hbool, rfl⟩, Steps.refuse_eq_ok.mpr ⟨by simp, rfl⟩⟩

namespace Instruction

variable {op : UInt8} {offset : Nat}

/-- Where it takes effect, an instruction without a payload is counted and performed, if the
    stacks have room for what it leaves. -/
theorem advance_counted_eq_ok (rest : Program) (hop : Opcode.sixteen < op)
    (henabled : Opcode.operation op ≠ .disabled) (hlive : frame.isLive = true)
    (hlimit : frame.operations + 1 ≤ rules.limits.operations) :
    Instruction.advance rules ⟨op, [], offset⟩ rest frame = .ok () frame' ↔
      perform rules ⟨op, [], offset⟩
        { frame with operations := frame.operations + 1, next := rest } = .ok () frame' ∧
      frame'.depth ≤ rules.limits.stackDepth := by
  have hlive' : { frame with next := rest }.isLive = true := hlive
  have henabled' : operation ⟨op, [], offset⟩ ≠ .disabled := henabled
  rw [advance_eq_ok, execute_counted hop henabled' (Nat.zero_le _) hlive' hlimit]

-- The same for an instruction that only changes the stack.
theorem advance_stack_eq_ok {action : StackM Unit} (rest : Program)
    (hperform : perform rules ⟨op, [], offset⟩ = Exec.onStack action)
    (hop : Opcode.sixteen < op) (henabled : Opcode.operation op ≠ .disabled)
    (hlive : frame.isLive = true) (hlimit : frame.operations + 1 ≤ rules.limits.operations) :
    Instruction.advance rules ⟨op, [], offset⟩ rest frame = .ok () frame' ↔
      ∃ stack, action frame.stack = .ok () stack ∧
        stack.length + frame.alt.length ≤ rules.limits.stackDepth ∧
        frame' = { frame with stack, operations := frame.operations + 1, next := rest } := by
  rw [advance_counted_eq_ok rest hop henabled hlive hlimit, hperform, Exec.onStack_eq_ok]
  constructor
  · rintro ⟨⟨stack, haction, rfl⟩, hdepth⟩
    exact ⟨stack, haction, hdepth, rfl⟩
  · rintro ⟨stack, haction, hdepth, rfl⟩
    exact ⟨⟨stack, haction, rfl⟩, hdepth⟩

/-- One element more must find room. -/
theorem advance_dup_eq_ok (rest : Program) (hlive : frame.isLive = true)
    (hlimit : frame.operations + 1 ≤ rules.limits.operations) :
    Instruction.advance rules ⟨0x76, [], offset⟩ rest frame = .ok () frame' ↔
      ∃ top below, frame.stack = top :: below ∧ frame.depth + 1 ≤ rules.limits.stackDepth ∧
        frame' = { frame with
          stack := top :: top :: below, operations := frame.operations + 1, next := rest } := by
  have hperform : perform rules ⟨0x76, [], offset⟩ = Exec.onStack (Stack.dup 1) := rfl
  rw [advance_stack_eq_ok rest hperform (by decide) (by decide) hlive hlimit, Frame.depth]
  simp only [Stack.dup_one_eq_ok]
  constructor
  · rintro ⟨_, ⟨top, below, hstack, rfl⟩, hdepth, rfl⟩
    refine ⟨top, below, hstack, ?_, rfl⟩
    simp only [hstack, List.length_cons] at hdepth ⊢
    omega
  · rintro ⟨top, below, hstack, hdepth, rfl⟩
    refine ⟨_, ⟨top, below, hstack, rfl⟩, ?_, rfl⟩
    simp only [hstack, List.length_cons] at hdepth ⊢
    omega

/-- The hash takes the place of what it is the hash of, so the depth stays. -/
theorem advance_hash160_eq_ok (rest : Program) (hlive : frame.isLive = true)
    (hlimit : frame.operations + 1 ≤ rules.limits.operations)
    (hdepth : frame.depth ≤ rules.limits.stackDepth) :
    Instruction.advance rules ⟨0xa9, [], offset⟩ rest frame = .ok () frame' ↔
      ∃ top below, frame.stack = top :: below ∧ frame' = { frame with
        stack := (Hash.hash160 top).bytes :: below, operations := frame.operations + 1,
        next := rest } := by
  have hperform : perform rules ⟨0xa9, [], offset⟩
      = Exec.onStack (Crypto.digest Hash.hash160) := rfl
  rw [advance_stack_eq_ok rest hperform (by decide) (by decide) hlive hlimit]
  -- The stack stays as deep as it was, so the limit on its depth is kept.
  simp only [Crypto.digest_eq_ok]
  constructor
  · rintro ⟨_, ⟨top, below, hstack, rfl⟩, -, rfl⟩
    exact ⟨top, below, hstack, rfl⟩
  · rintro ⟨top, below, hstack, rfl⟩
    refine ⟨_, ⟨top, below, hstack, rfl⟩, ?_, rfl⟩
    rw [Frame.depth, hstack] at hdepth
    exact hdepth

/-- Two elements are replaced by the answer whether they are the same. -/
theorem advance_equal_eq_ok (rest : Program) (hlive : frame.isLive = true)
    (hlimit : frame.operations + 1 ≤ rules.limits.operations)
    (hdepth : frame.depth ≤ rules.limits.stackDepth) :
    Instruction.advance rules ⟨0x87, [], offset⟩ rest frame = .ok () frame' ↔
      ∃ a b below, frame.stack = a :: b :: below ∧ frame' = { frame with
        stack := Element.ofBool (a = b) :: below, operations := frame.operations + 1,
        next := rest } := by
  have hperform : perform rules ⟨0x87, [], offset⟩ = Exec.onStack pushEqual := rfl
  rw [advance_stack_eq_ok rest hperform (by decide) (by decide) hlive hlimit]
  simp only [pushEqual_eq_ok]
  constructor
  · rintro ⟨_, ⟨a, b, below, hstack, rfl⟩, -, rfl⟩
    exact ⟨a, b, below, hstack, rfl⟩
  · rintro ⟨a, b, below, hstack, rfl⟩
    refine ⟨_, ⟨a, b, below, hstack, rfl⟩, ?_, rfl⟩
    simp only [Frame.depth, hstack, List.length_cons] at hdepth ⊢
    omega

/-- Two elements are taken away if they are the same. -/
theorem advance_equalVerify_eq_ok (rest : Program) (hlive : frame.isLive = true)
    (hlimit : frame.operations + 1 ≤ rules.limits.operations)
    (hdepth : frame.depth ≤ rules.limits.stackDepth) :
    Instruction.advance rules ⟨0x88, [], offset⟩ rest frame = .ok () frame' ↔
      ∃ element below, frame.stack = element :: element :: below ∧ frame' = { frame with
        stack := below, operations := frame.operations + 1, next := rest } := by
  rw [advance_counted_eq_ok rest (by decide) (by decide) hlive hlimit]
  change (do (pushEqual : Exec Unit); Exec.verifyTop .equal) _ = _ ∧ _ ↔ _
  rw [Steps.bind_eq_ok]
  constructor
  · rintro ⟨⟨_, _, hequal, hverify⟩, -⟩
    rcases Exec.onStack_eq_ok.mp hequal with ⟨_, hstack, rfl⟩
    rcases pushEqual_eq_ok.mp hstack with ⟨a, b, below, hab, rfl⟩
    rcases Exec.verifyTop_eq_ok.mp hverify with ⟨top, rest', hcons, htrue, rfl⟩
    cases hcons
    -- Elements that differ leave a no, which the check refuses.
    by_cases hsame : a = b
    · subst hsame
      exact ⟨a, below, hab, rfl⟩
    · rw [decide_eq_false hsame] at htrue
      exact absurd htrue Bool.false_ne_true
  · rintro ⟨element, below, hstack, rfl⟩
    refine ⟨⟨(), _, Exec.onStack_eq_ok.mpr ⟨_, pushEqual_eq_ok.mpr ⟨element, element, below,
      hstack, rfl⟩, rfl⟩, Exec.verifyTop_eq_ok.mpr ⟨_, below, rfl, ?_, rfl⟩⟩, ?_⟩
    · rw [decide_eq_true rfl]
      rfl
    · -- Two elements are gone.
      simp only [Frame.depth, hstack, List.length_cons] at hdepth ⊢
      omega

end Instruction

namespace Crypto

/-- A signature check that does not fail takes the key and the signature and leaves the
    answer. Where the rule is in force, the answer may be no only to an empty signature. -/
theorem checkSig_eq_ok : checkSig rules frame = .ok () frame' ↔
    ∃ key sig below context, frame.stack = key :: sig :: below ∧ rules.context? = some context ∧
      SignatureForm.check rules sig = .ok () ∧ KeyForm.check rules key = .ok () ∧
      (rules.has .nullFail = true → sig ≠ [] →
        answer rules context (frame.scriptCode [sig]) sig key = true) ∧
      frame' = { frame with
        stack := Element.ofBool (answer rules context (frame.scriptCode [sig]) sig key) :: below
        checks := record rules (frame.scriptCode [sig]) sig key frame.checks } := by
  rw [checkSig, Steps.bind_eq_ok]
  constructor
  · -- The steps one after the other: two elements, the transaction, the forms, the question, and
    -- the answer.
    rintro ⟨key, _, hkey, hrest⟩
    rcases Exec.pop_eq_ok.mp hkey with ⟨_, hstack, rfl⟩
    rcases Steps.bind_eq_ok.mp hrest with ⟨sig, _, hsig, hrest⟩
    rcases Exec.pop_eq_ok.mp hsig with ⟨below, rfl, rfl⟩
    rcases Steps.bind_eq_ok.mp hrest with ⟨context, _, hgiven, hrest⟩
    rcases Exec.context_eq_ok.mp hgiven with ⟨hcontext, rfl⟩
    rcases Steps.bind_eq_ok.mp hrest with ⟨_, _, hforms, hrest⟩
    rcases checkForms_eq_ok.mp hforms with ⟨⟨hsigForm, hkeyForm⟩, rfl⟩
    rcases Steps.bind_eq_ok.mp hrest with ⟨_, _, hget, hrest⟩
    cases hget
    rcases Steps.bind_eq_ok.mp hrest with ⟨valid, _, hask, hrest⟩
    cases ask_eq.symm.trans hask
    rcases Steps.guard_eq_ok.mp hrest with ⟨hnull, hpush⟩
    cases hpush
    refine ⟨key, sig, below, context, hstack, hcontext, hsigForm, hkeyForm, ?_, rfl⟩
    intro hflag hne
    by_contra hanswer
    exact hnull ⟨Bool.not_eq_true' _ ▸ Bool.eq_false_iff.mpr hanswer, hne, hflag⟩
  · rintro ⟨key, sig, below, context, hstack, hcontext, hsigForm, hkeyForm, hnull, rfl⟩
    -- The same steps put together again. A no to a signature that is not empty is the only one
    -- that may fail.
    refine ⟨key, _, Exec.pop_eq_ok.mpr ⟨_, hstack, rfl⟩, ?_⟩
    refine Steps.bind_eq_ok.mpr ⟨sig, _, Exec.pop_eq_ok.mpr ⟨below, rfl, rfl⟩, ?_⟩
    refine Steps.bind_eq_ok.mpr ⟨context, _, Exec.context_eq_ok.mpr ⟨hcontext, rfl⟩, ?_⟩
    refine Steps.bind_eq_ok.mpr ⟨(), _, checkForms_eq_ok.mpr ⟨⟨hsigForm, hkeyForm⟩, rfl⟩, ?_⟩
    refine Steps.bind_eq_ok.mpr ⟨_, _, rfl, ?_⟩
    refine Steps.bind_eq_ok.mpr ⟨_, _, ask_eq, ?_⟩
    refine Steps.guard_eq_ok.mpr ⟨?_, rfl⟩
    rintro ⟨hno, hne, hflag⟩
    have hfalse : answer rules context (frame.scriptCode [sig]) sig key = false :=
      (Bool.not_eq_true' _).mp hno
    exact absurd (hnull hflag hne) (Bool.eq_false_iff.mp hfalse)

end Crypto

/-- A signature check takes two elements and leaves one, so the limit on the depth is kept. -/
theorem Instruction.advance_checkSig_eq_ok {offset : Nat} (rest : Program)
    (hlive : frame.isLive = true) (hlimit : frame.operations + 1 ≤ rules.limits.operations)
    (hdepth : frame.depth ≤ rules.limits.stackDepth) :
    Instruction.advance rules ⟨0xac, [], offset⟩ rest frame = .ok () frame' ↔
      Crypto.checkSig rules { frame with operations := frame.operations + 1, next := rest }
        = .ok () frame' := by
  rw [Instruction.advance_counted_eq_ok rest (by decide) (by decide) hlive hlimit]
  refine and_iff_left_of_imp fun hcheck => ?_
  -- The answer takes one place of the two that it makes free.
  rcases Crypto.checkSig_eq_ok.mp hcheck with ⟨key, sig, below, _, hstack, _, _, _, _, rfl⟩
  have hstack' : frame.stack = key :: sig :: below := hstack
  simp only [Frame.depth, hstack', List.length_cons] at hdepth ⊢
  omega

end

end Bitcoin
