import Bitcoin.Proofs.Machine.Form
import Bitcoin.Proofs.Machine.Multisig

/-!
# A Multisignature with One Key

A signature check and a multisignature with one key and one signature are two ways to ask
the same. They take their elements from the stack in different orders, they have faults of
their own for a missing transaction and for a signature that had to be empty, and the
matching of signatures with keys has no part in the signature check.

Once the elements are off the stack, both go on alike. With one key and one signature the
matching is a single turn: the forms are checked and the question is asked, and a no leaves
one signature to no key. What remains is the same refusal and the same answer on the stack.
So this part is described once, with the two faults left open.

What it comes to depends on the context by a single word, its reply on this signature, this
key, the script code and the input. The outcome is written down with this word in it. An
empty signature is a no without anybody being asked, and a bad form is a failure before.

All this holds where the counts and the limits let the multisignature come so far: a count
of one can be read, one key is allowed, and it can be counted as an operation.

## Main definitions

* `Crypto.finishCheck`, `Crypto.finishMatching`: What follows once the elements are taken.
* `Crypto.outcome`: What that comes to by the word of the context.
* `Crypto.SameOutcome`: Results that differ in nothing but operations and wording.

## Theorems

* `Crypto.matchKeys_one`: A matching of one signature with one key.
* `Crypto.finishCheck_eq_outcome`, `Crypto.finishCheck_of_none`: With a transaction and without.
* `Crypto.sameOutcome_finishCheck`: What is decided.
* `Crypto.finishMatching_one`: One key and one signature are all that is asked about.
* `Crypto.checkSig_eq`, `Crypto.checkMultiSig_eq`: Both checks lead there.
* `Crypto.one_of_one_agrees`: They have the same outcome.
-/

namespace Bitcoin.Crypto

/-- What follows once a signature and a key are taken: the forms are checked, the question is
    asked, and the answer is pushed. A no to a signature that is not empty may be a fault. -/
def finishCheck (rules : Rules) (use : TransactionUse) (fault : Fault) (sig key : Bytes) :
    Exec Unit := do
  let context ← Exec.context rules use
  checkForms rules sig key
  let code := (← get).scriptCode [sig]
  let valid ← ask rules context code sig key
  if !valid ∧ sig ≠ [] ∧ rules.has .nullFail then throw fault
  Stack.pushBool valid

/-- What comes of a signature and a key that have been taken, by the forms and by the word of the
    context. The context is asked once, about a signature that is not empty, and the
    question is recorded. -/
def outcome (rules : Rules) (context : Context) (refusal : Fault) (sig key : Bytes)
    (frame : Frame) : EStateM.Result Fault Frame Unit :=
  let code := frame.scriptCode [sig]
  let fits := context.verifySignature sig key code rules.input
  let asked : Frame := { frame with checks := ⟨sig, key, code, rules.input⟩ :: frame.checks }
  match SignatureForm.check rules sig, KeyForm.check rules key with
  | .error fault, _ => .error fault frame
  | .ok _, .error fault => .error fault frame
  | .ok _, .ok _ =>
    if sig = [] then .ok () { frame with stack := Element.ofBool false :: frame.stack }
    else if fits = false ∧ rules.has .nullFail then .error refusal asked
    else .ok () { asked with stack := Element.ofBool fits :: frame.stack }

/-- Results that differ at most in the operations that have been counted and in the wording of
    a failure. All else is the same, also the questions that have been asked. -/
def SameOutcome : (a b : EStateM.Result Fault Frame Unit) → Prop
  | .ok _ a, .ok _ b => a = { b with operations := a.operations }
  | .error fault a, .error fault' b =>
    fault.violation = fault'.violation ∧ a = { b with operations := a.operations }
  | _, _ => False

section
variable {rules : Rules} {context : Context} {code : Script} {sig key : Bytes}
  {use use' : TransactionUse} {fault fault' : Fault} {frame frame' : Frame}

-- The rules on forms neither look at the frame nor change it.
theorem checkForms_cases (rules : Rules) (sig key : Bytes) :
    (∀ frame, checkForms rules sig key frame = .ok () frame) ∨
      ∃ fault, ∀ frame, checkForms rules sig key frame = .error fault frame := by
  unfold checkForms
  rcases SignatureForm.check rules sig with fault | _
  · exact .inr ⟨fault, fun _ => rfl⟩
  · rcases KeyForm.check rules key with fault | _
    · exact .inr ⟨fault, fun _ => rfl⟩
    · exact .inl fun _ => rfl

/-- One signature is matched with one key by one question. -/
theorem matchKeys_one : matchKeys rules context code [sig] [key] = (do
    checkForms rules sig key
    ask rules context code sig key) := by
  -- A yes leaves nothing to be matched, and a no leaves one signature to no key.
  have hturn (fits : Bool) : (if ([] : List Bytes).length < (if fits then [] else [sig]).length
      then return false else matchKeys rules context code (if fits then [] else [sig]) [] :
      Exec Bool) = pure fits := by
    cases fits with
    | true => rfl
    | false => rfl
  rw [matchKeys]
  simp only [hturn, bind_pure]

-- A transaction is there for every use or for none.
theorem context_cases (rules : Rules) : (∃ context, ∀ use frame,
      Exec.context rules use frame = .ok context frame) ∨
    ∀ use frame, Exec.context rules use frame = .error (.noTransaction use) frame := by
  unfold Exec.context
  rcases rules.context? with _ | context
  · exact .inr fun _ _ => rfl
  · exact .inl ⟨context, fun _ _ => rfl⟩

/-- With a transaction and good forms, it is the answer that decides. -/
theorem finishCheck_eq (hcode : frame.scriptCode [sig] = code)
    (hcontext : Exec.context rules use frame = .ok context frame)
    (hforms : checkForms rules sig key frame = .ok () frame) :
    finishCheck rules use fault sig key frame =
      let after : Frame := { frame with checks := record rules code sig key frame.checks }
      if answer rules context code sig key = false ∧ sig ≠ [] ∧ rules.has .nullFail = true
      then .error fault after
      else .ok () { after with
        stack := Element.ofBool (answer rules context code sig key) :: frame.stack } := by
  unfold finishCheck
  rw [Steps.bind_ok hcontext, Steps.bind_ok hforms]
  refine Eq.trans (Steps.bind_ok rfl) ?_
  rw [hcode]
  refine Eq.trans (Steps.bind_ok ask_eq) ?_
  simp only [Bool.not_eq_true']
  split
  · rfl
  · rfl

/-- With a transaction, what is left to be done comes to the outcome. -/
theorem finishCheck_eq_outcome (hcontext : rules.context? = some context) :
    finishCheck rules use fault sig key frame = outcome rules context fault sig key frame := by
  have hgiven : Exec.context rules use frame = .ok context frame :=
    Exec.context_eq_ok.mpr ⟨hcontext, rfl⟩
  have hbad (found : Fault) (hforms : checkForms rules sig key frame = .error found frame) :
      finishCheck rules use fault sig key frame = .error found frame := by
    unfold finishCheck
    rw [Steps.bind_ok hgiven, Steps.bind_error hforms]
  unfold outcome
  rcases hsig : SignatureForm.check rules sig with found | _
  · exact hbad found (by unfold checkForms; rw [hsig]; rfl)
  rcases hkey : KeyForm.check rules key with found | _
  · exact hbad found (by unfold checkForms; rw [hsig, hkey]; rfl)
  rw [finishCheck_eq rfl hgiven (checkForms_eq_ok.mpr ⟨⟨hsig, hkey⟩, rfl⟩)]
  -- To an empty signature the answer is no, and to any other one it is the context's.
  rcases sig with _ | ⟨first, others⟩
  · exact if_neg fun hc => hc.2.1 rfl
  · have hne : first :: others ≠ [] := List.cons_ne_nil first others
    exact (if_congr (and_congr_right fun _ => and_iff_right hne) rfl rfl).trans (if_neg hne).symm

-- Without one, nothing is asked and nothing else is looked at.
theorem finishCheck_of_none (hnone : rules.context? = none) :
    finishCheck rules use fault sig key frame = .error (.noTransaction use) frame := by
  unfold finishCheck Exec.context
  rw [hnone]
  rfl

/-- With more or fewer operations counted, and with other faults of the same violation, the
    outcome is the same. -/
theorem sameOutcome_finishCheck (frame : Frame) (operations : Nat)
    (hfault : fault.violation = fault'.violation) :
    SameOutcome (finishCheck rules use fault sig key { frame with operations })
      (finishCheck rules use' fault' sig key frame) := by
  rcases hcontext : rules.context? with _ | context
  · rw [finishCheck_of_none hcontext, finishCheck_of_none hcontext]
    exact ⟨rfl, rfl⟩
  · rw [finishCheck_eq_outcome hcontext, finishCheck_eq_outcome hcontext]
    -- The script code does not depend on the count, so both follow the same branch.
    unfold outcome
    rcases SignatureForm.check rules sig with found | _
    · exact ⟨rfl, rfl⟩
    rcases KeyForm.check rules key with found | _
    · exact ⟨rfl, rfl⟩
    have hcode : ({ frame with operations } : Frame).scriptCode [sig] = frame.scriptCode [sig] :=
      rfl
    simp only [hcode]
    split
    · exact rfl
    · split
      · exact ⟨hfault, rfl⟩
      · exact rfl

variable {rest : Stack}

/-- A signature check takes the key and the signature. -/
theorem checkSig_eq (hstack : frame.stack = key :: sig :: rest) : checkSig rules frame =
    finishCheck rules .checkSig .signatureNotEmpty sig key { frame with stack := rest } := by
  unfold checkSig
  refine Eq.trans (Steps.bind_ok (Exec.pop_ok hstack)) ?_
  refine Eq.trans (Steps.bind_ok (Exec.pop_ok rfl)) ?_
  rfl

/-- What follows in a multisignature once the elements are taken. -/
def finishMatching (rules : Rules) (sigs keys : List Bytes) : Exec Unit := do
  let context ← Exec.context rules .checkMultiSig
  let code := (← get).scriptCode sigs
  let valid ← matchKeys rules context code sigs keys
  if !valid ∧ rules.has .nullFail ∧ sigs.any (!·.isEmpty) then throw .signaturesNotEmpty
  Stack.pushBool valid

/-- With one key and one signature it is the same as in a signature check. The script code is
    known before the forms are checked there, which do not touch it. -/
theorem finishMatching_one : finishMatching rules [sig] [key] frame =
    finishCheck rules .checkMultiSig .signaturesNotEmpty sig key frame := by
  -- That some signature is not empty means that the only one is not.
  have hnull (fits : Bool) : ((!fits) = true ∧ rules.has .nullFail = true ∧
      ([sig].any fun s => !s.isEmpty) = true) ↔
        (fits = false ∧ sig ≠ [] ∧ rules.has .nullFail = true) := by
    simp only [Bool.not_eq_true', List.any_cons, List.any_nil, Bool.or_false,
      List.isEmpty_eq_false_iff, ne_eq, and_comm]
  unfold finishMatching
  rcases context_cases rules with ⟨context, hcontext⟩ | hnone
  · refine Eq.trans (Steps.bind_ok (hcontext _ _)) ?_
    refine Eq.trans (Steps.bind_ok rfl) ?_
    rw [matchKeys_one]
    rcases checkForms_cases rules sig key with hforms | ⟨found, hforms⟩
    · refine Eq.trans (Steps.bind_ok ((Steps.bind_ok (hforms _)).trans ask_eq)) ?_
      rw [finishCheck_eq rfl (hcontext _ _) (hforms _)]
      simp only [hnull]
      split
      · rfl
      · rfl
    · unfold finishCheck
      refine Eq.trans (Steps.bind_error (Steps.bind_error (hforms _))) ?_
      rw [Steps.bind_ok (hcontext _ _), Steps.bind_error (hforms _)]
  · unfold finishCheck
    rw [Steps.bind_error (hnone _ _), Steps.bind_error (hnone _ _)]

/-- A multisignature with one key and one signature takes these, their counts, and the extra
    element, and it counts the key. -/
theorem checkMultiSig_eq {count : Bytes}
    (hstack : frame.stack = count :: key :: count :: sig :: [] :: rest)
    (hcount : Counts rules count 1) (hkeys : 1 ≤ rules.limits.multisigKeys)
    (hoperations : frame.operations + 1 ≤ rules.limits.operations) :
    checkMultiSig rules frame = finishCheck rules .checkMultiSig .signaturesNotEmpty sig key
      { frame with stack := rest, operations := frame.operations + 1 } := by
  unfold checkMultiSig
  refine Eq.trans (Steps.bind_ok (popCount_ok hstack hcount hkeys)) ?_
  refine Eq.trans (Steps.bind_ok (Exec.countOperations_ok hoperations)) ?_
  -- One key, one signature, and the extra element, which is empty.
  refine Eq.trans (Steps.bind_ok (@Exec.popMany_ok _ [key] _ rfl)) ?_
  refine Eq.trans (Steps.bind_ok (popCount_ok rfl hcount (Nat.le_refl 1))) ?_
  refine Eq.trans (Steps.bind_ok (@Exec.popMany_ok _ [sig] _ rfl)) ?_
  refine Eq.trans (Steps.bind_ok (Exec.pop_ok rfl)) ?_
  simp only []
  rw [if_neg (fun hc => hc.2 rfl)]
  exact finishMatching_one

end

/-- A multisignature with one key and one signature has the outcome of a signature check on the
    same key and signature, under all rules and in all frames, whatever the key and the
    signature are: both leave the same stack, or both fail by the same violation. With a
    transaction, each comes to what the one reply of its context makes of it, over the same
    script code and at the same input, and without one, both fail for want of it. -/
theorem one_of_one_agrees (rules : Rules) (frame : Frame) (sig key : Bytes) (rest : List Bytes)
    (hkeys : 1 ≤ rules.limits.multisigKeys) (hlength : 1 ≤ rules.limits.numberLength)
    (hoperations : frame.operations + 1 ≤ rules.limits.operations) :
    let multi := execute rules .checkMultiSig
      { frame with stack := (rest ++ [[], sig, [1], key, [1]]).reverse }
    let single := execute rules .checkSig { frame with stack := (rest ++ [sig, key]).reverse }
    let taken : Frame := { frame with stack := rest.reverse }
    let counted : Frame := { taken with operations := frame.operations + 1 }
    SameOutcome multi single ∧
      (∀ context, rules.context? = some context →
        multi = outcome rules context .signaturesNotEmpty sig key counted ∧
        single = outcome rules context .signatureNotEmpty sig key taken) ∧
      (rules.context? = none →
        multi = .error (.noTransaction .checkMultiSig) counted ∧
        single = .error (.noTransaction .checkSig) taken) := by
  intro multi single taken counted
  have hcount : Counts rules [1] 1 := by
    refine ⟨1, NumberRule.read_eq_ok.mpr ⟨Nat.not_lt.mpr hlength, fun hc => hc.2 rfl, rfl⟩, rfl⟩
  have hmultiStack : (rest ++ [[], sig, [1], key, [1]]).reverse =
      [1] :: key :: [1] :: sig :: [] :: rest.reverse := by
    rw [List.reverse_append]
    rfl
  have hsingleStack : (rest ++ [sig, key]).reverse = key :: sig :: rest.reverse := by
    rw [List.reverse_append]
    rfl
  -- The elements are off the stack, and what is left to be done is the same.
  have hmulti : multi = finishCheck rules .checkMultiSig .signaturesNotEmpty sig key counted :=
    @checkMultiSig_eq rules sig key
      { frame with stack := (rest ++ [[], sig, [1], key, [1]]).reverse } _ _ hmultiStack hcount
      hkeys hoperations
  have hsingle : single = finishCheck rules .checkSig .signatureNotEmpty sig key taken :=
    @checkSig_eq rules sig key { frame with stack := (rest ++ [sig, key]).reverse } _ hsingleStack
  rw [hmulti, hsingle]
  refine ⟨sameOutcome_finishCheck taken (frame.operations + 1) rfl, fun context hcontext => ?_,
    fun hnone => ?_⟩
  · exact ⟨finishCheck_eq_outcome hcontext, finishCheck_eq_outcome hcontext⟩
  · exact ⟨finishCheck_of_none hnone, finishCheck_of_none hnone⟩

/-- A signature that belongs to the key, and one that should have been empty, since it does not
    belong to it. Both times the context has been asked the same by both. -/
theorem one_of_one_agrees_either :
    let context : Context := ⟨fun sig key _ input => sig = key ∧ input = 3, 0, 0, fun _ => 0⟩
    let rules : Rules := { flags := .nullFail, context? := some context, input := 3 }
    let frame : Frame := { stack := [], signed := [], next := [] }
    let asked (sig : Bytes) : Frame := { frame with checks := [⟨sig, [2], .empty, 3⟩] }
    context.verifySignature [2] [2] .empty 3 = true ∧
      execute rules .checkMultiSig { frame with stack := [[1], [2], [1], [2], [], [7]] }
        = .ok () { asked [2] with stack := [[1], [7]], operations := 1 } ∧
      execute rules .checkSig { frame with stack := [[2], [2], [7]] }
        = .ok () { asked [2] with stack := [[1], [7]] } ∧
      context.verifySignature [3] [2] .empty 3 = false ∧
      execute rules .checkMultiSig { frame with stack := [[1], [2], [1], [3], [], [7]] }
        = .error .signaturesNotEmpty { asked [3] with stack := [[7]], operations := 1 } ∧
      execute rules .checkSig { frame with stack := [[2], [3], [7]] }
        = .error .signatureNotEmpty { asked [3] with stack := [[7]] } := by
  -- For this transaction the outcome can be computed from the one word of its context.
  have hagree (sig : Bytes) := (one_of_one_agrees
    { flags := .nullFail, input := 3,
      context? := some ⟨fun sig key _ input => sig = key ∧ input = 3, 0, 0, fun _ => 0⟩ }
    { stack := [], signed := [], next := [] } sig [2] [[7]] (by decide) (by decide)
    (by decide)).2.1 _ rfl
  exact ⟨by decide, (hagree [2]).1, (hagree [2]).2, by decide, (hagree [3]).1, (hagree [3]).2⟩

end Bitcoin.Crypto
