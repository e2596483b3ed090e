import Bitcoin.Proofs.Machine.Exec
import Mathlib.Data.Fin.VecNotation
import Mathlib.Data.List.NodupEquivFin

/-!
# Multisignatures Decide Matchings

A multisignature is good if its signatures can be given keys, each one a key that
it verifies under, such that the order of the keys is that of the signatures. The
machine does not search for such a matching. It gives the current signature the
first key that fits, never goes back, and stops as soon as more signatures than
keys are left.

Nothing is lost by this. Where a matching gives the signature a later key, it may
as well have the first one that fits, since that only leaves more keys to the
signatures behind it; and a matching needs as many keys as signatures.

## Main definitions

* `Crypto.Fits`, `Crypto.answer`: A signature that verifies under a key.
* `Crypto.record`: What is kept of the question.
* `Crypto.Matching`: A matching in the order of the keys.
* `Crypto.Counts`: An element that reads as a count.
* `Crypto.Ready`: A frame on which nothing but the matching is open.

## Theorems

* `Crypto.matching_iff`: A matching as a sublist of the keys.
* `Crypto.matching_cons_iff`: The first key that fits may always be taken.
* `Crypto.matchKeys_ok`: The cursors find a matching if there is one.
* `Crypto.checkMultiSig_iff_matching`: What a multisignature does.
-/

namespace Bitcoin

namespace Crypto

/-- A signature that verifies under a key, over a script code. An empty one never
    does. -/
def Fits (rules : Rules) (context : Context) (code : Script) (sig key : Bytes) : Prop :=
  sig ≠ [] ∧ context.verifySignature sig key code rules.input = true

/-- A matching in the order of the keys: every signature has a key that it fits, and
    later ones have later keys. -/
def Matching (fits : Bytes → Bytes → Prop) (sigs keys : List Bytes) : Prop :=
  ∃ f : Fin sigs.length → Fin keys.length, StrictMono f ∧
    ∀ i, fits (sigs.get i) (keys.get (f i))

section
variable {fits : Bytes → Bytes → Prop} {sig key : Bytes} {sigs keys : List Bytes}

/-- The keys of a matching are a sublist of all keys, fitted one by one. -/
theorem matching_iff : Matching fits sigs keys ↔ List.SublistForall₂ fits sigs keys := by
  rw [List.sublistForall₂_iff]
  constructor
  · rintro ⟨f, hmono, hfits⟩
    refine ⟨List.ofFn fun i => keys.get (f i), ?_, ?_⟩
    · -- The keys that are chosen are in the order of the signatures, one for each.
      refine List.forall₂_iff_get.mpr ⟨List.length_ofFn.symm, fun i hi _ => ?_⟩
      rw [List.get_ofFn]
      exact hfits ⟨i, hi⟩
    · rw [List.sublist_iff_exists_fin_orderEmbedding_get_eq]
      have hlength : (List.ofFn fun i => keys.get (f i)).length = sigs.length := List.length_ofFn
      refine ⟨OrderEmbedding.ofStrictMono (fun i => f (i.cast hlength))
        (fun i j hij => hmono hij), fun i => ?_⟩
      rw [List.get_ofFn]
      rfl
  · rintro ⟨chosen, hfits, hsublist⟩
    -- A sublist is embedded in order, which gives the key of each signature.
    rcases List.sublist_iff_exists_fin_orderEmbedding_get_eq.mp hsublist with ⟨f, hf⟩
    have hlength := hfits.length_eq
    refine ⟨fun i => f (i.cast hlength), fun i j hij => f.strictMono hij, fun i => ?_⟩
    rw [← hf]
    exact hfits.get i.isLt (hlength ▸ i.isLt)

/-- A matching needs as many keys as there are signatures. -/
theorem length_le_of_matching (h : List.SublistForall₂ fits sigs keys) :
    sigs.length ≤ keys.length := by
  rcases List.sublistForall₂_iff.mp h with ⟨chosen, hfits, hsublist⟩
  exact hfits.length_eq ▸ hsublist.length_le

/-- The first key that fits may always be taken. -/
theorem matching_cons_iff (h : fits sig key) :
    List.SublistForall₂ fits (sig :: sigs) (key :: keys) ↔
      List.SublistForall₂ fits sigs keys := by
  refine ⟨fun hall => ?_, .cons h⟩
  cases hall with
  | cons _ hrest => exact hrest
  | cons_right hlater =>
      -- The signature has a later key, so the others can do without the first one.
      rcases List.sublistForall₂_iff.mp hlater with ⟨chosen, hfits, hsublist⟩
      cases hfits with
      | cons _ hrest =>
          exact List.sublistForall₂_iff.mpr ⟨_, hrest, (List.sublist_cons_self _ _).trans hsublist⟩

/-- A key that does not fit the first signature is of no use to any. -/
theorem matching_cons_right_iff (h : ¬fits sig key) :
    List.SublistForall₂ fits (sig :: sigs) (key :: keys) ↔
      List.SublistForall₂ fits (sig :: sigs) keys := by
  refine ⟨fun hall => ?_, .cons_right⟩
  cases hall with
  | cons hfirst _ => exact absurd hfirst h
  | cons_right hlater => exact hlater

end

variable {rules : Rules} {context : Context} {code : Script} {sig key : Bytes}
  {sigs keys : List Bytes} {rest : Stack} {frame frame' : Frame}

/-- What a signature check finds: an empty signature is no good, of any other one the
    context decides. -/
def answer (rules : Rules) (context : Context) (code : Script) (sig key : Bytes) : Bool :=
  !sig.isEmpty && context.verifySignature sig key code rules.input

/-- The record of questions after a signature check. -/
def record (rules : Rules) (code : Script) (sig key : Bytes) (checks : List SignatureCheck) :
    List SignatureCheck :=
  if sig.isEmpty then checks else ⟨sig, key, code, rules.input⟩ :: checks

/-- The answer is yes for a signature that is not empty and that the context confirms. -/
theorem answer_eq_true : answer rules context code sig key = true ↔
    Fits rules context code sig key := by
  rw [answer, Bool.and_eq_true, Bool.not_eq_true', List.isEmpty_eq_false_iff]
  exact Iff.rfl

/-- Asking gives the answer of the context and adds the question to the record. -/
theorem ask_eq : ask rules context code sig key frame =
    .ok (answer rules context code sig key)
      { frame with checks := record rules code sig key frame.checks } := by
  rcases sig with _ | ⟨first, others⟩
  · rfl
  · rfl

theorem checkForms_eq_ok : checkForms rules sig key frame = .ok () frame' ↔
    (SignatureForm.check rules sig = .ok () ∧ KeyForm.check rules key = .ok ()) ∧
      frame = frame' := by
  rw [checkForms, Steps.bind_eq_ok]
  constructor
  · rintro ⟨_, _, hfirst, hsecond⟩
    rcases Exec.lift_eq_ok.mp hfirst with ⟨hsig, rfl⟩
    rcases Exec.lift_eq_ok.mp hsecond with ⟨hkey, rfl⟩
    exact ⟨⟨hsig, hkey⟩, rfl⟩
  · rintro ⟨⟨hsig, hkey⟩, rfl⟩
    exact ⟨(), frame, Exec.lift_eq_ok.mpr ⟨hsig, rfl⟩, Exec.lift_eq_ok.mpr ⟨hkey, rfl⟩⟩

/-- The cursors find a matching if there is one. The induction is on the keys, one of
    which is used up by each turn, fitted or passed over. -/
theorem matchKeys_ok (context : Context) (code : Script) (frame : Frame)
    (hkeys : ∀ key ∈ keys, KeyForm.check rules key = .ok ())
    (hsigs : ∀ sig ∈ sigs, SignatureForm.check rules sig = .ok ()) :
    ∃ (answer : Bool) (checks : List SignatureCheck),
      matchKeys rules context code sigs keys frame = .ok answer { frame with checks } ∧
      (answer = true ↔ List.SublistForall₂ (Fits rules context code) sigs keys) := by
  induction keys generalizing sigs frame with
  | nil =>
      rcases sigs with _ | ⟨sig, sigs⟩
      · exact ⟨true, frame.checks, rfl, fun _ => .nil, fun _ => rfl⟩
      · refine ⟨false, frame.checks, rfl, fun h => absurd h Bool.false_ne_true, fun h => ?_⟩
        exact absurd (length_le_of_matching h) (Nat.not_succ_le_zero _)
  | cons key keys ih =>
      rcases sigs with _ | ⟨sig, sigs⟩
      · exact ⟨true, frame.checks, rfl, fun _ => .nil, fun _ => rfl⟩
      · have hforms : checkForms rules sig key frame = .ok () frame :=
          checkForms_eq_ok.mpr ⟨⟨hsigs sig List.mem_cons_self, hkeys key List.mem_cons_self⟩, rfl⟩
        have hfit : answer rules context code sig key = true ↔ Fits rules context code sig key :=
          answer_eq_true
        rw [matchKeys, Steps.bind_ok hforms, Steps.bind_ok ask_eq]
        generalize answer rules context code sig key = fit at hfit ⊢
        generalize record rules code sig key frame.checks = asked
        -- The signatures that are left decide the whole, whether the key has been used or not.
        have hleft : List.SublistForall₂ (Fits rules context code) (sig :: sigs) (key :: keys) ↔
            List.SublistForall₂ (Fits rules context code)
              (if fit = true then sigs else sig :: sigs) keys := by
          by_cases hanswer : fit = true
          · rw [if_pos hanswer, matching_cons_iff (hfit.mp hanswer)]
          · rw [if_neg hanswer, matching_cons_right_iff (mt hfit.mpr hanswer)]
        have hsigsLeft : ∀ s ∈ (if fit = true then sigs else sig :: sigs),
            SignatureForm.check rules s = .ok () := by
          intro s hs
          split at hs
          · exact hsigs s (List.mem_cons_of_mem _ hs)
          · exact hsigs s hs
        rw [hleft]
        -- Where the loop stops early, there are too few keys for any matching.
        by_cases hfew : keys.length < (if fit = true then sigs else sig :: sigs).length
        · rw [if_pos hfew]
          refine ⟨false, asked, rfl, fun h => absurd h Bool.false_ne_true, fun h => ?_⟩
          exact absurd (length_le_of_matching h) (by omega)
        · rw [if_neg hfew]
          exact ih _ (fun k hk => hkeys k (List.mem_cons_of_mem _ hk)) hsigsLeft

/-- An element that reads as a count. -/
def Counts (rules : Rules) (element : Bytes) (count : Nat) : Prop :=
  ∃ n, rules.numbers.read element = .ok n ∧ Number.clamp 0x80000000 n = count

/-- A count within its limit is popped. -/
theorem popCount_ok {element : Bytes} {count limit : Nat} {fault : Int → Nat → Fault}
    (hstack : frame.stack = element :: rest) (hcounts : Counts rules element count)
    (hlimit : count ≤ limit) :
    popCount rules limit fault frame = .ok count { frame with stack := rest } := by
  rcases hcounts with ⟨n, hread, hcount⟩
  rw [popCount, Steps.bind_ok (Exec.popNumber_ok hstack hread)]
  simp only [hcount]
  rw [if_neg (by omega)]
  rfl

/-- A frame on which nothing but the matching is open: the counts, the extra element
    and the forms are as they should be, and the operations stay within their limit. -/
structure Ready (rules : Rules) (context : Context) (frame : Frame) (sigs keys : List Bytes)
    (rest : Stack) : Prop where
  /-- There is a transaction. -/
  context : rules.context? = some context
  /-- Keys and signatures lie in two groups under their counts, with an extra element
      below. -/
  stack : ∃ keyCount sigCount extra, Counts rules keyCount keys.length ∧
    Counts rules sigCount sigs.length ∧ (rules.has .nullDummy → extra = []) ∧
    frame.stack = keyCount :: (keys ++ sigCount :: (sigs ++ extra :: rest))
  keyLimit : keys.length ≤ rules.limits.multisigKeys
  sigLimit : sigs.length ≤ keys.length
  operations : frame.operations + keys.length ≤ rules.limits.operations
  keyForms : ∀ key ∈ keys, KeyForm.check rules key = .ok ()
  sigForms : ∀ sig ∈ sigs, SignatureForm.check rules sig = .ok ()

/-- A multisignature tells whether there is a matching. The answer replaces the counts,
    the keys, the signatures and the extra element, unless it is no where signatures
    that are not empty must be good. The keys are counted as operations. -/
theorem checkMultiSig_iff_matching (h : Ready rules context frame sigs keys rest) :
    ∃ (answer : Bool) (checks : List SignatureCheck),
      (answer = true ↔ Matching (Fits rules context (frame.scriptCode sigs)) sigs keys) ∧
      checkMultiSig rules frame =
        let after : Frame :=
          { frame with stack := rest, operations := frame.operations + keys.length, checks }
        if answer = false ∧ rules.has .nullFail = true ∧ ∃ sig ∈ sigs, sig ≠ [] then
          .error .signaturesNotEmpty after
        else .ok () { after with stack := Element.ofBool answer :: rest } := by
  rcases h.stack with ⟨keyCount, sigCount, extra, hkeyCount, hsigCount, hextra, hstack⟩
  -- The frame in which the matching begins: the groups are off the stack, the keys counted.
  rcases matchKeys_ok context (frame.scriptCode sigs)
    { frame with stack := rest, operations := frame.operations + keys.length }
    h.keyForms h.sigForms with ⟨answer, checks, hmatch, hanswer⟩
  refine ⟨answer, checks, hanswer.trans matching_iff.symm, ?_⟩
  rw [checkMultiSig]
  refine Eq.trans (Steps.bind_ok (popCount_ok hstack hkeyCount h.keyLimit)) ?_
  refine Eq.trans (Steps.bind_ok (Exec.countOperations_ok h.operations)) ?_
  refine Eq.trans (Steps.bind_ok (Exec.popMany_ok rfl)) ?_
  refine Eq.trans (Steps.bind_ok (popCount_ok rfl hsigCount h.sigLimit)) ?_
  refine Eq.trans (Steps.bind_ok (Exec.popMany_ok rfl)) ?_
  refine Eq.trans (Steps.bind_ok (Exec.pop_ok rfl)) ?_
  simp only []
  rw [if_neg (fun hc => hc.2 (hextra hc.1))]
  refine Eq.trans (Steps.bind_ok (Exec.context_eq_ok.mpr ⟨h.context, rfl⟩)) ?_
  refine Eq.trans (Steps.bind_ok rfl) ?_
  refine Eq.trans (Steps.bind_ok hmatch) ?_
  -- What is left is the refusal of signatures that should have been good.
  have hcondition : ((!answer) = true ∧ rules.has .nullFail = true ∧
      (sigs.any fun sig => !sig.isEmpty) = true) ↔
      (answer = false ∧ rules.has .nullFail = true ∧ ∃ sig ∈ sigs, sig ≠ []) := by
    simp only [Bool.not_eq_true', List.any_eq_true, List.isEmpty_eq_false_iff]
  by_cases hfail : answer = false ∧ rules.has .nullFail = true ∧ ∃ sig ∈ sigs, sig ≠ []
  · rw [if_pos (hcondition.mpr hfail)]
    exact (if_pos hfail).symm
  · rw [if_neg (mt hcondition.mp hfail)]
    exact (if_neg hfail).symm

/-- Two signatures out of three, where the second key belongs to nobody who has
    signed. -/
theorem checkMultiSig_iff_matching_two :
    let context : Context := ⟨fun sig key _ _ => sig = key, 0, 0, fun _ => 0⟩
    let rules : Rules := { flags := .nullFail, context? := some context }
    let frame : Frame :=
      { stack := [[3], [1], [2], [3], [2], [1], [3], [], [7]], signed := [], next := [] }
    Ready rules context frame [[1], [3]] [[1], [2], [3]] [[7]] ∧
      ∃ checks, checkMultiSig rules frame
        = .ok () { frame with stack := [[1], [7]], operations := 3, checks } := by
  intro context rules frame
  have hready : Ready rules context frame [[1], [3]] [[1], [2], [3]] [[7]] :=
    ⟨rfl, ⟨[3], [2], [], ⟨3, by decide +kernel, by rfl⟩, ⟨2, by decide +kernel, by rfl⟩,
      fun _ => rfl, rfl⟩, by decide, by decide, by decide, by decide, by decide⟩
  refine ⟨hready, ?_⟩
  rcases checkMultiSig_iff_matching hready with ⟨answer, checks, hanswer, hresult⟩
  -- The first signature belongs to the first key and the second one to the last.
  have hmatching : Matching (Fits rules context (frame.scriptCode [[1], [3]])) [[1], [3]]
      [[1], [2], [3]] := by
    refine ⟨![0, 2], by decide, fun i => ⟨?_, ?_⟩⟩
    · exact (by decide : ∀ i : Fin 2, [[1], [3]].get i ≠ ([] : Bytes)) i
    · exact (by decide : ∀ i : Fin 2, decide ([[1], [3]].get i
        = ([[1], [2], [3]] : List Bytes).get (![0, 2] i)) = true) i
  rw [hanswer.mpr hmatching] at hresult
  exact ⟨checks, hresult⟩

end Crypto

end Bitcoin
