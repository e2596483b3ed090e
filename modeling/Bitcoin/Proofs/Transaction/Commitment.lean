import Bitcoin.Proofs.Script.Separators
import Bitcoin.Proofs.Transaction.Encoding
import Bitcoin.Transaction.SigHash
import Mathlib.Data.List.InsertIdx
import Mathlib.Data.Nat.Bitwise

/-!
# Signatures Commit to a View

The bytes under a signature are those of a changed copy of the transaction with
the type behind it. A copy can be read off its bytes, so two signatures are over
the same bytes only if their types and their copies are the same.

A copy still holds things that say nothing, blanked outputs and sequence numbers
that are zero whatever they were. What it does say is its view: the outputs that
are committed to, and of the inputs what they spend, without their scripts. Copies
of the same type are the same if and only if their views are. One direction is
that the view can be found in the copy, the other that the copy depends on
nothing else.

What a type means is written down here by its bits, two ways of leaving outputs out by
the number in the low five of them and the way of leaving inputs out by one more. Masks and
constants come in only where the bytes are compared with the copy. In the same way the
script code is taken without its separators by the chunks that it has.

## Main definitions

* `SigHashType.SignsNoOutput`, `SigHashType.SignsOneOutput`, `SigHashType.SignsOneInput`: What
  the bits of a type mean.
* `SigHash.committedOutputs?`: The outputs that a type commits to.
* `SigHash.copy`: The changed copy of a transaction.
* `SigHash.View`, `SigHash.view?`: What a signature commits to.

## Theorems

* `SigHashType.isNone_iff`, `SigHashType.isSingle_iff`, `SigHashType.isAnyoneCanPay_iff`: The
  masks tell these meanings apart.
* `SigHash.preimage?_eq_some`: The bytes under a signature are those of the copy.
* `SigHash.sized_copy`: Lengths in a copy are words.
* `SigHash.copy_eq_iff`: Copies are the same if their views are.
* `SigHash.preimage_eq_iff_view_eq`: What a signature commits to.
-/

namespace Bitcoin

/-- The output that an input spends. -/
def TxIn.outpoint (input : TxIn) : TxId × UInt32 :=
  (input.prevTxId, input.vout)

namespace SigHashType

/-- No output is signed, where the low five bits are a two. -/
def SignsNoOutput (type : SigHashType) : Prop :=
  type.bits.toNat % 2 ^ 5 = 2

/-- One output is signed, the one with the number of the input, where they are a three. -/
def SignsOneOutput (type : SigHashType) : Prop :=
  type.bits.toNat % 2 ^ 5 = 3

/-- One input is signed, where the eighth bit is set. -/
def SignsOneInput (type : SigHashType) : Prop :=
  type.bits.toNat.testBit 7 = true

variable (type : SigHashType)

instance : Decidable type.SignsNoOutput :=
  inferInstanceAs (Decidable (_ = _))

instance : Decidable type.SignsOneOutput :=
  inferInstanceAs (Decidable (_ = _))

instance : Decidable type.SignsOneInput :=
  inferInstanceAs (Decidable (_ = _))

/-- The mask of the base keeps the low five bits. -/
theorem toNat_base : type.base.toNat = type.bits.toNat % 2 ^ 5 := by
  rw [base, UInt32.toNat_and]
  exact Nat.and_two_pow_sub_one_eq_mod type.bits.toNat 5

theorem isNone_iff : type.isNone = true ↔ type.SignsNoOutput := by
  rw [isNone, decide_eq_true_iff, ← UInt32.toNat_inj, toNat_base]
  rfl

theorem isSingle_iff : type.isSingle = true ↔ type.SignsOneOutput := by
  rw [isSingle, decide_eq_true_iff, ← UInt32.toNat_inj, toNat_base]
  rfl

/-- What the mask of the eighth bit leaves is zero unless this bit is set. -/
theorem isAnyoneCanPay_iff : type.isAnyoneCanPay = true ↔ type.SignsOneInput := by
  have hmask : (type.bits &&& 0x80).toNat = (type.bits.toNat.testBit 7).toNat * 2 ^ 7 := by
    rw [UInt32.toNat_and]
    exact Nat.and_two_pow type.bits.toNat 7
  rw [isAnyoneCanPay, decide_eq_true_iff, ne_eq, ← UInt32.toNat_inj, hmask, SignsOneInput]
  cases type.bits.toNat.testBit 7 with
  | true => decide
  | false => decide

end SigHashType

namespace SigHash

/-- A type that leaves the sequence numbers of the other inputs open. -/
def leavesSequences (type : SigHashType) : Prop :=
  type.SignsNoOutput ∨ type.SignsOneOutput

instance (type : SigHashType) : Decidable (leavesSequences type) :=
  inferInstanceAs (Decidable (_ ∨ _))

/-- The outputs that a type commits to, unless the one that it wants is missing. -/
def committedOutputs? (tx : Transaction) (index : Nat) (type : SigHashType) :
    Option (List TxOut) :=
  if type.SignsOneOutput then (tx.outputs[index]?).map fun output => [output]
  else if type.SignsNoOutput then some []
  else some tx.outputs

/-- The outputs in front of the one that a type commits to. They are blank. -/
def blankOutputs (index : Nat) (type : SigHashType) : List TxOut :=
  if type.SignsOneOutput then List.replicate index blankOutput else []

/-- An input that is not signed, as it stands in the copy. -/
def coverInput (type : SigHashType) (input : TxIn) : TxIn :=
  { input with
    unlocking := .empty, sequence := if leavesSequences type then 0 else input.sequence }

/-- The inputs of the copy. -/
def copyInputs (inputs : List TxIn) (index : Nat) (code : Script) (type : SigHashType)
    (input : TxIn) : List TxIn :=
  if type.SignsOneInput then [{ input with unlocking := code }]
  else (inputs.map (coverInput type)).set index { input with unlocking := code }

/-- The copy whose bytes are signed, given the script code without its separators, the signed
    input, and the outputs that are committed to. -/
def copy (tx : Transaction) (index : Nat) (code : Script) (type : SigHashType) (input : TxIn)
    (outputs : List TxOut) : Transaction :=
  { tx with
    inputs := copyInputs tx.inputs index code type input
    outputs := blankOutputs index type ++ outputs }

/-- What a signature commits to. -/
structure View where
  version : UInt32
  lockTime : UInt32
  /-- The script code without its separators. -/
  code : Script
  /-- What the signed input spends. -/
  outpoint : TxId × UInt32
  sequence : UInt32
  /-- The other inputs in order, unless they are left out: what they spend, and their
      sequence numbers unless these are left open. -/
  others : Option (List ((TxId × UInt32) × Option UInt32))
  outputs : List TxOut
deriving DecidableEq

/-- What is committed to of an input that is not signed. -/
def viewInput (type : SigHashType) (input : TxIn) : (TxId × UInt32) × Option UInt32 :=
  (input.outpoint, if leavesSequences type then none else some input.sequence)

/-- What is committed to of the inputs that are not signed. -/
def viewOthers (inputs : List TxIn) (index : Nat) (type : SigHashType) :
    Option (List ((TxId × UInt32) × Option UInt32)) :=
  if type.SignsOneInput then none else some ((inputs.eraseIdx index).map (viewInput type))

/-- The view of a transaction, given the script code without its separators, the signed input,
    and the outputs that are committed to. -/
def view (tx : Transaction) (index : Nat) (code : Script) (type : SigHashType) (input : TxIn)
    (outputs : List TxOut) : View :=
  { version := tx.version
    lockTime := tx.lockTime
    code
    outpoint := input.outpoint
    sequence := input.sequence
    others := viewOthers tx.inputs index type
    outputs }

/-- What a signature of the numbered input commits to, with the script code without its
    separators. There is nothing where there is no such input or no such output. -/
def view? (tx : Transaction) (index : Nat) (code : Script) (type : SigHashType) : Option View := do
  let input ← tx.inputs[index]?
  let outputs ← committedOutputs? tx index type
  return view tx index code type input outputs

variable {tx tx' : Transaction} {index : Nat} {code code' : Script} {type type' : SigHashType}
  {input input' : TxIn} {outputs outputs' : List TxOut}

/-- A list in which one element is treated in a way of its own. -/
theorem mapIdx_eq_set {α β : Type} {xs : List α} {x : α} (h : xs[index]? = some x)
    (f g : α → β) :
    xs.mapIdx (fun i a => if i = index then f a else g a) = (xs.map g).set index (f x) := by
  -- Position by position: the one that is set is the one that is singled out.
  ext1 i
  rw [List.getElem?_mapIdx, List.getElem?_set, List.getElem?_map, List.length_map]
  by_cases hi : index = i
  · subst hi
    rw [h, if_pos rfl, if_pos (List.getElem?_eq_some_iff.mp h).1, Option.map_some, if_pos rfl]
  · rw [if_neg hi]
    cases xs[i]? with
    | none => rfl
    | some a => rw [Option.map_some, Option.map_some, if_neg (Ne.symm hi)]

/-- The encodings of the inputs, numbered, are those of the inputs of the copy. -/
theorem mapIdx_encodeNth {inputs : List TxIn} (h : inputs[index]? = some input) :
    inputs.mapIdx (encodeNth index code type)
      = ((inputs.map (coverInput type)).set index { input with unlocking := code }).map
        TxIn.encode := by
  have hnth : encodeNth index code type = fun position (input : TxIn) =>
      if position = index then encodeInput input code input.sequence
      else (coverInput type input).encode := by
    funext position input
    simp only [encodeNth, SigHashType.isNone_iff, SigHashType.isSingle_iff]
    rfl
  rw [hnth, List.map_set, List.map_map]
  exact mapIdx_eq_set h (fun input => encodeInput input code input.sequence) _

/-- The signed input alone, with a count of one, or all of them are the bytes of the inputs of
    the copy. -/
theorem encodeList_copyInputs (h : tx.inputs[index]? = some input) :
    (if type.isAnyoneCanPay then CompactSize.encode 1 ++ encodeInput input code input.sequence
      else encodeInputs tx index code type)
      = encodeList TxIn.encode (copyInputs tx.inputs index code type input) := by
  rw [copyInputs]
  simp only [SigHashType.isAnyoneCanPay_iff]
  by_cases hany : type.SignsOneInput
  · rw [if_pos hany, if_pos hany, encodeList, List.flatMap_singleton]
    rfl
  · rw [if_neg hany, if_neg hany, encodeInputs, encodeList, List.length_set, List.length_map,
      mapIdx_encodeNth h, ← List.flatMap_def]

/-- The bytes of one output with blanks in front of it, a count of zero, or the bytes of all
    outputs are the bytes of the outputs of the copy. -/
theorem encodeList_copyOutputs :
    (if type.isSingle then (tx.outputs[index]?).map (encodeSingle index)
      else if type.isNone then some (CompactSize.encode 0)
      else some (encodeList TxOut.encode tx.outputs))
      = (committedOutputs? tx index type).map fun outputs =>
        encodeList TxOut.encode (blankOutputs index type ++ outputs) := by
  rw [committedOutputs?, blankOutputs]
  simp only [SigHashType.isSingle_iff, SigHashType.isNone_iff]
  by_cases hsingle : type.SignsOneOutput
  · rw [if_pos hsingle, if_pos hsingle, if_pos hsingle, Option.map_map]
    refine congrArg (Option.map · _) (funext fun output => ?_)
    -- The one output stands behind blank ones, which are as many as there are outputs before it.
    rw [Function.comp_apply, encodeSingle, encodeList, List.length_append, List.length_replicate,
      List.flatMap_append, List.flatMap_singleton, List.flatMap_replicate, List.append_assoc]
    rfl
  · rw [if_neg hsingle, if_neg hsingle, if_neg hsingle]
    by_cases hnone : type.SignsNoOutput
    · rw [if_pos hnone, if_pos hnone]
      rfl
    · rw [if_neg hnone, if_neg hnone]
      rfl

/-- The bytes under a signature of an input that exists are those of the copy, with the
    type behind them. -/
theorem preimage?_of_input (h : tx.inputs[index]? = some input) :
    preimage? tx index code type = (committedOutputs? tx index type).map fun outputs =>
      (copy tx index code.withoutSeparators type input outputs).encode
        ++ encodeWord type.bits := by
  -- The parts are put together in the same way whichever outputs there are.
  have hparts : preimage? tx index code type =
      (if type.isSingle then (tx.outputs[index]?).map (encodeSingle index)
        else if type.isNone then some (CompactSize.encode 0)
        else some (encodeList TxOut.encode tx.outputs)).map fun outputs =>
          encodeWord tx.version ++
            (if type.isAnyoneCanPay then
              CompactSize.encode 1 ++ encodeInput input code.withoutSeparators input.sequence
            else encodeInputs tx index code.withoutSeparators type) ++
            outputs ++ encodeWord tx.lockTime ++ encodeWord type.bits := by
    rw [preimage?, h]
    by_cases hsingle : type.isSingle = true
    · simp only [if_pos hsingle]
      rcases tx.outputs[index]? with _ | output
      · rfl
      · rfl
    · simp only [if_neg hsingle]
      by_cases hnone : type.isNone = true
      · simp only [if_pos hnone]
        rfl
      · simp only [if_neg hnone]
        rfl
  rw [hparts, encodeList_copyOutputs, encodeList_copyInputs h, Option.map_map]
  rfl

/-- Where there are bytes under a signature, they are those of the copy. -/
theorem preimage?_eq_some {bytes : Bytes} :
    preimage? tx index code type = some bytes ↔
      ∃ input, tx.inputs[index]? = some input ∧
        ∃ outputs, committedOutputs? tx index type = some outputs ∧
          (copy tx index code.withoutSeparators type input outputs).encode
            ++ encodeWord type.bits = bytes := by
  -- There is a preimage only for an input of the transaction.
  rcases hinput : tx.inputs[index]? with _ | input
  · have hnone : preimage? tx index code type = none := by
      rw [preimage?, hinput]
      rfl
    rw [hnone]
    exact ⟨nofun, nofun⟩
  · rw [preimage?_of_input hinput, Option.map_eq_some_iff]
    constructor
    · rintro ⟨outputs, hbytes⟩
      exact ⟨input, rfl, outputs, hbytes⟩
    · rintro ⟨_, hfound, outputs, hbytes⟩
      cases hfound
      exact ⟨outputs, hbytes⟩

/-- Of the outputs nothing can be committed to only where a type wants one that is missing. -/
theorem committedOutputs?_eq_none : committedOutputs? tx index type = none ↔
    type.SignsOneOutput ∧ tx.outputs.length ≤ index := by
  rw [committedOutputs?]
  by_cases hsingle : type.SignsOneOutput
  · rw [if_pos hsingle, Option.map_eq_none_iff, List.getElem?_eq_none_iff]
    exact (and_iff_right hsingle).symm
  · rw [if_neg hsingle]
    refine ⟨fun h => ?_, fun h => absurd h.1 hsingle⟩
    split at h
    · cases h
    · cases h

/-- The outputs of a copy are no more than those of the transaction, and each is one of
    them or blank. -/
theorem copyOutputs_le (h : committedOutputs? tx index type = some outputs) :
    (blankOutputs index type ++ outputs).length ≤ tx.outputs.length ∧
      ∀ output ∈ blankOutputs index type ++ outputs,
        output = blankOutput ∨ output ∈ tx.outputs := by
  rw [committedOutputs?] at h
  rw [blankOutputs]
  by_cases hsingle : type.SignsOneOutput
  · rw [if_pos hsingle] at h
    rw [if_pos hsingle]
    rcases Option.map_eq_some_iff.mp h with ⟨output, hfound, rfl⟩
    have hlt : index < tx.outputs.length := (List.getElem?_eq_some_iff.mp hfound).1
    -- There are as many blank outputs as outputs in front of the one that is found.
    refine ⟨?_, fun other hother => ?_⟩
    · rw [List.length_append, List.length_replicate, List.length_singleton]
      exact hlt
    · rcases List.mem_append.mp hother with hblank | hlast
      · exact Or.inl (List.eq_of_mem_replicate hblank)
      · rw [List.mem_singleton.mp hlast]
        exact Or.inr (List.mem_of_getElem? hfound)
  · rw [if_neg hsingle] at h
    rw [if_neg hsingle, List.nil_append]
    by_cases hnone : type.SignsNoOutput
    · rw [if_pos hnone] at h
      cases h
      exact ⟨Nat.zero_le _, nofun⟩
    · rw [if_neg hnone] at h
      cases h
      exact ⟨Nat.le_refl _, fun _ => Or.inr⟩

/-- Lengths in a copy are words. -/
theorem sized_copy (hsized : tx.Sized) (hcode : IsWordLength code.length)
    (houtputs : committedOutputs? tx index type = some outputs) :
    (copy tx index code type input outputs).Sized := by
  rcases copyOutputs_le houtputs with ⟨hlength, hmem⟩
  refine ⟨?_, ?_, Nat.lt_of_le_of_lt hlength hsized.outputs, ?_⟩
  · change IsWordLength (copyInputs _ _ _ _ _).length
    rw [copyInputs]
    split
    · exact (by decide : 1 < 2 ^ 64)
    · rw [List.length_set, List.length_map]
      exact hsized.inputs
  · intro other hother
    change other ∈ copyInputs _ _ _ _ _ at hother
    rw [copyInputs] at hother
    split at hother
    · -- The input alone, with the code.
      rw [List.mem_singleton.mp hother]
      exact hcode
    · -- Another input has no script left, and the one that is signed has the code.
      rcases List.mem_or_eq_of_mem_set hother with hcovered | rfl
      · rcases List.mem_map.mp hcovered with ⟨_, _, rfl⟩
        exact (by decide : 0 < 2 ^ 64)
      · exact hcode
  · intro output houtput
    rcases hmem output houtput with rfl | hkept
    · exact (by decide : 0 < 2 ^ 64)
    · exact hsized.locking output hkept

/-- Lists with an element replaced are the same if the new elements are and the other
    ones are. -/
theorem set_eq_set_iff {α : Type} {xs ys : List α} {i : Nat} {x y : α} (hx : i < xs.length)
    (hy : i < ys.length) : xs.set i x = ys.set i y ↔ x = y ∧ xs.eraseIdx i = ys.eraseIdx i := by
  induction i generalizing xs ys with
  | zero =>
      rcases xs with _ | ⟨a, xs⟩
      · exact absurd hx (Nat.not_lt_zero _)
      rcases ys with _ | ⟨b, ys⟩
      · exact absurd hy (Nat.not_lt_zero _)
      rw [List.set_cons_zero, List.set_cons_zero, List.eraseIdx_cons_zero,
        List.eraseIdx_cons_zero, List.cons.injEq]
  | succ i ih =>
      rcases xs with _ | ⟨a, xs⟩
      · exact absurd hx (Nat.not_lt_zero _)
      rcases ys with _ | ⟨b, ys⟩
      · exact absurd hy (Nat.not_lt_zero _)
      rw [List.set_cons_succ, List.set_cons_succ, List.eraseIdx_cons_succ,
        List.eraseIdx_cons_succ, List.cons.injEq, List.cons.injEq,
        ih (Nat.lt_of_succ_lt_succ hx) (Nat.lt_of_succ_lt_succ hy)]
      exact and_left_comm

/-- Two functions that tell the same elements apart tell the same lists apart. -/
theorem map_eq_map_iff_of {α β γ : Type} {f : α → β} {g : α → γ}
    (h : ∀ a b, f a = f b ↔ g a = g b) (xs ys : List α) :
    xs.map f = ys.map f ↔ xs.map g = ys.map g := by
  induction xs generalizing ys with
  | nil =>
      rcases ys with _ | ⟨b, ys⟩
      · exact ⟨fun _ => rfl, fun _ => rfl⟩
      · exact ⟨nofun, nofun⟩
  | cons a xs ih =>
      rcases ys with _ | ⟨b, ys⟩
      · exact ⟨nofun, nofun⟩
      · rw [List.map_cons, List.map_cons, List.map_cons, List.map_cons, List.cons.injEq,
          List.cons.injEq, h, ih]

/-- Two inputs that are not signed are covered alike exactly if the same is seen of them. -/
theorem coverInput_eq_iff (type : SigHashType) (input input' : TxIn) :
    coverInput type input = coverInput type input' ↔
      viewInput type input = viewInput type input' := by
  rw [coverInput, coverInput, viewInput, viewInput, TxIn.outpoint, TxIn.outpoint]
  by_cases hopen : leavesSequences type
  · -- Both forget the sequence number, one by a zero and the other by leaving it out.
    simp only [if_pos hopen, TxIn.mk.injEq, Prod.mk.injEq, and_true]
  · simp only [if_neg hopen, TxIn.mk.injEq, Prod.mk.injEq, Option.some.injEq, true_and, and_assoc]

/-- With the code in its place the input tells what it spends, its sequence number and the code. -/
theorem signedInput_eq_iff :
    ({ input with unlocking := code } : TxIn) = { input' with unlocking := code' } ↔
      code = code' ∧ input.outpoint = input'.outpoint ∧ input.sequence = input'.sequence := by
  rw [TxIn.mk.injEq, TxIn.outpoint, TxIn.outpoint, Prod.mk.injEq]
  exact ⟨fun ⟨hid, hvout, hcode, hsequence⟩ => ⟨hcode, ⟨hid, hvout⟩, hsequence⟩,
    fun ⟨hcode, ⟨hid, hvout⟩, hsequence⟩ => ⟨hid, hvout, hcode, hsequence⟩⟩

/-- The inputs of two copies are the same if what the views say of them is. -/
theorem copyInputs_eq_iff {inputs inputs' : List TxIn} (h : inputs[index]? = some input)
    (h' : inputs'[index]? = some input') :
    copyInputs inputs index code type input = copyInputs inputs' index code' type input' ↔
      (code = code' ∧ input.outpoint = input'.outpoint ∧ input.sequence = input'.sequence) ∧
        viewOthers inputs index type = viewOthers inputs' index type := by
  rw [copyInputs, copyInputs, viewOthers, viewOthers]
  by_cases hany : type.SignsOneInput
  · simp only [if_pos hany, and_true]
    rw [List.cons.injEq, and_iff_left rfl]
    exact signedInput_eq_iff
  · simp only [if_neg hany, Option.some.injEq]
    have hlt : index < (inputs.map (coverInput type)).length := by
      rw [List.length_map]
      exact (List.getElem?_eq_some_iff.mp h).1
    have hlt' : index < (inputs'.map (coverInput type)).length := by
      rw [List.length_map]
      exact (List.getElem?_eq_some_iff.mp h').1
    -- The signed input stands alone, the others are told apart one by one.
    rw [set_eq_set_iff hlt hlt', List.eraseIdx_map, List.eraseIdx_map,
      map_eq_map_iff_of (coverInput_eq_iff type), signedInput_eq_iff]

/-- Copies of the same type are the same if and only if the views are. -/
theorem copy_eq_iff (hinput : tx.inputs[index]? = some input)
    (hinput' : tx'.inputs[index]? = some input') :
    copy tx index code type input outputs = copy tx' index code' type input' outputs' ↔
      view tx index code type input outputs = view tx' index code' type input' outputs' := by
  rw [copy, copy, view, view, Transaction.mk.injEq, View.mk.injEq,
    copyInputs_eq_iff hinput hinput', List.append_cancel_left_eq]
  constructor
  · rintro ⟨hversion, ⟨⟨hcode, hspent, hsequence⟩, hothers⟩, houtputs, hlockTime⟩
    exact ⟨hversion, hlockTime, hcode, hspent, hsequence, hothers, houtputs⟩
  · rintro ⟨hversion, hlockTime, hcode, hspent, hsequence, hothers, houtputs⟩
    exact ⟨hversion, ⟨⟨hcode, hspent, hsequence⟩, hothers⟩, houtputs, hlockTime⟩

/-- What is seen is there once the input and the outputs are. -/
theorem view?_eq_some (hinput : tx.inputs[index]? = some input)
    (houtputs : committedOutputs? tx index type = some outputs) :
    view? tx index code type = some (view tx index code type input outputs) := by
  rw [view?, hinput, Option.bind_eq_bind, Option.bind_some, houtputs]
  rfl

/-- Two signatures of inputs with the same number are over the same bytes if and only if
    they are of the same type and commit to the same view, where the script codes count by
    what is left of their chunks without the separators. -/
theorem preimage_eq_iff_view_eq {bytes bytes' : Bytes} (hsized : tx.Sized) (hsized' : tx'.Sized)
    (hcode : IsWordLength code.length) (hcode' : IsWordLength code'.length)
    (h : preimage? tx index code type = some bytes)
    (h' : preimage? tx' index code' type' = some bytes') :
    ∃ kept kept' view view', (∀ script, code.Strips script ↔ script = kept) ∧
      (∀ script, code'.Strips script ↔ script = kept') ∧
      view? tx index kept type = some view ∧
      view? tx' index kept' type' = some view' ∧
      (bytes = bytes' ↔ type = type' ∧ view = view') := by
  rcases preimage?_eq_some.mp h with ⟨input, hinput, outputs, houtputs, rfl⟩
  rcases preimage?_eq_some.mp h' with ⟨input', hinput', outputs', houtputs', rfl⟩
  -- What is left of a script code is not longer than it, so its length is a word too.
  have hkept : IsWordLength code.withoutSeparators.length :=
    Nat.lt_of_le_of_lt code.length_withoutSeparators_le hcode
  have hkept' : IsWordLength code'.withoutSeparators.length :=
    Nat.lt_of_le_of_lt code'.length_withoutSeparators_le hcode'
  refine ⟨_, _, _, _, fun _ => Script.strips_iff, fun _ => Script.strips_iff,
    view?_eq_some hinput houtputs, view?_eq_some hinput' houtputs', fun heq => ?_, ?_⟩
  · -- The bytes show where the copy ends, and the word behind it is the type.
    rcases Transaction.selfDelimiting_encode (sized_copy hsized hkept houtputs)
      (sized_copy hsized' hkept' houtputs') heq with ⟨hcopy, hword⟩
    have hbits : type.bits = type'.bits := SelfDelimiting.word.injective trivial trivial hword
    have htype : type = type' := by
      rcases type with ⟨bits⟩
      rcases type' with ⟨bits'⟩
      exact congrArg SigHashType.mk hbits
    subst htype
    exact ⟨rfl, (copy_eq_iff hinput hinput').mp hcopy⟩
  · rintro ⟨rfl, hviews⟩
    rw [(copy_eq_iff hinput hinput').mpr hviews]

/-- With one output and nobody else's inputs committed to, another input, another output,
    an unlocking script and a separator make no difference. -/
theorem preimage_eq_iff_view_eq_single :
    let tx : Transaction :=
      { inputs := [⟨.zero, 0, ⟨[0x51]⟩, 7⟩], outputs := [⟨1, .empty⟩] }
    let tx' : Transaction :=
      { inputs := [⟨.zero, 0, .empty, 7⟩, ⟨.zero, 1, .empty, 5⟩]
        outputs := [⟨1, .empty⟩, ⟨2, .empty⟩] }
    (preimage? tx 0 ⟨[0xab]⟩ ⟨0x83⟩).isSome = true ∧
      preimage? tx 0 ⟨[0xab]⟩ ⟨0x83⟩ = preimage? tx' 0 .empty ⟨0x83⟩ := by
  intro tx tx'
  have hsized : tx.Sized := ⟨by decide, by decide, by decide, by decide⟩
  have hsized' : tx'.Sized := ⟨by decide, by decide, by decide, by decide⟩
  have hsome : (preimage? tx 0 ⟨[0xab]⟩ ⟨0x83⟩).isSome = true := by decide +kernel
  have hsome' : (preimage? tx' 0 .empty ⟨0x83⟩).isSome = true := by decide +kernel
  rcases Option.isSome_iff_exists.mp hsome with ⟨bytes, h⟩
  rcases Option.isSome_iff_exists.mp hsome' with ⟨bytes', h'⟩
  rcases preimage_eq_iff_view_eq hsized hsized' (by decide) (by decide) h h'
    with ⟨kept, kept', view, view', hkept, hkept', hview, hview', hiff⟩
  -- Nothing is left of either code.
  obtain rfl : .empty = kept := (hkept _).mp (Script.strips_iff.mpr (by decide +kernel))
  obtain rfl : .empty = kept' := (hkept' _).mp (Script.strips_iff.mpr (by decide +kernel))
  have hsame : view? tx 0 .empty ⟨0x83⟩ = view? tx' 0 .empty ⟨0x83⟩ := by decide +kernel
  rw [hview, hview', Option.some.injEq] at hsame
  refine ⟨hsome, ?_⟩
  rw [h, h', hiff.mpr ⟨rfl, hsame⟩]

end SigHash

end Bitcoin
