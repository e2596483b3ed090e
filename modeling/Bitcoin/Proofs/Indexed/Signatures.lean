import Bitcoin.Proofs.Indexed.Operations
import Bitcoin.Machine.Execute

/-!
# Signatures by Position

The script that signatures commit to is cut out of the running one from a position on,
and the signatures of a multisignature are matched with its keys by two positions. Both
move on with a key that fits, and only that of the keys with one that does not.

The loop looks at the key of its position without asking whether there is one. There is
one as long as there is a signature, since no fewer keys than signatures are left: that
is so at the start, and the loop stops where it would cease to be so.

## Main definitions

* `Indexed.scriptCode?`: The script that some signatures commit to.
* `Indexed.matchFrom`: Signatures against keys in order, from two positions on.
* `Indexed.crypto`: What a digest or signature operation does.

## Theorems

* `Indexed.scriptCode?_eq`: The script is cut out within its bounds.
* `Indexed.mirrors_matchFrom`: The loop keeps as many keys ahead as signatures.
* `Indexed.mirrors_crypto`: Digest and signature operations.
-/

namespace Bitcoin.Indexed

open Access

/-- Replaces the top element by a digest of it. -/
def digest {size : Nat} (hash : Bytes → ByteVec size) : ItemsM Unit := do
  Items.push (hash (← Items.pop)).bytes

/-- The script that some signatures commit to: what stands from a position on in the
    running script, without the pushes of these signatures. -/
def scriptCode? (place : Place) (codeStart : Nat) (sigs : List Bytes) : Option Script := do
  let (_, program) ← place.scripts[place.script]?
  -- A separator that is the last instruction leaves a position that is the length.
  let signed ← from? program (min codeStart program.length)
  return (sigs.foldl Program.removePush signed).unparse

/-- Whether a signature belongs to a key, by the context's word. -/
def ask (rules : Rules) (context : Context) (code : Script) (sig key : Bytes) : StoreM Bool := do
  if sig.isEmpty then return false
  modify fun store => { store with checks := ⟨sig, key, code, rules.input⟩ :: store.checks }
  return context.verifySignature sig key code rules.input

/-- Refuses a signature or key whose form breaks a rule in force. -/
def checkForms (rules : Rules) (sig key : Bytes) : StoreM Unit := do
  lift (checkSignature rules sig)
  ofResult (KeyForm.check rules key)

/-- Checks one signature. -/
def checkSig (rules : Rules) (place : Place) : StoreM Unit := do
  let key ← Items.pop
  let sig ← Items.pop
  let found ← context rules .checkSig
  checkForms rules sig key
  let code ← need (scriptCode? place (← get).codeStart [sig])
  let valid ← ask rules found code sig key
  if !valid ∧ sig ≠ [] ∧ rules.has .nullFail then throw (.fault .signatureNotEmpty)
  Items.pushBool valid

/-- A difference that can be computed is one of a number that is not smaller. -/
theorem le_of_subtract? {a b difference : Nat} (h : subtract? a b = some difference) : b ≤ a := by
  rw [subtract?] at h
  split at h
  · assumption
  · cases h

/-- Whether each of so many signatures belongs to one of so many keys, in order and from two
    positions on. -/
def matchFrom (rules : Rules) (context : Context) (code : Script) (sigs keys : List Bytes)
    (sigCount keyCount sigIndex keyIndex : Nat) : StoreM Bool :=
  if sigIndex < sigCount then do
    let sig ← need sigs[sigIndex]?
    -- Only the signatures have been asked whether there is another one.
    let key ← need keys[keyIndex]?
    checkForms rules sig key
    let valid ← ask rules context code sig key
    let sigIndex := if valid then sigIndex + 1 else sigIndex
    let sigsLeft ← need (subtract? sigCount sigIndex)
    match _found : subtract? keyCount (keyIndex + 1) with
    | none => throw .outOfRange
    | some keysLeft =>
      if keysLeft < sigsLeft then return false
      matchFrom rules context code sigs keys sigCount keyCount sigIndex (keyIndex + 1)
  else return true
termination_by keyCount - keyIndex
decreasing_by
  have := le_of_subtract? _found
  omega

/-- Takes a count from the stack that may not exceed a limit. -/
def popCount (rules : Rules) (limit : Nat) (fault : Int → Nat → Fault) : StoreM Nat := do
  let count := Number.clamp 0x80000000 (← Items.popNumber rules.numbers)
  if count < 0 ∨ limit < count then throw (.fault (fault count limit))
  return count.toNat

/-- Checks several signatures. -/
def checkMultiSig (rules : Rules) (place : Place) : StoreM Unit := do
  let keyCount ← popCount rules rules.limits.multisigKeys .pubKeyCount
  countOperations rules keyCount
  let keys ← Items.popMany keyCount
  let sigCount ← popCount rules keyCount .signatureCount
  let sigs ← Items.popMany sigCount
  let dummy ← Items.pop
  if rules.has .nullDummy ∧ dummy ≠ [] then throw (.fault (.dummyNotEmpty dummy.length))
  let found ← context rules .checkMultiSig
  let code ← need (scriptCode? place (← get).codeStart sigs)
  let valid ← matchFrom rules found code sigs keys sigCount keyCount 0 0
  if !valid ∧ rules.has .nullFail ∧ sigs.any (!·.isEmpty) then throw (.fault .signaturesNotEmpty)
  Items.pushBool valid

/-- Marks the position behind the instruction as the start of what signatures commit to. -/
def markCode (place : Place) : StoreM Unit :=
  modify fun store => { store with codeStart := place.offset + 1 }

/-- What a digest or signature operation does. -/
def crypto (rules : Rules) (place : Place) : CryptoOp → StoreM Unit
  | .ripemd160 => digest Hash.ripemd160
  | .sha1 => digest Hash.sha1
  | .sha256 => digest Hash.sha256
  | .hash160 => digest Hash.hash160
  | .hash256 => digest Hash.sha256d
  | .codeSeparator => markCode place
  | .checkSig => checkSig rules place
  | .checkSigVerify => do
    checkSig rules place
    verifyTop .sig
  | .checkMultiSig => checkMultiSig rules place
  | .checkMultiSigVerify => do
    checkMultiSig rules place
    verifyTop .multiSig

section
variable {place : Place} {rules : Rules}

theorem mirrors_digest {size : Nat} (hash : Bytes → ByteVec size) :
    Mirrors (Store.frame place) (onItems (digest hash)) (Exec.onStack (Crypto.digest hash)) :=
  mirrors_onItems <| (Items.mirrors_nip 0).bind fun _ => Items.mirrors_push _

/-- The position is not behind the end of the script, as the smaller one is taken. -/
theorem scriptCode?_eq (h : place.script < place.scripts.length) (store : Store)
    (sigs : List Bytes) :
    scriptCode? place store.codeStart sigs = some ((store.frame place).scriptCode sigs) := by
  have hscript : place.scripts[place.script]? = some place.scripts[place.script] :=
    List.getElem?_eq_getElem h
  have hprogram : place.program = place.scripts[place.script].2 := Place.program_eq hscript
  rw [scriptCode?, hscript, Frame.scriptCode, Store.frame, hprogram]
  simp only [Option.bind_eq_bind, Option.bind_some]
  rw [from?_of_le (Nat.min_le_right _ _), ← List.drop_eq_drop_min]
  rfl

theorem mirrors_ask (found : Context) (code : Script) (sig key : Bytes) :
    Mirrors (Store.frame place) (ask rules found code sig key)
      (Crypto.ask rules found code sig key) :=
  .ite (fun _ => .pure false) fun _ => .bind (.update fun _ => rfl) fun _ => .pure _

theorem mirrors_checkForms (sig key : Bytes) :
    Mirrors (Store.frame place) (checkForms rules sig key) (Crypto.checkForms rules sig key) :=
  (mirrors_lift (agrees_checkSignature rules sig)).bind fun _ => mirrors_ofResult _

/-- A signature check takes the same two elements and asks the same. -/
theorem mirrors_checkSig (h : place.script < place.scripts.length) :
    Mirrors (Store.frame place) (checkSig rules place) (Crypto.checkSig rules) := by
  refine (mirrors_onItems (Items.mirrors_nip 0)).bind fun key => ?_
  refine (mirrors_onItems (Items.mirrors_nip 0)).bind fun sig => ?_
  refine (mirrors_context _).bind fun found => (mirrors_checkForms sig key).bind fun _ => ?_
  refine .read fun store => .need (scriptCode?_eq h store [sig]) ?_
  refine (mirrors_ask found _ sig key).bind fun valid => ?_
  exact .guard fun _ => mirrors_onItems (Items.mirrors_push _)

/-- The keys that are left are at least as many as the signatures, so there is one to look
    at, and what is subtracted is not too much. -/
theorem mirrors_matchFrom (found : Context) (code : Script) (sigs keys : List Bytes)
    (sigIndex keyIndex : Nat)
    (hahead : sigs.length - sigIndex ≤ keys.length - keyIndex) :
    Mirrors (Store.frame place)
      (matchFrom rules found code sigs keys sigs.length keys.length sigIndex keyIndex)
      (Crypto.matchKeys rules found code (sigs.drop sigIndex) (keys.drop keyIndex)) := by
  induction hleft : keys.length - keyIndex generalizing sigIndex keyIndex with
  | zero =>
      rw [matchFrom, if_neg (by omega), List.drop_eq_nil_of_le (by omega), Crypto.matchKeys]
      exact .pure true
  | succ left ih =>
      rw [matchFrom]
      by_cases hsig : sigIndex < sigs.length
      · have hkey : keyIndex < keys.length := by omega
        rw [if_pos hsig, List.drop_eq_getElem_cons hsig, List.drop_eq_getElem_cons hkey,
          Crypto.matchKeys]
        refine .need (List.getElem?_eq_getElem hsig) <| .need (List.getElem?_eq_getElem hkey) ?_
        refine (mirrors_checkForms _ _).bind fun _ => ?_
        refine (mirrors_ask found code _ _).bind fun valid => ?_
        -- Whether or not the key fits, the signatures that are left stand from a position on
        -- that is within their list.
        have hnext : (if valid then sigs.drop (sigIndex + 1)
            else sigs[sigIndex] :: sigs.drop (sigIndex + 1)) =
            sigs.drop (if valid then sigIndex + 1 else sigIndex) := by
          cases valid with
          | false => exact (List.drop_eq_getElem_cons hsig).symm
          | true => rfl
        have hindex : (if valid then sigIndex + 1 else sigIndex) ≤ sigs.length := by
          cases valid with
          | false => exact Nat.le_of_lt hsig
          | true => exact hsig
        rw [hnext]
        generalize (if valid then sigIndex + 1 else sigIndex) = next at hindex
        refine .need (subtract?_of_le hindex) ?_
        simp only [List.length_drop]
        split
        · next hnone =>
            rw [subtract?_of_le hkey] at hnone
            cases hnone
        · next keysLeft hsome =>
            rw [subtract?_of_le hkey] at hsome
            cases hsome
            refine .ite (fun _ => .pure false) fun hahead => ?_
            exact ih next (keyIndex + 1) (Nat.le_of_not_lt hahead) (by omega)
      · rw [if_neg hsig, List.drop_eq_nil_of_le (Nat.le_of_not_lt hsig), Crypto.matchKeys]
        exact .pure true

theorem mirrors_popCount (limit : Nat) (fault : Int → Nat → Fault) :
    Mirrors (Store.frame place) (popCount rules limit fault)
      (Crypto.popCount rules limit fault) :=
  (mirrors_onItems (Items.mirrors_popNumber _)).bind fun _ => .guard fun _ => .pure _

/-- A count that is taken is within its limit. -/
theorem le_of_popCount (limit : Nat) (fault : Int → Nat → Fault) :
    Steps.Ensures (fun _ => True) (popCount rules limit fault) fun count _ => count ≤ limit := by
  refine .bind (Q := fun _ _ => True) (fun _ _ _ _ _ => trivial) fun n => .guard fun hcount => ?_
  exact .pure fun _ _ => by omega

/-- What holds of the value does not depend on the rest of the store. -/
theorem ensures_onItems {α : Type} {V : α → Prop} {action : ItemsM α}
    (h : Steps.Ensures (fun _ => True) action fun a _ => V a) :
    Steps.Ensures (fun _ => True) (onItems action) fun a _ => V a := by
  intro store a store' _ hrun
  rw [onItems] at hrun
  split at hrun
  · next value items hresult =>
      cases hrun
      exact h _ _ _ trivial hresult
  · cases hrun

/-- At the start there are as many keys and signatures as were counted, and the second
    count is within the first. -/
theorem mirrors_checkMultiSig (h : place.script < place.scripts.length) :
    Mirrors (Store.frame place) (checkMultiSig rules place) (Crypto.checkMultiSig rules) := by
  refine (mirrors_popCount _ _).bind fun keyCount => ?_
  refine (mirrors_countOperations keyCount).bind fun _ => ?_
  refine (mirrors_onItems (Items.mirrors_popMany keyCount)).bind_of
    (ensures_onItems (Items.length_of_popMany keyCount)) ?_
  rintro keys rfl
  refine (mirrors_popCount _ _).bind_of (le_of_popCount _ _) fun sigCount hcount => ?_
  refine (mirrors_onItems (Items.mirrors_popMany sigCount)).bind_of
    (ensures_onItems (Items.length_of_popMany sigCount)) ?_
  rintro sigs rfl
  -- From here on the two counts are the lengths of the two lists.
  refine (mirrors_onItems (Items.mirrors_nip 0)).bind fun dummy => .guard fun _ => ?_
  refine (mirrors_context _).bind fun found => ?_
  refine .read fun store => .need (scriptCode?_eq h store sigs) ?_
  refine (mirrors_matchFrom found _ sigs keys 0 0 hcount).bind fun valid => ?_
  exact .guard fun _ => mirrors_onItems (Items.mirrors_push _)

/-- Digests and signature checks do the same on both sides. -/
theorem mirrors_crypto (h : place.script < place.scripts.length) (op : CryptoOp) :
    Mirrors (Store.frame place) (crypto rules place op) (Crypto.execute rules op) := by
  cases op with
  | ripemd160 | sha1 | sha256 | hash160 | hash256 => exact mirrors_digest _
  | codeSeparator => exact .update fun _ => rfl
  | checkSig => exact mirrors_checkSig h
  | checkSigVerify => exact (mirrors_checkSig h).bind fun _ => mirrors_verifyTop _
  | checkMultiSig => exact mirrors_checkMultiSig h
  | checkMultiSigVerify => exact (mirrors_checkMultiSig h).bind fun _ => mirrors_verifyTop _

end

end Bitcoin.Indexed
