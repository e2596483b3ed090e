import Bitcoin.Proofs.Indexed.Access
import Bitcoin.Machine.Program
import Bitcoin.Machine.SignatureForm

/-!
# Elements Read by Position

A byte string on a stack is read as a truth value, as the payload of a push, as a
signature; a number is made into one. All of this may be done with positions: that of
the first byte that is not zero, that of the last one, those that follow from the lengths
in a signature. Each of them is within the string, since what was looked at before says
that it is long enough.

## Main definitions

* `Indexed.isTrue?`, `Indexed.encode?`: Truth values and numbers.
* `Indexed.shortest?`: The form of a push.
* `Indexed.shape`: The strict form of signatures.
* `Indexed.isUnclear?`: The rule on conditions.

## Theorems

* `Indexed.isTrue?_eq`, `Indexed.encode?_eq`, `Indexed.shortest?_eq`, `Indexed.agrees_shape`,
  `Indexed.isUnclear?_eq`: They give what is given without positions.
-/

namespace Bitcoin.Indexed

open Access

/-- Whether a string is true whose first byte that is not zero stands at a position. It
    matters whether that is the last one. -/
def isTrueAt? (element : Bytes) (pos : Nat) : Option Bool := do
  if pos ≠ (← subtract? element.length 1) then return true
  return (← element[pos]?) ≠ 0x80

/-- The truth value of a string. -/
def isTrue? (element : Bytes) : Option Bool :=
  match element.findIdx? (· ≠ 0) with
  | none => return false
  | some pos => isTrueAt? element pos

/-- What is looked at from the end does not see what is put in front. -/
theorem isTrueAt?_cons (byte second : UInt8) (rest : Bytes) (pos : Nat) :
    isTrueAt? (byte :: second :: rest) (pos + 1) = isTrueAt? (second :: rest) pos := by
  simp [isTrueAt?, subtract?]

/-- All bytes that are looked at for the truth of an element are there. -/
theorem isTrue?_eq (element : Bytes) : isTrue? element = some (Element.isTrue element) := by
  induction element with
  | nil => rfl
  | cons byte rest ih =>
      rw [isTrue?, List.findIdx?_cons]
      by_cases hzero : byte = 0
      · subst hzero
        rcases rest with _ | ⟨second, rest⟩
        · rfl
        · -- The positions behind a zero are those in the rest, and one more.
          have htrue : Element.isTrue (0 :: second :: rest) = Element.isTrue (second :: rest) := rfl
          rw [htrue, ← ih, isTrue?, if_neg (by decide)]
          generalize List.findIdx? _ (second :: rest) = found
          rcases found with _ | pos
          · rfl
          · exact isTrueAt?_cons 0 second rest pos
      · rw [if_pos (decide_eq_true hzero)]
        rcases rest with _ | ⟨second, rest⟩
        · simp [isTrueAt?, subtract?, hzero, Element.isTrue]
        · simp [isTrueAt?, subtract?, hzero, Element.isTrue]

/-- The minimal string of a number. -/
def encode? (n : Int) : Option Bytes :=
  let magnitude := Bytes.ofNatLE n.natAbs
  match magnitude.getLast? with
  | none => return []
  | some top =>
    -- Where the top bit is taken the sign needs a byte of its own.
    if 0x80 ≤ top then return magnitude ++ [if n < 0 then 0x80 else 0x00]
    else if n < 0 then do
      let last ← subtract? magnitude.length 1
      return magnitude.set last ((← magnitude[last]?) ||| 0x80)
    else return magnitude

/-- The byte that may get the sign is there whenever a number has digits. -/
theorem encode?_eq (n : Int) : encode? n = some (Number.encode n) := by
  rw [encode?, Number.encode]
  rcases hlast : (Bytes.ofNatLE n.natAbs).getLast? with _ | top
  · rfl
  · rcases List.getLast?_eq_some_iff.mp hlast with ⟨low, hbytes⟩
    simp only [hbytes]
    -- There is a last byte, so its position can be computed and looked up.
    have hsub : subtract? (low ++ [top]).length 1 = some low.length := by
      rw [List.length_append, List.length_singleton, subtract?_of_le (by omega)]
      rfl
    have hget : (low ++ [top])[low.length]? = some top := by
      simp
    rw [hsub]
    simp only [Option.bind_eq_bind, Option.bind_some, hget]
    split
    · rfl
    · split
      · simp
      · rfl

/-- The shortest way to push a string. -/
def shortest? (data : Bytes) : Option PushForm := do
  let length := data.length
  if length = 1 then
    let byte ← data[0]?
    if 1 ≤ byte ∧ byte ≤ 16 then return .small (← data[0]?).toNat
    if (← data[0]?) = 0x81 then return .negativeOne
  return PushForm.ofLength length

/-- The single byte that decides on a short push is there. -/
theorem shortest?_eq (data : Bytes) : shortest? data = some (PushForm.shortest data) := by
  rcases data with _ | ⟨byte, _ | ⟨second, rest⟩⟩
  · rfl
  · rw [shortest?, PushForm.shortest]
    simp only [List.length_singleton, if_true, List.getElem?_cons_zero, Option.bind_eq_bind,
      Option.bind_some]
    split
    · rfl
    · split
      · rfl
      · rfl
  · rfl

/-- Within the length a default value is not used. -/
theorem getElem?_eq_getD {sig : Bytes} {i : Nat} (h : i < sig.length) :
    sig[i]? = some (sig.getD i 0) := by
  rw [List.getD_eq_getElem?_getD, List.getElem?_eq_getElem h]
  rfl

/-- Whether an integer that starts at a position and has more than one byte has one too many
    in front. -/
def isPadded? (sig : Bytes) (start length : Nat) : Option Bool := do
  if length ≤ 1 then return false
  if (← sig[start]?) ≠ 0 then return false
  return (← sig[start + 1]?) < 0x80

/-- Two bytes of a number are looked at only where there are two. -/
theorem isPadded?_eq {sig : Bytes} {start length : Nat} (h : start + length ≤ sig.length) :
    isPadded? sig start length =
      some (decide (1 < length ∧ sig.getD start 0 = 0 ∧ sig.getD (start + 1) 0 < 0x80)) := by
  rw [isPadded?]
  by_cases hlong : length ≤ 1
  · rw [if_pos hlong, decide_eq_false fun h => absurd h.1 (Nat.not_lt.mpr hlong)]
    rfl
  · -- The number is longer than a byte, and it ends within the signature.
    have hfirst : sig[start]? = some (sig.getD start 0) := getElem?_eq_getD (by omega)
    have hsecond : sig[start + 1]? = some (sig.getD (start + 1) 0) := getElem?_eq_getD (by omega)
    rw [if_neg hlong, hfirst, hsecond]
    generalize sig.getD start 0 = first
    by_cases hzero : first = 0
    · simp [hzero, Nat.lt_of_not_le hlong]
    · simp [hzero]

/-- The strict form of signatures. Gives the bytes of the second integer. -/
def shape (sig : Bytes) : Except (Stop ShapeFault) Bytes := do
  let length := sig.length
  if length < 8 then throw (.fault (.tooShort length))
  if 72 < length then throw (.fault (.tooLong length))
  let tag ← need sig[0]?
  if tag ≠ 0x30 then throw (.fault (.sequenceTag tag))
  let stated ← need sig[1]?
  let left ← need (subtract? length 2)
  if stated.toNat ≠ left then throw (.fault (.dataLength stated left))
  let rLength := (← need sig[3]?).toNat
  let sTag := 4 + rLength
  if length ≤ sTag then throw (.fault .missingSTag)
  if length ≤ sTag + 1 then throw (.fault .missingSLength)
  let sLength := (← need sig[sTag + 1]?).toNat
  let s := sTag + 2
  if s + sLength ≠ length then throw (.fault .sLength)
  let rTag ← need sig[2]?
  if rTag ≠ 0x02 then throw (.fault (.rTag rTag))
  if rLength = 0 then throw (.fault .emptyR)
  let rTop ← need sig[4]?
  if 0x80 ≤ rTop then throw (.fault .negativeR)
  let rPadded ← need (isPadded? sig 4 rLength)
  if rPadded then throw (.fault .paddedR)
  let sMark ← need sig[sTag]?
  if sMark ≠ 0x02 then throw (.fault (.sTag sMark))
  if sLength = 0 then throw (.fault .emptyS)
  let sTop ← need sig[s]?
  if 0x80 ≤ sTop then throw (.fault .negativeS)
  let sPadded ← need (isPadded? sig s sLength)
  if sPadded then throw (.fault .paddedS)
  need (from? sig s)

/-- The shape of a signature is checked without leaving it, since each length has been checked
    before it is used. -/
theorem agrees_shape (sig : Bytes) : Agrees (shape sig) (SignatureForm.shape sig) := by
  rw [shape, SignatureForm.shape]
  refine .guard fun hshort => .guard fun hlong => .need (getElem?_eq_getD (by omega)) ?_
  refine .guard fun htag => .need (getElem?_eq_getD (by omega)) ?_
  refine .need (subtract?_of_le (by omega)) ?_
  -- The second length stands where the first one says, if that is within the string.
  refine .guard fun hstated => .need (getElem?_eq_getD (by omega)) ?_
  refine .guard fun hsTag => .guard fun hsLength => .need (getElem?_eq_getD (by omega)) ?_
  -- From here on the two lengths are known to add up to that of the whole.
  refine .guard fun htotal => .need (getElem?_eq_getD (by omega)) ?_
  refine .guard fun hrTag => .guard fun hr => .need (getElem?_eq_getD (by omega)) ?_
  refine .guard fun hrTop => .need (isPadded?_eq (by omega)) ?_
  simp only [decide_eq_true_eq]
  refine .guard fun hrPadded => .need (getElem?_eq_getD (by omega)) ?_
  refine .guard fun hsMark => .guard fun hs => .need (getElem?_eq_getD (by omega)) ?_
  refine .guard fun hsTop => .need (isPadded?_eq (by omega)) ?_
  simp only [decide_eq_true_eq]
  refine .guard fun hsPadded => ?_
  rw [from?_of_le (by omega)]
  rfl

/-- Refuses a signature whose bytes before the hash type break a rule in force. -/
def checkDer (rules : Rules) (der : Bytes) : Except (Stop Fault) Unit := do
  if rules.flags.hasAny [.strictDer, .lowS, .strictEncoding] then
    let s ← (shape der).mapError (Stop.map .signatureShape)
    if rules.has .lowS ∧ Curve.halfOrder < Bytes.toNatBE s then throw (.fault .highS)

/-- Refuses a signature that breaks a rule in force. -/
def checkSignature (rules : Rules) (sig : Bytes) : Except (Stop Fault) Unit :=
  match sig.getLast? with
  | none => return ()
  | some hashType => do
    checkDer rules sig.dropLast
    if rules.has .strictEncoding ∧ ¬SignatureForm.isKnown hashType then
      throw (.fault (.hashType hashType))

/-- So no signature is too short for the rules on it. -/
theorem agrees_checkSignature (rules : Rules) (sig : Bytes) :
    Agrees (checkSignature rules sig) (SignatureForm.check rules sig) := by
  have hder (der : Bytes) : Agrees (checkDer rules der) (SignatureForm.checkDer rules der) :=
    .ite (fun _ => .bind (.mapError (agrees_shape der) _) fun _ =>
      .ite (fun _ => .throw _) fun _ => .pure ()) fun _ => .pure ()
  rw [checkSignature, SignatureForm.check]
  rcases sig.getLast? with _ | hashType
  · exact .pure ()
  · exact .bind (hder sig.dropLast) fun _ => .ite (fun _ => .throw _) fun _ => .pure ()

/-- Refuses a push that is not the shortest one of its payload. -/
def requireMinimal (instruction : Instruction) : Except (Stop Fault) Unit := do
  let shortest ← need (shortest? instruction.data)
  if shortest.admits instruction.op then return ()
  else throw (.fault (.pushNotMinimal instruction.data.length instruction.op shortest))

theorem agrees_requireMinimal (instruction : Instruction) :
    Agrees (requireMinimal instruction) instruction.requireMinimal :=
  .need (shortest?_eq instruction.data) (.ite (fun _ => .pure ()) fun _ => .throw _)

/-- Whether a condition is refused, as it is neither of the two that are clear. -/
def isUnclear? (rules : Rules) (element : Bytes) : Option Bool := do
  if !rules.has .minimalIf then return false
  if 1 < element.length then return true
  if element.length = 1 then return (← element[0]?) ≠ 1
  return false

/-- An element is compared with the two that are clear without being indexed. -/
theorem isUnclear?_eq (rules : Rules) (element : Bytes) : isUnclear? rules element =
    some (decide (rules.has .minimalIf ∧ element ≠ [] ∧ element ≠ [1])) := by
  rw [isUnclear?]
  by_cases hrule : rules.has .minimalIf = true
  · rcases element with _ | ⟨byte, _ | ⟨second, rest⟩⟩
    · simp [hrule]
    · simp [hrule]
    · simp [hrule]
  · simp [hrule]

end Bitcoin.Indexed
