import Bitcoin.Curve.Params
import Bitcoin.Machine.Context

/-!
# The Form of Signatures and Keys

Before a signature is checked, its bytes may be held to a strict form, so that
nobody but the signer can make another signature of it. A signature is the DER
form of two integers with a hash type at its end; here only the form is looked
at, not the ranges of the integers. An empty signature is of no form and always
let through: it is how a script says that there is none.

## Main definitions

* `SignatureForm.shape`: The bytes of the second integer of a strict form.
* `SignatureForm.check`: The rules on a signature with its hash type.
* `KeyForm.check`: The rule on keys.
-/

namespace Bitcoin

namespace SignatureForm

/-- The strict form: `30 length 02 rlength r 02 slength s`, both integers positive
    and written with as few bytes as possible. Gives the bytes of the second
    integer. -/
def shape (sig : Bytes) : Except ShapeFault Bytes := do
  let byte (i : Nat) : UInt8 := sig.getD i 0
  let length := sig.length
  if length < 8 then throw (.tooShort length)
  if 72 < length then throw (.tooLong length)
  if byte 0 ≠ 0x30 then throw (.sequenceTag (byte 0))
  if (byte 1).toNat ≠ length - 2 then throw (.dataLength (byte 1) (length - 2))
  let rLength := (byte 3).toNat
  let sTag := 4 + rLength
  if length ≤ sTag then throw .missingSTag
  if length ≤ sTag + 1 then throw .missingSLength
  let sLength := (byte (sTag + 1)).toNat
  let s := sTag + 2
  if s + sLength ≠ length then throw .sLength
  if byte 2 ≠ 0x02 then throw (.rTag (byte 2))
  if rLength = 0 then throw .emptyR
  if 0x80 ≤ byte 4 then throw .negativeR
  if 1 < rLength ∧ byte 4 = 0 ∧ byte 5 < 0x80 then throw .paddedR
  if byte sTag ≠ 0x02 then throw (.sTag (byte sTag))
  if sLength = 0 then throw .emptyS
  if 0x80 ≤ byte s then throw .negativeS
  if 1 < sLength ∧ byte s = 0 ∧ byte (s + 1) < 0x80 then throw .paddedS
  return sig.drop s

/-- The bit of a hash type that is not part of its base. -/
def anyoneCanPay : UInt8 := 0x80

/-- Whether a hash type is one of the three known ones, the extra bit aside. -/
def isKnown (hashType : UInt8) : Bool :=
  let base := hashType &&& ~~~anyoneCanPay
  1 ≤ base ∧ base ≤ 3

/-- Refuses a signature whose bytes before the hash type break a rule in force. -/
def checkDer (rules : Rules) (der : Bytes) : Except Fault Unit := do
  if rules.flags.hasAny [.strictDer, .lowS, .strictEncoding] then
    let s ← (shape der).mapError .signatureShape
    if rules.has .lowS ∧ Curve.halfOrder < Bytes.toNatBE s then throw .highS

/-- Refuses a signature that breaks a rule in force. -/
def check (rules : Rules) (sig : Bytes) : Except Fault Unit :=
  match sig.getLast? with
  | none => return ()
  | some hashType => do
    checkDer rules sig.dropLast
    if rules.has .strictEncoding ∧ ¬isKnown hashType then throw (.hashType hashType)

end SignatureForm

namespace KeyForm

/-- Whether a key is of one of the two standard forms. -/
def isStandard (key : Bytes) : Bool :=
  match key with
  | [] => false
  | first :: _ =>
    (key.length = 33 ∧ (first = 0x02 ∨ first = 0x03)) ∨ (key.length = 65 ∧ first = 0x04)

/-- Refuses a key that breaks the rule on keys where it is in force. -/
def check (rules : Rules) (key : Bytes) : Except Fault Unit :=
  if rules.has .strictEncoding ∧ ¬isStandard key then throw .pubKeyType else return ()

end KeyForm

end Bitcoin
