import Bitcoin.Machine.Frame
import Bitcoin.Machine.SignatureForm

/-!
# Digests and Signatures in Scripts

A signature check takes a key and a signature from the stack and asks the context
whether they belong together over the script code. The answer is a truth value on
the stack; a malformed signature or key fails the script instead, and so may a
signature that is not empty and does not verify.

A multisignature has several keys and at most as many signatures. Both are taken
in order, and a key that does not fit the current signature is passed over for
good, so the signatures must stand in the order of their keys. As soon as fewer
keys than signatures are left the answer is no. One element below them all is
taken as well and has no use.

## Main definitions

* `Crypto.ask`: A question to the context.
* `Crypto.checkSig`: One key and one signature.
* `Crypto.matchKeys`: Signatures against keys in order.
* `Crypto.checkMultiSig`: Several keys and signatures.
* `Crypto.execute`: What a digest or signature operation does.
-/

namespace Bitcoin.Crypto

/-- Replaces the top element by a digest of it. -/
def digest {size : Nat} (hash : Bytes → ByteVec size) : StackM Unit := do
  Stack.push (hash (← Stack.pop)).bytes

/-- Whether a signature belongs to a key, by the context's word. Nobody is asked
    about an empty signature. -/
def ask (rules : Rules) (context : Context) (code : Script) (sig key : Bytes) : Exec Bool := do
  if sig.isEmpty then return false
  modify fun frame => { frame with checks := ⟨sig, key, code, rules.input⟩ :: frame.checks }
  return context.verifySignature sig key code rules.input

/-- Refuses a signature or key whose form breaks a rule in force. -/
def checkForms (rules : Rules) (sig key : Bytes) : Exec Unit := do
  Exec.lift (SignatureForm.check rules sig)
  Exec.lift (KeyForm.check rules key)

/-- Checks one signature. -/
def checkSig (rules : Rules) : Exec Unit := do
  let key ← Stack.pop
  let sig ← Stack.pop
  let context ← Exec.context rules .checkSig
  checkForms rules sig key
  let code := (← get).scriptCode [sig]
  let valid ← ask rules context code sig key
  if !valid ∧ sig ≠ [] ∧ rules.has .nullFail then throw .signatureNotEmpty
  Stack.pushBool valid

/-- Whether each signature belongs to a key, in order. -/
def matchKeys (rules : Rules) (context : Context) (code : Script) :
    (sigs keys : List Bytes) → Exec Bool
  | [], _ => return true
  | _ :: _, [] => return false
  | sig :: sigs, key :: keys => do
    checkForms rules sig key
    let left := if ← ask rules context code sig key then sigs else sig :: sigs
    if keys.length < left.length then return false
    matchKeys rules context code left keys

/-- Takes a count from the stack that may not exceed a limit. A number out of the
    range of a word of thirty-two bits counts as the nearest one in it. -/
def popCount (rules : Rules) (limit : Nat) (fault : Int → Nat → Fault) : Exec Nat := do
  let count := Number.clamp 0x80000000 (← Stack.popNumber rules.numbers)
  if count < 0 ∨ limit < count then throw (fault count limit)
  return count.toNat

/-- Checks several signatures. Each key counts as an operation. -/
def checkMultiSig (rules : Rules) : Exec Unit := do
  let keyCount ← popCount rules rules.limits.multisigKeys .pubKeyCount
  Exec.countOperations rules keyCount
  let keys ← Stack.popMany keyCount
  let sigCount ← popCount rules keyCount .signatureCount
  let sigs ← Stack.popMany sigCount
  let dummy ← Stack.pop
  if rules.has .nullDummy ∧ dummy ≠ [] then throw (.dummyNotEmpty dummy.length)
  let context ← Exec.context rules .checkMultiSig
  let code := (← get).scriptCode sigs
  let valid ← matchKeys rules context code sigs keys
  if !valid ∧ rules.has .nullFail ∧ sigs.any (!·.isEmpty) then throw .signaturesNotEmpty
  Stack.pushBool valid

/-- Marks the rest of the script as the script code of later signatures. -/
def markCode : Exec Unit :=
  modify fun frame => { frame with signed := frame.next }

/-- What a digest or signature operation does. -/
def execute (rules : Rules) : CryptoOp → Exec Unit
  | .ripemd160 => digest Hash.ripemd160
  | .sha1 => digest Hash.sha1
  | .sha256 => digest Hash.sha256
  | .hash160 => digest Hash.hash160
  | .hash256 => digest Hash.sha256d
  | .codeSeparator => markCode
  | .checkSig => checkSig rules
  | .checkSigVerify => do
    checkSig rules
    Exec.verifyTop .sig
  | .checkMultiSig => checkMultiSig rules
  | .checkMultiSigVerify => do
    checkMultiSig rules
    Exec.verifyTop .multiSig

end Bitcoin.Crypto
