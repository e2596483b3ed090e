import Bitcoin.Ecdsa.Der
import Bitcoin.Key.Secret
import Bitcoin.Script.Build
import Bitcoin.Transaction.Error
import Bitcoin.Transaction.SigHash

/-!
# Signing Inputs

An output that pays to the hash of a public key is unlocked by a signature and
that key. The signature is made over the input with the locking script of the
spent output as its script code; whether that script really asks for this key is
not looked at.

## Main definitions

* `Transaction.signInput`: The script that unlocks an input.
-/

namespace Bitcoin.Transaction

/-- The script that pushes a signature, with its type at the end, and a key. -/
def unlockingScript (sig : Signature) (type : SigHashType) (key : PublicKey) :
    Except ScriptError Script := do
  let signed ← Script.empty.addPush (Der.encode sig ++ [type.toByte])
  signed.addPush key.compressed

/-- The script that unlocks the numbered input by a key, given the locking script of
    the output it spends. A signature that would commit to an output which is not
    there is refused, since it would be good for any transaction. -/
def signInput (tx : Transaction) (index : Nat) (key : SecretKey) (locking : Script)
    (type : SigHashType) : Except TransactionError Script :=
  if tx.inputs.length ≤ index then throw (.inputIndex index tx.inputs.length)
  else if type.isSingle ∧ tx.outputs.length ≤ index then
    throw (.nothingToSign index tx.outputs.length)
  else do
    let (sig, _) ← (key.sign (SigHash.digest tx index locking type)).mapError .primitive
    let owner ← key.public?.mapError .primitive
    (unlockingScript sig type owner).mapError .script

end Bitcoin.Transaction
