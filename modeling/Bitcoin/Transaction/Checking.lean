import Bitcoin.Ecdsa.Der
import Bitcoin.Key.Public
import Bitcoin.Machine.Context
import Bitcoin.Transaction.SigHash

/-!
# A Transaction as Scripts See It

A signature in a script is checked against the spending transaction: the byte at
its end gives the type, the type gives the digest, and the rest of it must verify
for the digest and the key. Whatever cannot be read does not verify.

Keys may have a third form here, an uncompressed key whose first byte also tells
the parity of its second coordinate. Rules on the form of keys, where they are in
force, have kept it out before.

## Main definitions

* `PublicKey.ofHybrid?`: The third form of a key.
* `Transaction.verifySignature`: Whether a signature in a script is good.
* `Transaction.context`: What the machine needs of a transaction.
-/

namespace Bitcoin

/-- The first byte of the third form of a key, for an even or odd coordinate. -/
def PublicKey.hybridTag (isOdd : Bool) : UInt8 :=
  if isOdd then 0x07 else 0x06

/-- The key with the given coordinates behind the given first byte, which must fit. -/
def PublicKey.ofHybrid? (tag : UInt8) (coordinates : Bytes) : Option PublicKey :=
  match ofBytes (0x04 :: coordinates) with
  | .ok key => if tag = hybridTag key.y.isOdd then some key else none
  | .error _ => none

/-- The key with a written form of any of the three kinds. -/
def PublicKey.ofAnyForm? (bytes : Bytes) : Option PublicKey :=
  match bytes with
  | [] => none
  | tag :: coordinates =>
    if (tag = 0x06 ∨ tag = 0x07) ∧ coordinates.length = 64 then ofHybrid? tag coordinates
    else (ofBytes bytes).toOption

namespace Transaction

/-- Whether a signature, with its type at the end, belongs to a key over a script code
    at an input. -/
def verifySignature (tx : Transaction) (sig key : Bytes) (code : Script) (index : Nat) : Bool :=
  match sig.getLast?, PublicKey.ofAnyForm? key, Der.decode sig.dropLast with
  | some type, some key, .ok sig => key.verify (SigHash.digest tx index code (.ofByte type)) sig
  | _, _, _ => false

/-- The sequence number of an input. An input that does not exist counts as final. -/
def sequenceOf (tx : Transaction) (index : Nat) : UInt32 :=
  match tx.inputs[index]? with
  | some input => input.sequence
  | none => 0xffffffff

/-- What the machine needs of a transaction. -/
def context (tx : Transaction) : Context :=
  { verifySignature := tx.verifySignature
    lockTime := tx.lockTime
    version := tx.version
    sequence := tx.sequenceOf }

end Transaction

end Bitcoin
