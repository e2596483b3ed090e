import Bitcoin.Transaction.Basic

/-!
# What Signatures Commit To

A signature commits to a changed copy of the transaction, with the type of the
signature behind it. No input keeps its own script: the signed one carries the
script code, the others carry none. The type says what else is left out. Its base
decides on the outputs: all of them, none, or only the one with the number of the
signed input, where the earlier ones are blanked. In the last two cases the
sequence numbers of the other inputs are left open too. One more bit leaves out
the other inputs altogether.

Where there is no such input, or no such output for a type that wants one, there
is nothing to commit to, and the digest is a constant.

## Main definitions

* `SigHashType`: What a signature leaves open.
* `SigHash.preimage?`: The bytes that a signature commits to.
* `SigHash.digest`: The digest that is signed.
-/

namespace Bitcoin

/-- What a signature leaves open: a base in the low five bits, and one more bit. -/
structure SigHashType where
  bits : UInt32
deriving DecidableEq

namespace SigHashType

/-- All inputs and all outputs. -/
def all : SigHashType := ⟨1⟩

/-- All inputs and no output. -/
def none : SigHashType := ⟨2⟩

/-- All inputs and the output with the number of the signed input. -/
def single : SigHashType := ⟨3⟩

/-- Only the signed input. -/
def anyoneCanPay : SigHashType := ⟨0x80⟩

/-- The type at the end of a signature. -/
def ofByte (byte : UInt8) : SigHashType :=
  ⟨byte.toUInt32⟩

/-- The byte at the end of a signature. -/
def toByte (type : SigHashType) : UInt8 :=
  type.bits.toUInt8

/-- The part that decides on the outputs. -/
def base (type : SigHashType) : UInt32 :=
  type.bits &&& 0x1f

/-- Whether the other inputs are left out. -/
def isAnyoneCanPay (type : SigHashType) : Bool :=
  type.bits &&& 0x80 ≠ 0

/-- Whether no output is committed to. -/
def isNone (type : SigHashType) : Bool :=
  type.base = none.bits

/-- Whether one output is committed to. -/
def isSingle (type : SigHashType) : Bool :=
  type.base = single.bits

/-- The bits of both types. -/
def union (a b : SigHashType) : SigHashType :=
  ⟨a.bits ||| b.bits⟩

/-- The digits of a number in hexadecimal, at least two of them. -/
def shortHex (n : Nat) : String :=
  if n < 16 then "0" ++ Hex.ofNat n else Hex.ofNat n

/-- How a type with a named base is shown. -/
def displayNamed (type : SigHashType) (name : String) : String :=
  if type.isAnyoneCanPay then name ++ "|ANYONECANPAY" else name

/-- How a type is shown. One without a named base is shown as a number. -/
def display (type : SigHashType) : String :=
  if type.base = all.bits then type.displayNamed "ALL"
  else if type.isNone then type.displayNamed "NONE"
  else if type.isSingle then type.displayNamed "SINGLE"
  else "0x" ++ shortHex type.bits.toNat

/-- The type as a JSON number. -/
def toJson (type : SigHashType) : Json :=
  .ofNat type.bits.toNat

end SigHashType

namespace SigHash

/-- The bytes of an input with a script and a sequence number in place of its own. -/
def encodeInput (input : TxIn) (script : Script) (sequence : UInt32) : Bytes :=
  { input with unlocking := script, sequence }.encode

/-- The bytes of the input with the given number, where the input numbered `signed`
    is the signed one. -/
def encodeNth (signed : Nat) (code : Script) (type : SigHashType) (index : Nat) (input : TxIn) :
    Bytes :=
  if index = signed then encodeInput input code input.sequence
  else encodeInput input .empty (if type.isNone ∨ type.isSingle then 0 else input.sequence)

/-- The bytes of all inputs, with their number in front. -/
def encodeInputs (tx : Transaction) (signed : Nat) (code : Script) (type : SigHashType) : Bytes :=
  CompactSize.encode (CompactSize.ofLength tx.inputs.length) ++
    (tx.inputs.mapIdx (encodeNth signed code type)).flatten

/-- An output that commits to nothing. -/
def blankOutput : TxOut :=
  { satoshis := 0xffffffffffffffff, locking := .empty }

/-- The bytes of the outputs when one is committed to, with their number in front. -/
def encodeSingle (index : Nat) (output : TxOut) : Bytes :=
  CompactSize.encode (CompactSize.ofLength (index + 1)) ++
    (List.replicate index blankOutput.encode).flatten ++ output.encode

/-- The bytes that a signature of the numbered input commits to. -/
def preimage? (tx : Transaction) (index : Nat) (code : Script) (type : SigHashType) :
    Option Bytes := do
  let input ← tx.inputs[index]?
  let code := code.withoutSeparators
  let outputs ←
    if type.isSingle then (tx.outputs[index]?).map (encodeSingle index)
    else if type.isNone then some (CompactSize.encode 0)
    else some (encodeList TxOut.encode tx.outputs)
  let inputs :=
    if type.isAnyoneCanPay then CompactSize.encode 1 ++ encodeInput input code input.sequence
    else encodeInputs tx index code type
  return encodeWord tx.version ++ inputs ++ outputs ++ encodeWord tx.lockTime ++
    encodeWord type.bits

/-- The digest where there is nothing to commit to: the number one, least significant
    byte first. A signature of it is good for any transaction. -/
def constantDigest : Hash256 :=
  (ByteVec.ofNatBE 32 1).reverse

/-- The digest that a signature of the numbered input signs. -/
def digest (tx : Transaction) (index : Nat) (code : Script) (type : SigHashType) : Hash256 :=
  match preimage? tx index code type with
  | some preimage => Hash.sha256d preimage
  | none => constantDigest

end SigHash

end Bitcoin
