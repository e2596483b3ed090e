import Bitcoin.Hash
import Bitcoin.Json
import Bitcoin.Script.Chunk

/-!
# Scripts

A script is any byte string. It is taken apart only when somebody asks for its
chunks, so a malformed script can be stored and sent on like any other.

Two forms of locking script are known by their bytes. One pays to the hash of a
public key: `OP_DUP OP_HASH160 <20 bytes> OP_EQUALVERIFY OP_CHECKSIG`. The other
pays to the hash of a script: `OP_HASH160 <20 bytes> OP_EQUAL`.

## Main definitions

* `Script`: A byte string as a script.
* `Script.chunks`: What it consists of.
* `Script.isPushOnly`: Whether it does nothing but push.
* `Script.publicKeyHash`, `Script.scriptHash?`: What it pays to.
* `Script.withoutSeparators`: The form that signatures commit to.
-/

namespace Bitcoin

/-- A byte string as a script. -/
structure Script where
  bytes : Bytes
deriving DecidableEq

namespace Script

/-- The script without any chunk. -/
def empty : Script :=
  ⟨[]⟩

/-- The script whose bytes are given in hexadecimal. -/
def ofHex (text : String) : Except ScriptError Script :=
  match Hex.decode text with
  | .ok bytes => return ⟨bytes⟩
  | .error fault => throw (.invalidHex fault)

/-- The bytes in hexadecimal, which is how a script is shown. -/
def toHex (script : Script) : String :=
  Hex.encode script.bytes

/-- How a script is shown among other values. -/
def describe (script : Script) : String :=
  "Script(" ++ script.toHex ++ ")"

/-- The script a JSON string holds in hexadecimal. -/
def ofJson? (document : Json) : Option Script := do
  (ofHex (← document.string?)).toOption

/-- The script as a JSON string. -/
def toJson (script : Script) : Json :=
  .ofString script.toHex

/-- How many bytes there are. -/
def length (script : Script) : Nat :=
  script.bytes.length

/-- The chunks of a script. A truncated push anywhere is an error. -/
def chunks (script : Script) : Except ScriptError (List Chunk) :=
  Chunk.decode script.bytes

/-- Whether a script does nothing but push. The small numbers count as pushes, and
    so does the reserved opcode among them; a script that does not decode is not
    push-only. -/
def isPushOnly (script : Script) : Bool :=
  match script.chunks with
  | .ok chunks => chunks.all (·.op ≤ Opcode.sixteen)
  | .error _ => false

/-- The locking script that pays to the hash of a public key. -/
def p2pkh (hash : Hash160) : Script :=
  ⟨[0x76, 0xa9, 0x14] ++ hash.bytes ++ [0x88, 0xac]⟩

/-- The locking script that pays to the hash of a script. -/
def p2sh (hash : Hash160) : Script :=
  ⟨[0xa9, 0x14] ++ hash.bytes ++ [0x87]⟩

/-- The hash of the public key that a script pays to, if it is of that form. -/
def publicKeyHash? (script : Script) : Option Hash160 :=
  if script.bytes.take 3 = [0x76, 0xa9, 0x14] ∧ script.bytes.drop 23 = [0x88, 0xac] then
    ByteVec.ofBytes? 20 ((script.bytes.drop 3).take 20)
  else none

/-- The hash of the script that a script pays to, if it is of that form. -/
def scriptHash? (script : Script) : Option Hash160 :=
  if script.bytes.take 2 = [0xa9, 0x14] ∧ script.bytes.drop 22 = [0x87] then
    ByteVec.ofBytes? 20 ((script.bytes.drop 2).take 20)
  else none

/-- Whether a script pays to the hash of a public key. -/
def isP2PKH (script : Script) : Bool :=
  script.publicKeyHash?.isSome

/-- Whether a script pays to the hash of a script. -/
def isP2SH (script : Script) : Bool :=
  script.scriptHash?.isSome

/-- The hash of the public key that a script pays to. -/
def publicKeyHash (script : Script) : Except ScriptError Hash160 :=
  if script.bytes.isEmpty then throw .empty
  else
    match script.publicKeyHash? with
    | some hash => return hash
    | none => throw .notP2PKH

/-- The script without its code separators. What follows a truncated push is no
    chunk and stays as it is. -/
def withoutSeparators (script : Script) : Script :=
  let (chunks, tail) := Chunk.split script.bytes
  ⟨(chunks.filter (·.op ≠ Opcode.codeSeparator)).flatMap Chunk.encode ++ tail⟩

end Script

end Bitcoin
