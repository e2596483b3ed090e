import Bitcoin.Ecdsa.Signature

/-!
# Compact Forms of a Signature

The compact form is both components in thirty-two bytes each. The recoverable
form has one header byte in front, which packs the recovery id and a flag that
says whether the signer's key is to be written compressed into the eight values
from 27 to 34.

## Main definitions

* `Compact.encode`, `Compact.decode`: The form of sixty-four bytes.
* `Compact.encodeRecoverable`, `Compact.decodeRecoverable`: The form of sixty-five.
-/

namespace Bitcoin.Compact

/-- The compact form of a signature. -/
def encode (sig : Signature) : Bytes :=
  sig.r.toBytes ++ sig.s.toBytes

/-- The signature a compact form stands for. -/
def decode (bytes : Bytes) : Except Error Signature :=
  if bytes.length ≠ 64 then throw (.invalidLength 64 bytes.length)
  else
    match Scalar.ofInt? (Bytes.toNatBE (bytes.take 32)),
        Scalar.ofInt? (Bytes.toNatBE (bytes.drop 32)) with
    | none, _ => throw (.invalidSignature (.component .r))
    | some _, none => throw (.invalidSignature (.component .s))
    | some r, some s => return ⟨r, s⟩

/-- The first header byte. -/
def headerBase : UInt8 := 27

/-- The header byte for a recovery id and a compression flag. -/
def header (id : RecoveryId) (compressed : Bool) : UInt8 :=
  headerBase + id.toByte + (if compressed then 4 else 0)

/-- The recoverable form of a signature. -/
def encodeRecoverable (sig : Signature) (id : RecoveryId) (compressed : Bool) : Bytes :=
  header id compressed :: encode sig

/-- The signature, recovery id and compression flag a recoverable form stands
    for. -/
def decodeRecoverable (bytes : Bytes) : Except Error (Signature × RecoveryId × Bool) :=
  match bytes with
  | first :: rest =>
    if rest.length ≠ 64 then throw (.invalidLength 65 (rest.length + 1))
    else if first < headerBase ∨ headerBase + 8 ≤ first then
      throw (.invalidSignature (.header first))
    else do
      let offset := first - headerBase
      let id ← RecoveryId.ofByte (offset % 4)
      return (← decode rest, id, 4 ≤ offset)
  | [] => throw (.invalidLength 65 0)

end Bitcoin.Compact
