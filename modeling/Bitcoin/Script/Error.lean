import Bitcoin.Hex
import Bitcoin.Script.Opcode

/-!
# Faults of Script Texts

What can go wrong when a script is written, read or taken apart. Running a script
has outcomes of its own; nothing here is one of them.

## Main definitions

* `ScriptError`: Why a script cannot be built or decoded.
* `ScriptError.message`, `ScriptError.name`: Its wording and its name.
-/

namespace Bitcoin

/-- Why a script cannot be built or decoded. -/
inductive ScriptError where
  /-- The push at this offset has fewer bytes behind it than it announces. -/
  | truncatedPush (offset : Nat)
  /-- No push can announce so many bytes. -/
  | dataTooBig (length : Nat)
  /-- One of several payloads is too long for a push. -/
  | partTooBig (index : Nat)
  /-- An opcode that needs a payload was given without one. -/
  | missingPayload (op : UInt8)
  /-- A word that is neither an opcode's name nor a payload in hexadecimal. -/
  | unknownWord (word : String)
  | invalidHex (fault : Hex.Fault)
  | empty
  /-- The script does not pay to the hash of a public key. -/
  | notP2PKH
deriving DecidableEq

/-- The wording of an error. -/
def ScriptError.message : ScriptError → String
  | .truncatedPush offset => s!"push at offset {offset} runs past the end of the script"
  | .dataTooBig length => s!"data too big: {length} bytes"
  | .partTooBig index => s!"part {index} too big"
  | .missingPayload op => "use append_push_data for push opcodes: " ++ Opcode.name op
  | .unknownWord word => "invalid ASM token '" ++ word ++ "'"
  | .invalidHex fault => "invalid hex: " ++ fault.message
  | .empty => "script is empty"
  | .notP2PKH => "not a P2PKH script"

/-- The name of a cause in reports. -/
def ScriptError.name : ScriptError → String
  | .truncatedPush _ => "TruncatedPush"
  | .dataTooBig _ => "DataTooBig"
  | .partTooBig _ => "PartTooBig"
  | .missingPayload _ => "InvalidOpcodeType"
  | .unknownWord _ => "InvalidAsmToken"
  | .invalidHex _ => "InvalidHex"
  | .empty => "EmptyScript"
  | .notP2PKH => "NotP2PKH"

end Bitcoin
