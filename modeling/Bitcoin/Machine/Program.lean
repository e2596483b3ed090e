import Bitcoin.Machine.Fault
import Bitcoin.Script.Basic

/-!
# Programs

To be run, a script is decoded once into instructions, each with its offset. An
instruction without a payload has an empty one. Instructions are written back as
they were read, whatever header their push had.

The script that a signature commits to leaves out the pushes of the signature
itself. Only the smallest push counts as such; the same payload behind a wider
header stays.

## Main definitions

* `Instruction`: A decoded instruction with its place.
* `Program`, `Program.parse`, `Program.unparse`: The instructions of a script.
* `Instruction.requireMinimal`: The rule on shortest pushes.
* `Program.removePush`: Leaving out the pushes of a payload.
-/

namespace Bitcoin

/-- A decoded instruction with its place. -/
structure Instruction where
  op : UInt8
  /-- The bytes pushed, none for an instruction without payload. -/
  data : Bytes
  /-- How many bytes of the script stand before it. -/
  offset : Nat
deriving DecidableEq

namespace Instruction

/-- What an instruction does. -/
def operation (instruction : Instruction) : Operation :=
  Opcode.operation instruction.op

/-- The bytes of an instruction. -/
def encode (instruction : Instruction) : Bytes :=
  let width := Push.lengthWidth instruction.op
  instruction.op :: Bytes.fixedLE width instruction.data.length ++ instruction.data

/-- Refuses a push that is not the shortest one of its payload. -/
def requireMinimal (instruction : Instruction) : Except Fault Unit :=
  let shortest := PushForm.shortest instruction.data
  if shortest.admits instruction.op then return ()
  else throw (.pushNotMinimal instruction.data.length instruction.op shortest)

end Instruction

/-- The instructions of a script, in order. -/
abbrev Program := List Instruction

namespace Program

/-- The instructions of what is left of a script, which starts at the given
    offset. -/
def parseFrom (role : Role) (offset : Nat) (bytes : Bytes) : Except Failure Program :=
  if bytes.isEmpty then return []
  else
    match _found : Chunk.first? bytes with
    | none => throw ((Failure.of .truncatedPush).locate role offset)
    | some (chunk, rest) => do
      let instruction : Instruction := ⟨chunk.op, chunk.data.getD [], offset⟩
      return instruction :: (← parseFrom role (offset + chunk.size) rest)
termination_by bytes.length
decreasing_by exact Chunk.length_of_first? _found

/-- The instructions of a script. A truncated push anywhere is a failure at its
    place. -/
def parse (role : Role) (script : Script) : Except Failure Program :=
  parseFrom role 0 script.bytes

/-- The script of some instructions. -/
def unparse (program : Program) : Script :=
  ⟨program.flatMap Instruction.encode⟩

/-- Leaves out the smallest pushes of a payload. -/
def removePush (program : Program) (data : Bytes) : Program :=
  match Push.encode data with
  | .ok pattern => program.filter fun instruction => instruction.encode ≠ pattern
  | .error _ => program

end Program

end Bitcoin
