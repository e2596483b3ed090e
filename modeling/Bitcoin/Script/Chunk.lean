import Bitcoin.Script.Push

/-!
# Chunks

A script is a row of chunks, each an opcode with the payload it announces. Only
the opcodes that push bytes of their own choice have a payload; the payload of
the zero opcode is empty. A chunk keeps its opcode, so writing it gives the bytes
it was read from also where another opcode would have been shorter.

A push that announces more bytes than there are ends the decodable part of a
script. Decoding either refuses such a script, naming the push by its offset, or
hands out the chunks before it together with the undecoded tail.

## Main definitions

* `Chunk`: An opcode with its payload.
* `Chunk.encode`, `Chunk.first?`: The bytes of a chunk and the chunk in front.
* `Chunk.decode`: The chunks of a script, all of it or none.
* `Chunk.split`: The chunks up to a truncated push, and what is left.

## Theorems

* `Chunk.length_of_first?`: Reading a chunk leaves fewer bytes.
-/

namespace Bitcoin

/-- An opcode with its payload. -/
structure Chunk where
  op : UInt8
  /-- The bytes pushed, if the opcode has a payload. -/
  data : Option Bytes
deriving DecidableEq

/-- The payload behind a push opcode, and what follows it. -/
def Push.payload? (op : UInt8) (rest : Bytes) : Option (Bytes × Bytes) :=
  if op ≤ Opcode.maxDirect then Bytes.split? op.toNat rest
  else
    match Bytes.split? (lengthWidth op) rest with
    | some (length, rest) => Bytes.split? (Bytes.toNatLE length) rest
    | none => none

namespace Chunk

/-- Whether a chunk pushes bytes of its own choice. -/
def isPush (chunk : Chunk) : Bool :=
  Opcode.isPush chunk.op

/-- The bytes of a chunk. -/
def encode (chunk : Chunk) : Bytes :=
  let data := chunk.data.getD []
  chunk.op :: Bytes.fixedLE (Push.lengthWidth chunk.op) data.length ++ data

/-- How many bytes a chunk takes. -/
def size (chunk : Chunk) : Nat :=
  1 + Push.lengthWidth chunk.op + (chunk.data.getD []).length

/-- The chunk in front of a script, and what follows it. There is none if the
    script is empty or starts with a truncated push. -/
def first? : Bytes → Option (Chunk × Bytes)
  | [] => none
  | op :: rest =>
    if Opcode.isPush op then
      match Push.payload? op rest with
      | some (data, rest) => some (⟨op, some data⟩, rest)
      | none => none
    else some (⟨op, none⟩, rest)

theorem length_of_split? {count : Nat} {bytes taken rest : Bytes}
    (h : Bytes.split? count bytes = some (taken, rest)) : rest.length ≤ bytes.length := by
  simp only [Bytes.split?] at h
  split at h
  · simp at h
  · simp only [Option.some.injEq, Prod.mk.injEq] at h
    rw [← h.2]
    simp

theorem length_of_payload? {op : UInt8} {bytes data rest : Bytes}
    (h : Push.payload? op bytes = some (data, rest)) : rest.length ≤ bytes.length := by
  unfold Push.payload? at h
  split at h
  · exact length_of_split? h
  · split at h
    · next taken =>
      have := length_of_split? taken
      have := length_of_split? h
      omega
    · simp at h

/-- Reading a chunk leaves fewer bytes. -/
theorem length_of_first? {bytes rest : Bytes} {chunk : Chunk}
    (h : first? bytes = some (chunk, rest)) : rest.length < bytes.length := by
  cases bytes with
  | nil => simp [first?] at h
  | cons op tail =>
    simp only [first?] at h
    split at h
    · split at h
      · next found =>
        simp only [Option.some.injEq, Prod.mk.injEq] at h
        have := length_of_payload? found
        simp only [← h.2, List.length_cons]
        omega
      · simp at h
    · simp only [Option.some.injEq, Prod.mk.injEq] at h
      simp [← h.2]

/-- The chunks of what is left of a script, which starts at the given offset. -/
def decodeFrom (offset : Nat) (bytes : Bytes) : Except ScriptError (List Chunk) :=
  if bytes.isEmpty then return []
  else
    match _found : first? bytes with
    | none => throw (.truncatedPush offset)
    | some (chunk, rest) => do
      return chunk :: (← decodeFrom (offset + chunk.size) rest)
termination_by bytes.length
decreasing_by exact length_of_first? _found

/-- The chunks of a script. A truncated push anywhere is an error. -/
def decode (bytes : Bytes) : Except ScriptError (List Chunk) :=
  decodeFrom 0 bytes

/-- The chunks in front of the first truncated push, and the bytes from it on. -/
def split (bytes : Bytes) : List Chunk × Bytes :=
  match _found : first? bytes with
  | none => ([], bytes)
  | some (chunk, rest) =>
    let (chunks, tail) := split rest
    (chunk :: chunks, tail)
termination_by bytes.length
decreasing_by exact length_of_first? _found

end Chunk

end Bitcoin
