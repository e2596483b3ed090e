import Bitcoin.Machine.Program
import Bitcoin.Proofs.Result
import Bitcoin.Proofs.Script.Chunk
import Bitcoin.Script.Build

/-!
# Scripts That Decode

A chunk has a payload if its opcode pushes one, and then of a length that the opcode
announces: by itself, or by a number behind it that has room for the length. Such
chunks are read back from their bytes, whatever stands behind them, and all chunks
that are read are such. So the scripts that decode are the rows of such chunks, which
says at once what becomes of two rows, one behind the other.

Programs are decoded in the same way. An instruction is a chunk that knows its place,
so everything about programs follows from what is known of chunks; in particular a
script has the same program whatever it is for.

## Main definitions

* `Push.Announces`, `Chunk.WellFormed`: The chunks that a script can consist of.
* `Program.place`: Chunks in their places.

## Theorems

* `Chunk.first?_encode_append`, `Chunk.wellFormed_of_first?`: Reading one chunk.
* `Script.chunks_eq_ok`: The scripts that decode.
* `Script.chunks_add`: One script behind another.
* `Program.parse_eq_ok`: Programs are chunks in their places.
* `Push.exists_encode_iff`: The payloads that can be pushed.
* `Program.removePush_place`: Chunks that push something else are not removed.
* `Push.chunks_of_encode`, `Script.chunks_p2sh`: Scripts that decode by their making.
-/

namespace Bitcoin

theorem Bytes.split?_append (taken rest : Bytes) :
    split? taken.length (taken ++ rest) = some (taken, rest) := by
  simp [split?]

namespace Push

theorem lengthWidth_of_direct {op : UInt8} (h : op ≤ Opcode.maxDirect) : lengthWidth op = 0 :=
  lengthWidth_eq_zero fun hc => absurd (UInt8.le_trans hc.1 h) (by decide)

/-- Whether an opcode announces a payload of a given length. -/
def Announces (op : UInt8) (length : Nat) : Prop :=
  if op ≤ Opcode.maxDirect then length = op.toNat else length < 256 ^ lengthWidth op

/-- A payload that is announced is read back from behind its length. -/
theorem payload?_append {op : UInt8} {data : Bytes} (h : Announces op data.length)
    (rest : Bytes) :
    payload? op (Bytes.fixedLE (lengthWidth op) data.length ++ data ++ rest)
      = some (data, rest) := by
  rw [payload?]
  rw [Announces] at h
  by_cases hdirect : op ≤ Opcode.maxDirect
  · rw [if_pos hdirect] at h ⊢
    rw [lengthWidth_of_direct hdirect, ← h]
    exact Bytes.split?_append data rest
  · -- The length is read from its own bytes, and it fits into them.
    rw [if_neg hdirect] at h ⊢
    have hlength := Bytes.split?_append (Bytes.fixedLE (lengthWidth op) data.length) (data ++ rest)
    rw [Bytes.length_fixedLE, ← List.append_assoc] at hlength
    rw [hlength]
    simp only [Bytes.toNatLE_fixedLE, Nat.mod_eq_of_lt h]
    exact Bytes.split?_append data rest

/-- A length takes at most four bytes. -/
theorem lengthWidth_le (op : UInt8) : lengthWidth op ≤ 4 := by
  rw [lengthWidth]
  split
  · decide
  · split
    · decide
    · split
      · decide
      · decide

/-- No opcode announces more than four bytes can count. -/
theorem Announces.lt {op : UInt8} {length : Nat} (h : Announces op length) :
    length < 2 ^ 32 := by
  rw [Announces] at h
  split at h
  · have hop := op.toNat_lt
    omega
  · have hwidth : 256 ^ lengthWidth op ≤ 256 ^ 4 :=
      Nat.pow_le_pow_right (by decide) (lengthWidth_le op)
    omega

/-- The data that are read are as long as the opcode announces. -/
theorem announces_of_payload? {op : UInt8} {bytes data rest : Bytes}
    (h : payload? op bytes = some (data, rest)) : Announces op data.length := by
  rw [payload?] at h
  rw [Announces]
  by_cases hdirect : op ≤ Opcode.maxDirect
  · rw [if_pos hdirect] at h ⊢
    exact (Bytes.split?_eq_some h).1
  · rw [if_neg hdirect] at h ⊢
    -- Behind other opcodes stands the length, and both have to be there.
    rcases hlength : Bytes.split? (lengthWidth op) bytes with _ | ⟨length, behind⟩
    · rw [hlength] at h
      cases h
    · rw [hlength] at h
      have hdata := (Bytes.split?_eq_some h).1
      have hwidth := (Bytes.split?_eq_some hlength).1
      rw [hdata, ← hwidth]
      exact Bytes.toNatLE_lt length

end Push

namespace Chunk

/-- A chunk that a script can consist of: it has a payload if its opcode pushes one, and of
    a length that the opcode announces. -/
def WellFormed (chunk : Chunk) : Prop :=
  match chunk.data with
  | none => Opcode.isPush chunk.op = false
  | some data => Opcode.isPush chunk.op = true ∧ Push.Announces chunk.op data.length

theorem encode_none {op : UInt8} (h : Opcode.isPush op = false) : encode ⟨op, none⟩ = [op] := by
  rw [encode, Push.lengthWidth_of_not_isPush h]
  rfl

/-- A chunk is read back, whatever follows it. -/
theorem first?_encode_append {chunk : Chunk} (h : chunk.WellFormed) (rest : Bytes) :
    first? (chunk.encode ++ rest) = some (chunk, rest) := by
  rcases chunk with ⟨op, _ | data⟩
  · -- An opcode without payload is a single byte.
    have hpush : Opcode.isPush op = false := h
    rw [encode_none hpush, List.singleton_append, first?, hpush]
    rfl
  · rcases h with ⟨hpush, hlength⟩
    rw [encode, Option.getD_some, List.cons_append, List.cons_append, first?, if_pos hpush,
      Push.payload?_append hlength]

/-- An instruction that has been read is well formed. -/
theorem wellFormed_of_first? {chunk : Chunk} {bytes rest : Bytes}
    (h : first? bytes = some (chunk, rest)) : chunk.WellFormed := by
  rcases bytes with _ | ⟨op, behind⟩
  · cases h
  rw [first?] at h
  by_cases hpush : Opcode.isPush op = true
  · rw [if_pos hpush] at h
    rcases hpayload : Push.payload? op behind with _ | ⟨data, after⟩
    · rw [hpayload] at h
      cases h
    · rw [hpayload] at h
      cases h
      exact ⟨hpush, Push.announces_of_payload? hpayload⟩
  · rw [if_neg hpush] at h
    cases h
    exact Bool.eq_false_iff.mpr hpush

-- A script is decoded chunk by chunk, whatever its place.
theorem decodeFrom_of_first? {chunk : Chunk} {bytes rest : Bytes}
    (h : first? bytes = some (chunk, rest)) (offset : Nat) :
    decodeFrom offset bytes = do
      return chunk :: (← decodeFrom (offset + chunk.size) rest) := by
  rw [decodeFrom]
  -- There is a chunk in front, which the other cases deny.
  split
  · next hempty =>
      rw [List.isEmpty_iff.mp hempty] at h
      cases h
  · split
    · next hnone => cases h.symm.trans hnone
    · next hsome =>
        cases h.symm.trans hsome
        rfl

/-- The scripts that decode are the rows of well-formed chunks. -/
theorem decodeFrom_eq_ok {offset : Nat} {bytes : Bytes} {chunks : List Chunk} :
    decodeFrom offset bytes = .ok chunks ↔
      bytes = chunks.flatMap encode ∧ ∀ chunk ∈ chunks, chunk.WellFormed := by
  constructor
  · intro h
    -- One way follows the reading, the other one the instructions that are written.
    fun_induction decodeFrom offset bytes generalizing chunks with
    | case1 offset bytes hempty =>
        cases h
        exact ⟨List.isEmpty_iff.mp hempty, nofun⟩
    | case2 offset bytes hempty hfirst => exact nomatch h
    | case3 offset bytes hempty chunk rest hfirst ih =>
        rcases Result.bind_eq_ok.mp h with ⟨others, hothers, hchunks⟩
        cases hchunks
        rcases ih hothers with ⟨hrest, hformed⟩
        refine ⟨?_, List.forall_mem_cons.mpr ⟨wellFormed_of_first? hfirst, hformed⟩⟩
        rw [List.flatMap_cons, ← hrest, encode_of_first? hfirst]
  · rintro ⟨rfl, hformed⟩
    induction chunks generalizing offset with
    | nil => rw [List.flatMap_nil, decodeFrom]; rfl
    | cons chunk chunks ih =>
        rcases List.forall_mem_cons.mp hformed with ⟨hchunk, hchunks⟩
        have hfirst := first?_encode_append hchunk (chunks.flatMap encode)
        have hrest := @ih (offset + chunk.size) hchunks
        rw [List.flatMap_cons, decodeFrom_of_first? hfirst, hrest]
        rfl

end Chunk

/-- The chunks of a script, written one after the other, are the script. -/
theorem Script.chunks_eq_ok {script : Script} {chunks : List Chunk} :
    script.chunks = .ok chunks ↔
      script.bytes = chunks.flatMap Chunk.encode ∧ ∀ chunk ∈ chunks, chunk.WellFormed :=
  Chunk.decodeFrom_eq_ok

/-- A script is made of pushes if it can be read and no opcode is above the last small number. -/
theorem Script.isPushOnly_iff {script : Script} :
    script.isPushOnly = true ↔
      ∃ chunks, script.chunks = .ok chunks ∧ ∀ chunk ∈ chunks, chunk.op ≤ Opcode.sixteen := by
  rw [isPushOnly]
  rcases script.chunks with fault | chunks
  · exact ⟨nofun, fun ⟨_, h, _⟩ => nomatch h⟩
  · simp

/-- Chunks that are appended are decoded along with the others. -/
theorem Script.chunks_add {script : Script} {chunks : List Chunk} {bytes : Bytes}
    {added : List Chunk} (h : script.chunks = .ok chunks)
    (hadded : Script.chunks ⟨bytes⟩ = .ok added) :
    (script.add bytes).chunks = .ok (chunks ++ added) := by
  rcases chunks_eq_ok.mp h with ⟨hbytes, hformed⟩
  rcases chunks_eq_ok.mp hadded with ⟨hbytes', hformed'⟩
  refine chunks_eq_ok.mpr ⟨?_, List.forall_mem_append.mpr ⟨hformed, hformed'⟩⟩
  rw [add, hbytes, List.flatMap_append, ← hbytes']

namespace Program

/-- The instructions of some chunks, of which the first one has the given offset. -/
def place (offset : Nat) : List Chunk → Program
  | [] => []
  | chunk :: chunks =>
    ⟨chunk.op, chunk.data.getD [], offset⟩ :: place (offset + chunk.size) chunks

/-- The offsets of a second part go on behind the first. -/
theorem place_append (offset : Nat) (chunks added : List Chunk) :
    place offset (chunks ++ added) =
      place offset chunks ++ place (offset + (chunks.map Chunk.size).sum) added := by
  induction chunks generalizing offset with
  | nil => rfl
  | cons chunk chunks ih =>
      rw [List.cons_append, place, ih, place, List.map_cons, List.sum_cons, Nat.add_assoc]
      rfl

-- An instruction of a program stems from a chunk.
theorem exists_chunk_of_mem_place {offset : Nat} {chunks : List Chunk} {instruction : Instruction}
    (h : instruction ∈ place offset chunks) : ∃ chunk ∈ chunks, instruction.op = chunk.op ∧
      instruction.data = chunk.data.getD [] := by
  induction chunks generalizing offset with
  | nil => exact nomatch h
  | cons chunk chunks ih =>
      rcases List.mem_cons.mp h with rfl | h
      · exact ⟨chunk, List.mem_cons_self, rfl, rfl⟩
      · rcases ih h with ⟨found, hfound, hsame⟩
        exact ⟨found, List.mem_cons_of_mem chunk hfound, hsame⟩

/-- A program begins with the instruction that is read first. -/
theorem parseFrom_of_first? {role : Role} {chunk : Chunk} {bytes rest : Bytes}
    (h : Chunk.first? bytes = some (chunk, rest)) (offset : Nat) :
    parseFrom role offset bytes = do
      return ⟨chunk.op, chunk.data.getD [], offset⟩ ::
        (← parseFrom role (offset + chunk.size) rest) := by
  rw [parseFrom]
  split
  · next hempty =>
      rw [List.isEmpty_iff.mp hempty] at h
      cases h
  · split
    · next hnone => cases h.symm.trans hnone
    · next hsome =>
        cases h.symm.trans hsome
        rfl

/-- The instructions of a script are its chunks, each in its place, whatever the script is
    for. -/
theorem parseFrom_eq_ok {role : Role} {offset : Nat} {bytes : Bytes} {program : Program} :
    parseFrom role offset bytes = .ok program ↔
      ∃ chunks, Chunk.decodeFrom offset bytes = .ok chunks ∧ place offset chunks = program := by
  constructor
  · intro h
    induction offset, bytes using parseFrom.induct generalizing program with
    | case1 offset bytes hempty =>
        rw [List.isEmpty_iff.mp hempty, parseFrom] at h
        rw [List.isEmpty_iff.mp hempty, Chunk.decodeFrom]
        cases h
        exact ⟨[], rfl, rfl⟩
    | case2 offset bytes hempty hfirst =>
        rw [parseFrom, if_neg hempty] at h
        split at h
        · exact nomatch h
        · next hsome => exact nomatch hfirst.symm.trans hsome
    | case3 offset bytes hempty chunk rest hfirst ih =>
        rw [parseFrom_of_first? hfirst] at h
        rcases Result.bind_eq_ok.mp h with ⟨others, hothers, hprogram⟩
        cases hprogram
        rcases ih hothers with ⟨chunks, hchunks, hplace⟩
        refine ⟨chunk :: chunks, ?_, ?_⟩
        · rw [Chunk.decodeFrom_of_first? hfirst, hchunks]
          rfl
        · rw [place, hplace]
  · rintro ⟨chunks, hchunks, rfl⟩
    -- The chunks are read back one after the other, as they are when they are decoded.
    rcases Chunk.decodeFrom_eq_ok.mp hchunks with ⟨rfl, hformed⟩
    clear hchunks
    induction chunks generalizing offset with
    | nil =>
        rw [List.flatMap_nil, parseFrom]
        rfl
    | cons chunk chunks ih =>
        rcases List.forall_mem_cons.mp hformed with ⟨hchunk, hchunks⟩
        have hfirst := Chunk.first?_encode_append hchunk (chunks.flatMap Chunk.encode)
        have hrest := @ih (offset + chunk.size) hchunks
        rw [List.flatMap_cons, parseFrom_of_first? hfirst, hrest]
        rfl

theorem parse_eq_ok {role : Role} {script : Script} {program : Program} :
    parse role script = .ok program ↔
      ∃ chunks, script.chunks = .ok chunks ∧ place 0 chunks = program :=
  parseFrom_eq_ok

end Program

namespace Push

/-- A header is an opcode that announces the length, and the length where it has its own
    bytes. -/
theorem header_eq_ok {length : Nat} {bytes : Bytes} (h : header length = .ok bytes) :
    ∃ op, op ≤ Opcode.pushData4 ∧ Announces op length ∧
      bytes = op :: Bytes.fixedLE (lengthWidth op) length := by
  rw [header] at h
  split at h
  · -- Up to 75 the opcode is the length.
    next hdirect =>
      cases h
      have hsmall : length < 256 := Nat.lt_of_le_of_lt hdirect (by decide)
      have hop : (UInt8.ofNat length).toNat = length := by
        rw [UInt8.toNat_ofNat', Nat.mod_eq_of_lt hsmall]
      have hle : UInt8.ofNat length ≤ Opcode.maxDirect := by
        rw [UInt8.le_iff_toNat_le, hop]
        exact hdirect
      refine ⟨UInt8.ofNat length, UInt8.le_trans hle (by decide), ?_, ?_⟩
      · rw [Announces, if_pos hle, hop]
      · rw [lengthWidth_of_direct hle]
        rfl
  · split at h
    · -- Above that the length takes one, two or four bytes, and the bound of the branch makes it
      -- fit.
      next hone =>
        cases h
        refine ⟨Opcode.pushData1, by decide, ?_, rfl⟩
        rw [Announces, if_neg (by decide)]
        exact Nat.lt_of_le_of_lt hone (by decide)
    · split at h
      · next htwo =>
          cases h
          refine ⟨Opcode.pushData2, by decide, ?_, rfl⟩
          rw [Announces, if_neg (by decide)]
          exact Nat.lt_of_le_of_lt htwo (by decide)
      · split at h
        · next hfour =>
            cases h
            refine ⟨Opcode.pushData4, by decide, ?_, rfl⟩
            rw [Announces, if_neg (by decide)]
            exact Nat.lt_of_le_of_lt hfour (by decide)
        · exact nomatch h

/-- A payload with its header is one chunk. -/
theorem chunks_of_encode {data bytes : Bytes} (h : encode data = .ok bytes) :
    ∃ op, op ≤ Opcode.pushData4 ∧ Script.chunks ⟨bytes⟩ = .ok [⟨op, some data⟩] := by
  rcases Result.bind_eq_ok.mp h with ⟨front, hheader, hbytes⟩
  cases hbytes
  rcases header_eq_ok hheader with ⟨op, hop, hannounces, rfl⟩
  have hformed : Chunk.WellFormed ⟨op, some data⟩ := ⟨decide_eq_true hop, hannounces⟩
  refine ⟨op, hop, Script.chunks_eq_ok.mpr ⟨?_, List.forall_mem_singleton.mpr hformed⟩⟩
  simp [Chunk.encode]

/-- There is a header for every length that four bytes can hold. -/
theorem exists_encode {data : Bytes} (h : data.length ≤ 0xffffffff) :
    ∃ bytes, encode data = .ok bytes := by
  have hheader : ∃ front, header data.length = .ok front := by
    rw [header]
    split
    · exact ⟨_, rfl⟩
    · split
      · exact ⟨_, rfl⟩
      · split
        · exact ⟨_, rfl⟩
        · exact ⟨_, rfl⟩
  rcases hheader with ⟨front, hfront⟩
  refine ⟨front ++ data, ?_⟩
  rw [encode, hfront]
  rfl

theorem exists_encode_iff {data : Bytes} :
    (∃ bytes, encode data = .ok bytes) ↔ data.length < 2 ^ 32 := by
  constructor
  · rintro ⟨bytes, h⟩
    rcases Result.bind_eq_ok.mp h with ⟨front, hheader, -⟩
    rcases header_eq_ok hheader with ⟨op, -, hannounces, -⟩
    exact hannounces.lt
  · intro h
    exact exists_encode (by omega)

end Push

namespace Program

/-- Written back, instructions are the bytes of their chunks. -/
theorem unparse_place (offset : Nat) (chunks : List Chunk) :
    (place offset chunks).unparse = ⟨chunks.flatMap Chunk.encode⟩ := by
  rw [unparse]
  refine congrArg Script.mk ?_
  induction chunks generalizing offset with
  | nil => rfl
  | cons chunk chunks ih =>
      rw [place, List.flatMap_cons, List.flatMap_cons, ih]
      rfl

/-- Nothing is removed from a script that pushes something else. -/
theorem removePush_place {chunks : List Chunk} {data : Bytes}
    (hformed : ∀ chunk ∈ chunks, chunk.WellFormed)
    (hdata : ∀ chunk ∈ chunks, chunk.data ≠ some data) (offset : Nat) : (place offset chunks).removePush data = place offset chunks := by
  rw [removePush.eq_def]
  rcases hencode : Push.encode data with fault | pattern
  · rfl
  refine List.filter_eq_self.mpr fun instruction hmem => decide_eq_true fun hsame => ?_
  rcases exists_chunk_of_mem_place hmem with ⟨chunk, hchunk, hop, hpayload⟩
  -- The same bytes are the same chunk, and so they push the same.
  have hbytes : chunk.encode = pattern := by
    rw [← hsame, Instruction.encode, hop, hpayload]
    rfl
  rcases Push.chunks_of_encode hencode with ⟨op, -, hpush⟩
  have hsingle : Script.chunks ⟨pattern⟩ = .ok [chunk] :=
    Script.chunks_eq_ok.mpr ⟨by simp [hbytes], List.forall_mem_singleton.mpr (hformed chunk hchunk)⟩
  cases hpush.symm.trans hsingle
  exact hdata _ hchunk rfl

end Program

/-- A payload of twenty bytes is pushed by the opcode of that number. -/
theorem Chunk.wellFormed_hash (hash : Hash160) : WellFormed ⟨0x14, some hash.bytes⟩ := by
  have hdirect : (0x14 : UInt8) ≤ Opcode.maxDirect := by decide
  refine ⟨rfl, ?_⟩
  rw [Push.Announces, if_pos hdirect]
  exact hash.length_bytes

namespace Script

/-- A push behind a script of pushes leaves it one. -/
theorem isPushOnly_add_push {script : Script} {data push : Bytes} (h : script.isPushOnly = true)
    (hencode : Push.encode data = .ok push) : (script.add push).isPushOnly = true := by
  rcases isPushOnly_iff.mp h with ⟨chunks, hchunks, hops⟩
  rcases Push.chunks_of_encode hencode with ⟨op, hop, hpush⟩
  have hop' : op ≤ Opcode.sixteen := UInt8.le_trans hop (by decide)
  exact isPushOnly_iff.mpr ⟨_, chunks_add hchunks hpush,
    List.forall_mem_append.mpr ⟨hops, List.forall_mem_singleton.mpr hop'⟩⟩

/-- The chunks of a payment to the hash of a script. -/
theorem chunks_p2sh (hash : Hash160) :
    (p2sh hash).chunks = .ok [⟨0xa9, none⟩, ⟨0x14, some hash.bytes⟩, ⟨0x87, none⟩] := by
  refine chunks_eq_ok.mpr ⟨?_, ?_⟩
  · simp [p2sh, Chunk.encode, Push.lengthWidth, Bytes.fixedLE, Opcode.pushData1,
      Opcode.pushData2, Opcode.pushData4]
  · exact List.forall_mem_cons.mpr ⟨rfl, List.forall_mem_cons.mpr
      ⟨Chunk.wellFormed_hash hash, List.forall_mem_singleton.mpr rfl⟩⟩

theorem length_p2sh (hash : Hash160) : (p2sh hash).length = 23 := by
  simp [p2sh, length, hash.length_bytes]

/-- A payment to the hash of a script is known as one. -/
theorem isP2SH_p2sh (hash : Hash160) : (p2sh hash).isP2SH = true := by
  have hfront : (p2sh hash).bytes.take 2 = [0xa9, 0x14] := by
    simp [p2sh]
  have hback : (p2sh hash).bytes.drop 22 = [0x87] := by
    simp [p2sh, hash.length_bytes]
  have hbytes : ((p2sh hash).bytes.drop 2).take 20 = hash.bytes := by
    simp [p2sh, hash.length_bytes]
  rw [isP2SH, scriptHash?, if_pos ⟨hfront, hback⟩, hbytes, ByteVec.ofBytes?,
    dif_pos hash.length_bytes]
  rfl

end Script

end Bitcoin
