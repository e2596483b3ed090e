import Bitcoin.Proofs.Script.Decoding
import Bitcoin.Script.Assembly

/-!
# All Ways Through a Script Agree

A script is gone through for several ends: its chunks are wanted, or the instructions of
a program, or words to be read. Each time chunks are taken off its front until nothing is
left or a push announces more bytes than there are. There is only one way to cut a script
like that, so wherever one walk stands after a number of chunks, so do the others, and what
stops one of them stops all.

Everything rests on one fact: chunks that a script can consist of are split off again,
whatever stands behind them. So the chunks of a script that decodes do not change when
bytes are appended to it, and those of the appended bytes follow in their places.

## Main definitions

* `Push.Overruns`: A push that runs past the end of a script.
* `Script.Splits`: A script cut into chunks up to such a push.
* `Instruction.shift`: An instruction in a place further on.

## Theorems

* `Chunk.first?_eq_none_iff`: Where no chunk can be taken off.
* `Chunk.split_append`, `Script.splits_iff`, `Script.Splits.unique_iff`: The only way to cut a
  script.
* `Chunk.decodeFrom_eq`, `Program.parseFrom_eq`: Two walks, with the place of what stops them.
* `Program.offset_of_place`: Where an instruction stands.
* `Program.parse_add`: One script behind another.
* `Script.walks_agree`: The three walks.
-/

namespace Bitcoin

/-- A push opcode that, by itself or by the number behind it, announces more bytes than
    there are. -/
def Push.Overruns (op : UInt8) (rest : Bytes) : Prop :=
  Opcode.isPush op = true ∧ rest.length <
    if op ≤ Opcode.maxDirect then op.toNat
    else lengthWidth op + Bytes.toNatLE (rest.take (lengthWidth op))

/-- A script cut into chunks. The bytes behind them, if there are any, start with a push
    that runs past the end. -/
structure Script.Splits (script : Script) (chunks : List Chunk) (tail : Bytes) : Prop where
  bytes : script.bytes = chunks.flatMap Chunk.encode ++ tail
  formed : ∀ chunk ∈ chunks, chunk.WellFormed
  ends : tail = [] ∨ ∃ op rest, tail = op :: rest ∧ Push.Overruns op rest

/-- The same instruction so many bytes further on. -/
def Instruction.shift (distance : Nat) (instruction : Instruction) : Instruction :=
  { instruction with offset := instruction.offset + distance }

/-- A split fails exactly where there are too few bytes. -/
theorem Bytes.split?_eq_none_iff {count : Nat} {bytes : Bytes} :
    split? count bytes = none ↔ bytes.length < count := by
  rw [split?]
  simp only [List.length_take]
  by_cases h : bytes.length < count
  · rw [if_pos (by omega)]
    exact ⟨fun _ => h, fun _ => rfl⟩
  · rw [if_neg (by omega)]
    simp only [reduceCtorEq, h]

/-- There is no payload to be read where fewer bytes follow than are announced, the number
    that announces them included. -/
theorem Push.payload?_eq_none_iff {op : UInt8} {rest : Bytes} :
    payload? op rest = none ↔ rest.length <
      if op ≤ Opcode.maxDirect then op.toNat
      else lengthWidth op + Bytes.toNatLE (rest.take (lengthWidth op)) := by
  rw [payload?]
  by_cases hdirect : op ≤ Opcode.maxDirect
  · rw [if_pos hdirect, if_pos hdirect]
    exact Bytes.split?_eq_none_iff
  · rw [if_neg hdirect, if_neg hdirect]
    rcases hlength : Bytes.split? (lengthWidth op) rest with _ | ⟨length, behind⟩
    · -- Not even the length is there, and what has been cut off of it is at least that short.
      have hshort := Bytes.split?_eq_none_iff.mp hlength
      exact ⟨fun _ => by omega, fun _ => rfl⟩
    · rcases Bytes.split?_eq_some hlength with ⟨hwidth, rfl⟩
      simp only [Bytes.split?_eq_none_iff, ← hwidth, List.take_left, List.length_append]
      omega

namespace Chunk

variable {bytes : Bytes}

/-- No chunk can be taken off the front of nothing, nor of a push that runs past the
    end. -/
theorem first?_eq_none_iff :
    first? bytes = none ↔ bytes = [] ∨ ∃ op rest, bytes = op :: rest ∧ Push.Overruns op rest := by
  rcases bytes with _ | ⟨op, rest⟩
  · exact ⟨fun _ => .inl rfl, fun _ => rfl⟩
  · -- rest = [] ∨ ∃ op' rest', op
    have hhead : (op :: rest = [] ∨ ∃ op' rest', op :: rest = op' :: rest' ∧
        Push.Overruns op' rest') ↔ Push.Overruns op rest := by
      simp
    rw [hhead, Push.Overruns, ← Push.payload?_eq_none_iff, first?]
    by_cases hpush : Opcode.isPush op = true
    · rw [if_pos hpush, and_iff_right hpush]
      rcases Push.payload? op rest with _ | found
      · exact ⟨fun _ => rfl, fun _ => rfl⟩
      · simp only [reduceCtorEq]
    · rw [if_neg hpush]
      simp only [reduceCtorEq, hpush, false_and]

/-- The split begins with the instruction that is read first. -/
theorem split_of_first? {chunk : Chunk} {rest : Bytes} (h : first? bytes = some (chunk, rest)) :
    split bytes = (chunk :: (split rest).1, (split rest).2) := by
  rw [split]
  split
  · next hnone => cases h.symm.trans hnone
  · next hsome =>
      cases h.symm.trans hsome
      rfl

/-- Where no instruction can be read the split is at its end. -/
theorem split_of_none (h : first? bytes = none) : split bytes = ([], bytes) := by
  rw [split]
  split
  · rfl
  · next hsome => cases h.symm.trans hsome

/-- Chunks that a script can consist of are split off, whatever stands behind them. -/
theorem split_append {chunks : List Chunk} (h : ∀ chunk ∈ chunks, chunk.WellFormed)
    (rest : Bytes) :
    split (chunks.flatMap encode ++ rest) = (chunks ++ (split rest).1, (split rest).2) := by
  induction chunks with
  | nil => rfl
  | cons chunk chunks ih =>
      rcases List.forall_mem_cons.mp h with ⟨hchunk, hchunks⟩
      have hfirst := first?_encode_append hchunk (chunks.flatMap encode ++ rest)
      rw [List.flatMap_cons, List.append_assoc, split_of_first? hfirst, ih hchunks]
      rfl

/-- Every instruction of the split is well formed. -/
theorem wellFormed_of_split : ∀ chunk ∈ (split bytes).1, chunk.WellFormed := by
  fun_induction split bytes with
  | case1 bytes hfirst => exact fun _ hmem => absurd hmem List.not_mem_nil
  | case2 bytes chunk rest hfirst chunks tail hsplit ih =>
      rw [hsplit] at ih
      exact List.forall_mem_cons.mpr ⟨wellFormed_of_first? hfirst, ih⟩

/-- Nothing can be read from the tail. -/
theorem first?_tail (bytes : Bytes) : first? (split bytes).2 = none := by
  fun_induction split bytes with
  | case1 bytes hfirst => exact hfirst
  | case2 bytes chunk rest hfirst chunks tail hsplit ih =>
      rw [hsplit] at ih
      exact ih

-- Each chunk takes a byte at least.
theorem length_le_flatMap (chunks : List Chunk) :
    chunks.length ≤ (chunks.flatMap encode).length := by
  induction chunks with
  | nil => exact Nat.le_refl 0
  | cons chunk chunks ih =>
      rw [List.flatMap_cons, List.length_append, chunk.length_encode, List.length_cons, size]
      omega

/-- The chunks of a script, or the place of the push that runs past the end. -/
theorem decodeFrom_eq (offset : Nat) (bytes : Bytes) :
    decodeFrom offset bytes =
      if (split bytes).2 = [] then .ok (split bytes).1
      else .error (.truncatedPush (offset + ((split bytes).1.flatMap encode).length)) := by
  induction bytes using split.induct generalizing offset with
  | case1 bytes hfirst =>
      rw [split_of_none hfirst, decodeFrom]
      -- The walk ends at the end of the bytes, or at a push that runs over it.
      by_cases hempty : bytes = []
      · rw [if_pos hempty, if_pos (List.isEmpty_iff.mpr hempty)]
        rfl
      · rw [if_neg hempty, if_neg (mt List.isEmpty_iff.mp hempty)]
        split
        · rfl
        · next hsome => cases hfirst.symm.trans hsome
  | case2 bytes chunk rest hfirst _ _ _ ih =>
      -- The offset at which the rest fails counts from the start.
      have hsize : offset + chunk.size + ((split rest).1.flatMap encode).length
          = offset + ((chunk :: (split rest).1).flatMap encode).length := by
        rw [List.flatMap_cons, List.length_append, length_encode, Nat.add_assoc]
      rw [split_of_first? hfirst, decodeFrom_of_first? hfirst, ih, hsize]
      split <;> rfl

end Chunk

/-- There is one way to cut a script. -/
theorem Script.splits_iff {script : Script} {chunks : List Chunk} {tail : Bytes} :
    script.Splits chunks tail ↔ Chunk.split script.bytes = (chunks, tail) := by
  constructor
  · intro h
    have htail := Chunk.split_of_none (Chunk.first?_eq_none_iff.mpr h.ends)
    rw [h.bytes, Chunk.split_append h.formed, htail, List.append_nil]
  · intro h
    have hbytes := Chunk.flatMap_encode_split script.bytes
    have hformed := @Chunk.wellFormed_of_split script.bytes
    have htail := Chunk.first?_tail script.bytes
    rw [h] at hbytes hformed htail
    exact ⟨hbytes.symm, hformed, Chunk.first?_eq_none_iff.mp htail⟩

/-- A script that is cut in one way is cut in no other. -/
theorem Script.Splits.unique_iff {script : Script} {chunks chunks' : List Chunk}
    {tail tail' : Bytes} (h : script.Splits chunks tail) :
    script.Splits chunks' tail' ↔ chunks' = chunks ∧ tail' = tail := by
  rw [splits_iff, splits_iff.mp h, Prod.mk.injEq]
  exact and_congr eq_comm eq_comm

namespace Program

/-- The instructions of a script, or a failure at the push that runs past the end. -/
theorem parseFrom_eq (role : Role) (offset : Nat) (bytes : Bytes) :
    parseFrom role offset bytes =
      if (Chunk.split bytes).2 = [] then .ok (place offset (Chunk.split bytes).1)
      else .error ((Failure.of .truncatedPush).locate role
        (offset + ((Chunk.split bytes).1.flatMap Chunk.encode).length)) := by
  induction bytes using Chunk.split.induct generalizing offset with
  | case1 bytes hfirst =>
      rw [Chunk.split_of_none hfirst, parseFrom]
      -- The same cases as those of the walk over instructions.
      by_cases hempty : bytes = []
      · rw [if_pos hempty, if_pos (List.isEmpty_iff.mpr hempty)]
        rfl
      · rw [if_neg hempty, if_neg (mt List.isEmpty_iff.mp hempty)]
        split
        · rfl
        · next hsome => cases hfirst.symm.trans hsome
  | case2 bytes chunk rest hfirst _ _ _ ih =>
      have hsize : offset + chunk.size + ((Chunk.split rest).1.flatMap Chunk.encode).length
          = offset + ((chunk :: (Chunk.split rest).1).flatMap Chunk.encode).length := by
        rw [List.flatMap_cons, List.length_append, Chunk.length_encode, Nat.add_assoc]
      rw [Chunk.split_of_first? hfirst, parseFrom_of_first? hfirst, ih, hsize]
      split <;> rfl

/-- What stands before an instruction is as long as its offset says. -/
theorem offset_of_place {offset : Nat} {chunks : List Chunk} {before behind : Program}
    {instruction : Instruction} (h : place offset chunks = before ++ instruction :: behind) :
    instruction.offset = offset + (unparse before).length := by
  induction before generalizing offset chunks with
  | nil =>
      cases chunks with
      | nil => cases h
      | cons chunk chunks =>
          cases (List.cons.inj h).1
          rfl
  | cons first before ih =>
      cases chunks with
      | nil => cases h
      | cons chunk chunks =>
          rcases List.cons.inj h with ⟨rfl, hrest⟩
          -- The bytes in front grow by those of the first instruction, as the offset does.
          have hfirst : (unparse (⟨chunk.op, chunk.data.getD [], offset⟩ :: before)).length
              = chunk.size + (unparse before).length :=
            List.length_append.trans (congrArg (· + _) chunk.length_encode)
          rw [ih hrest, hfirst, Nat.add_assoc]

/-- A program that begins further on is the same program with its offsets shifted. -/
theorem place_shift (offset distance : Nat) (chunks : List Chunk) :
    place (offset + distance) chunks = (place offset chunks).map (Instruction.shift distance) := by
  induction chunks generalizing offset with
  | nil => rfl
  | cons chunk chunks ih =>
      rw [place, place, List.map_cons, Nat.add_right_comm, ih]
      rfl

-- An instruction without payload has an empty one.
theorem map_place (offset : Nat) (chunks : List Chunk) :
    (place offset chunks).map (fun instruction => (instruction.op, instruction.data))
      = chunks.map fun chunk => (chunk.op, chunk.data.getD []) := by
  induction chunks generalizing offset with
  | nil => rfl
  | cons chunk chunks ih =>
      rw [place, List.map_cons, List.map_cons, ih]

end Program

/-- A script can be read if nothing is left behind its instructions. -/
theorem Script.chunks_eq (script : Script) :
    script.chunks =
      if (Chunk.split script.bytes).2 = [] then .ok (Chunk.split script.bytes).1
      else
        .error (.truncatedPush (0 + ((Chunk.split script.bytes).1.flatMap Chunk.encode).length)) :=
  Chunk.decodeFrom_eq 0 script.bytes

/-- Behind the chunks of a script that decodes come those of the bytes that are appended. -/
theorem Script.chunks_add_iff {script : Script} {chunks whole : List Chunk} {more : Bytes}
    (h : script.chunks = .ok chunks) :
    (script.add more).chunks = .ok whole ↔
      ∃ added, Script.chunks ⟨more⟩ = .ok added ∧ whole = chunks ++ added := by
  rcases chunks_eq_ok.mp h with ⟨hbytes, hformed⟩
  have hsplit := Chunk.split_append hformed more
  rw [← hbytes] at hsplit
  rw [chunks_eq, chunks_eq, show (script.add more).bytes = script.bytes ++ more from rfl, hsplit]
  -- The instructions in front stay, so the bytes behind decide whether the whole can be read.
  by_cases htail : (Chunk.split more).2 = []
  · rw [if_pos htail, if_pos htail]
    constructor
    · intro hok
      exact ⟨_, rfl, (Except.ok.inj hok).symm⟩
    · rintro ⟨_, hok, rfl⟩
      rw [Except.ok.inj hok]
  · rw [if_neg htail, if_neg htail]
    exact ⟨nofun, fun ⟨_, hok, _⟩ => nomatch hok⟩

/-- Behind the instructions of a script that decodes come those of the bytes that are
    appended, each of them further on by the length of the script. -/
theorem Program.parse_add {role : Role} {script : Script} {program whole : Program} {more : Bytes}
    (h : parse role script = .ok program) :
    parse role (script.add more) = .ok whole ↔ ∃ second, parse role ⟨more⟩ = .ok second ∧
      whole = program ++ second.map (Instruction.shift script.length) := by
  rcases parse_eq_ok.mp h with ⟨chunks, hchunks, rfl⟩
  have hlength : (chunks.map Chunk.size).sum = script.length := by
    rw [Script.length, (Script.chunks_eq_ok.mp hchunks).1, List.length_flatMap]
    exact congrArg (fun f => (chunks.map f).sum) (funext fun chunk => chunk.length_encode.symm)
  -- The instructions that are added begin where the script has ended.
  have hplace (added : List Chunk) : place 0 (chunks ++ added)
      = place 0 chunks ++ (place 0 added).map (Instruction.shift script.length) := by
    rw [place_append, hlength, place_shift]
  rw [parse_eq_ok]
  constructor
  · rintro ⟨_, hwhole, rfl⟩
    rcases (Script.chunks_add_iff hchunks).mp hwhole with ⟨added, hadded, rfl⟩
    exact ⟨place 0 added, parse_eq_ok.mpr ⟨added, hadded, rfl⟩, hplace added⟩
  · rintro ⟨_, hsecond, rfl⟩
    rcases parse_eq_ok.mp hsecond with ⟨added, hadded, rfl⟩
    exact ⟨chunks ++ added, (Script.chunks_add_iff hchunks).mpr ⟨added, hadded, rfl⟩, hplace added⟩

/-- Whoever goes through a script, for its words, its chunks or its instructions, comes to an
    end and cuts it in the same way, the only one there is. If a push runs past the end, the
    first one that does is named by both who refuse such scripts, and marked by the one who
    does not. If none does, chunks and instructions are the same, the instructions give
    the script back and stand where their offsets say, and what is appended to the script
    is gone through as if it stood alone, with its instructions further on. -/
theorem Script.walks_agree (script : Script) (role : Role) :
    ∃ chunks tail,
      (∀ chunks' tail', script.Splits chunks' tail' ↔ chunks' = chunks ∧ tail' = tail) ∧
      chunks.length ≤ script.length ∧
      script.toAsm
        = " ".intercalate (chunks.map Chunk.word ++ if tail = [] then [] else [undecoded]) ∧
      (tail ≠ [] →
        script.chunks = .error (.truncatedPush (chunks.flatMap Chunk.encode).length) ∧
        Program.parse role script = .error ((Failure.of .truncatedPush).locate role
          (chunks.flatMap Chunk.encode).length)) ∧
      (tail = [] → script.chunks = .ok chunks ∧
        ∃ program, Program.parse role script = .ok program ∧
          program.map (fun instruction => (instruction.op, instruction.data))
            = chunks.map (fun chunk => (chunk.op, chunk.data.getD [])) ∧
          program.unparse = script ∧
          (∀ before instruction behind, program = before ++ instruction :: behind →
            instruction.offset = (Program.unparse before).length) ∧
          ∀ more whole, Program.parse role (script.add more) = .ok whole ↔
            ∃ second, Program.parse role ⟨more⟩ = .ok second ∧
              whole = program ++ second.map (Instruction.shift script.length)) := by
  rcases hsplit : Chunk.split script.bytes with ⟨chunks, tail⟩
  -- All readers are told by the one split into instructions and a tail.
  have hsplits : script.Splits chunks tail := splits_iff.mpr hsplit
  have hchunks := script.chunks_eq
  have hparse := Program.parseFrom_eq role 0 script.bytes
  rw [hsplit, Nat.zero_add] at hchunks hparse
  refine ⟨chunks, tail, fun _ _ => hsplits.unique_iff, ?_, ?_, fun htail => ?_, fun htail => ?_⟩
  · rw [Script.length, hsplits.bytes, List.length_append]
    exact Nat.le_add_right_of_le (Chunk.length_le_flatMap chunks)
  · rw [toAsm, hsplit]
    simp only [List.isEmpty_iff]
  · -- Something is left over, and both readers fail behind the last instruction.
    rw [if_neg htail] at hchunks hparse
    exact ⟨hchunks, hparse⟩
  · -- Nothing is left over, so the program has the instructions of the split.
    rw [if_pos htail] at hchunks hparse
    refine ⟨hchunks, Program.place 0 chunks, hparse, Program.map_place 0 chunks, ?_,
      fun before instruction behind h => ?_, fun more whole => Program.parse_add hparse⟩
    · rw [Program.unparse_place, ← (chunks_eq_ok.mp hchunks).1]
    · rw [Program.offset_of_place h, Nat.zero_add]

end Bitcoin
