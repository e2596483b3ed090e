import Bitcoin.Proofs.Indexed.Access
import Bitcoin.Proofs.Machine.Pushes
import Bitcoin.Proofs.Script.Decoding

/-!
# Scripts Read by Position

A script may be decoded with a position that moves over its bytes, from the opcode at the
position to the next one. The opcode is there since the position is within the script,
and the bytes of a length are there since exactly so many have been cut out.

So no access is out of range, and what is read is what is read when the front of the
script is taken off chunk by chunk.

## Main definitions

* `Indexed.chunkAt?`: The chunk at a position, and the next position.
* `Indexed.walk`: All chunks from a position on.
* `Indexed.isPushOnly?`, `Indexed.isP2SH?`, `Indexed.parse`: What is asked of scripts.

## Theorems

* `Indexed.chunkAt?_eq`: One chunk.
* `Indexed.agrees_walk`: All chunks, whatever is made of them.
* `Indexed.isPushOnly?_eq`, `Indexed.isP2SH?_eq`, `Indexed.agrees_parse`: The answers.
-/

namespace Bitcoin.Indexed

open Access

/-- Where the payload of a push starts and how long it is, if that much of the script is
    there. -/
def lengthAt? (bytes : Bytes) (op : UInt8) (pos : Nat) : Option (Option (Nat × Nat)) :=
  if op ≤ Opcode.maxDirect then return some (pos + 1, op.toNat)
  else if op = Opcode.pushData1 then
    return (bytes[pos + 1]?).map fun length => (pos + 2, length.toNat)
  else if op = Opcode.pushData2 then
    match slice? bytes (pos + 1) (pos + 3) with
    | none => return none
    | some length => do
      -- So many bytes have been cut out as are looked up here.
      return some (pos + 3, Bytes.toNatLE [← length[0]?, ← length[1]?])
  else
    match slice? bytes (pos + 1) (pos + 5) with
    | none => return none
    | some length => do
      return some (pos + 5,
        Bytes.toNatLE [← length[0]?, ← length[1]?, ← length[2]?, ← length[3]?])

/-- The chunk at a position and the position behind it, unless it is a truncated push. -/
def chunkAt? (bytes : Bytes) (pos : Nat) : Option (Option (Chunk × Nat)) := do
  let op ← bytes[pos]?
  if op = Opcode.zero then return some (⟨op, some []⟩, pos + 1)
  else if ¬Opcode.isPush op then return some (⟨op, none⟩, pos + 1)
  else
    match ← lengthAt? bytes op pos with
    | none => return none
    | some (start, length) =>
      return (slice? bytes start (start + length)).map fun data =>
        (⟨op, some data⟩, start + length)

/-- What is cut out at a position is what is split off the rest from there. -/
theorem slice?_eq {bytes : Bytes} {start : Nat} (h : start ≤ bytes.length) (count : Nat) :
    slice? bytes start (start + count) = (Bytes.split? count (bytes.drop start)).map (·.1) := by
  rw [slice?, Bytes.split?]
  simp only [List.length_take, List.length_drop, Nat.add_sub_cancel_left]
  by_cases hcount : start + count ≤ bytes.length
  · rw [if_pos ⟨Nat.le_add_right _ _, hcount⟩, if_neg (by omega)]
    rfl
  · rw [if_neg (fun hc => hcount hc.2), if_pos (by omega)]
    rfl

/-- A direct push has its length in its opcode. -/
theorem lengthAt?_of_direct {op : UInt8} (h : op ≤ Opcode.maxDirect) (bytes : Bytes) (pos : Nat) :
    lengthAt? bytes op pos = some (some (pos + 1, op.toNat)) := by
  rw [lengthAt?, if_pos h]
  rfl

/-- There are three opcodes with a length behind them. -/
theorem eq_of_announced {op : UInt8} (hdirect : ¬op ≤ Opcode.maxDirect)
    (hpush : Opcode.isPush op = true) :
    op = Opcode.pushData1 ∨ op = Opcode.pushData2 ∨ op = Opcode.pushData4 := by
  refine Opcode.of_le (p := fun op => ¬op ≤ Opcode.maxDirect →
    op = Opcode.pushData1 ∨ op = Opcode.pushData2 ∨ op = Opcode.pushData4)
    (of_decide_eq_true hpush) ?_ hdirect
  decide +kernel

-- The bytes of the length have been cut out, so there are as many as are asked for.
theorem lengthAt?_of_announced {bytes : Bytes} {op : UInt8} {pos : Nat} (hpos : pos < bytes.length)
    (hdirect : ¬op ≤ Opcode.maxDirect) (hpush : Opcode.isPush op = true) :
    lengthAt? bytes op pos =
      some ((Bytes.split? (Push.lengthWidth op) (bytes.drop (pos + 1))).map fun found =>
        (pos + 1 + Push.lengthWidth op, Bytes.toNatLE found.1)) := by
  have hslice := slice?_eq (Nat.succ_le_of_lt hpos)
  rw [lengthAt?, if_neg hdirect]
  -- One byte is looked up, and two or four are cut out and read.
  rcases eq_of_announced hdirect hpush with rfl | rfl | rfl
  · rw [if_pos rfl]
    change some (Option.map _ bytes[pos + 1]?) = some ((Bytes.split? 1 _).map _)
    rw [Bytes.split?]
    rcases hrest : bytes.drop (pos + 1) with _ | ⟨byte, rest⟩
    · -- The script ends with the opcode.
      rw [List.getElem?_eq_none (List.drop_eq_nil_iff.mp hrest)]
      rfl
    · have hbyte : bytes[pos + 1]? = some byte := by
        rw [← Nat.add_zero (pos + 1), ← List.getElem?_drop, hrest]
        rfl
      rw [hbyte]
      simp [Bytes.toNatLE, Push.lengthWidth]
  · rw [if_neg (by decide), if_pos rfl, hslice 2]
    change _ = some ((Bytes.split? 2 _).map _)
    rcases hsplit : Bytes.split? 2 (bytes.drop (pos + 1)) with _ | ⟨length, rest⟩
    · rfl
    · rcases length with _ | ⟨a, _ | ⟨b, _ | _⟩⟩
      all_goals cases (Bytes.split?_eq_some hsplit).1
      rfl
  · rw [if_neg (by decide), if_neg (by decide), hslice 4]
    change _ = some ((Bytes.split? 4 _).map _)
    rcases hsplit : Bytes.split? 4 (bytes.drop (pos + 1)) with _ | ⟨length, rest⟩
    · rfl
    · rcases length with _ | ⟨a, _ | ⟨b, _ | ⟨c, _ | ⟨d, _ | _⟩⟩⟩⟩
      all_goals cases (Bytes.split?_eq_some hsplit).1
      rfl

/-- What follows a chunk is what stands behind its bytes. -/
theorem drop_of_first? {bytes rest : Bytes} {pos : Nat} {chunk : Chunk}
    (h : Chunk.first? (bytes.drop pos) = some (chunk, rest)) :
    rest = bytes.drop (pos + chunk.size) := by
  have hencode := Chunk.encode_of_first? h
  rw [← List.drop_drop, ← hencode, List.drop_left' chunk.length_encode]

/-- The chunk at a position is the one in front of what stands there. -/
theorem chunkAt?_eq {bytes : Bytes} {pos : Nat} (h : pos < bytes.length) :
    chunkAt? bytes pos = some ((Chunk.first? (bytes.drop pos)).map fun found =>
      (found.1, pos + found.1.size)) := by
  have hop : bytes[pos]? = some bytes[pos] := List.getElem?_eq_getElem h
  rw [chunkAt?, hop, Option.bind_eq_bind, Option.bind_some, List.drop_eq_getElem_cons h,
    Chunk.first?]
  generalize bytes[pos] = op
  -- The empty push has an opcode of its own, which is tried first and announces nothing.
  by_cases hzero : op = Opcode.zero
  · subst hzero
    rw [if_pos rfl, if_pos (by decide)]
    rfl
  rw [if_neg hzero]
  by_cases hpush : Opcode.isPush op = true
  · rw [if_neg (not_not.mpr hpush), if_pos hpush, Push.payload?]
    by_cases hdirect : op ≤ Opcode.maxDirect
    · -- The opcode is the length, so one slice decides whether the push is whole.
      rw [lengthAt?_of_direct hdirect, if_pos hdirect]
      simp only [Option.bind_eq_bind, Option.bind_some]
      rw [slice?_eq (Nat.succ_le_of_lt h)]
      rcases hsplit : Bytes.split? op.toNat (bytes.drop (pos + 1)) with _ | ⟨data, rest⟩
      · rfl
      · have hlength := (Bytes.split?_eq_some hsplit).1
        simp [Chunk.size, Push.lengthWidth_of_direct hdirect, hlength, Nat.add_assoc]
    · rw [lengthAt?_of_announced h hdirect hpush, if_neg hdirect]
      rcases hsplit : Bytes.split? (Push.lengthWidth op) (bytes.drop (pos + 1))
        with _ | ⟨length, behind⟩
      · rfl
      · -- The payload stands behind the length, so it starts where the length ends.
        rcases Bytes.split?_eq_some hsplit with ⟨hwidth, hbytes⟩
        have hbehind : behind = bytes.drop (pos + 1 + Push.lengthWidth op) := by
          rw [← List.drop_drop, ← hbytes, List.drop_left' hwidth]
        have hstart : pos + 1 + Push.lengthWidth op ≤ bytes.length := by
          have htotal := congrArg List.length hbytes
          rw [List.length_append, List.length_drop] at htotal
          omega
        simp only [Option.bind_eq_bind, Option.bind_some, Option.map_some]
        rw [slice?_eq hstart, ← hbehind]
        rcases hdata : Bytes.split? (Bytes.toNatLE length) behind with _ | ⟨data, rest⟩
        · rfl
        · have hlength := (Bytes.split?_eq_some hdata).1
          simp [Chunk.size, hlength, Nat.add_assoc]
  · -- Any other opcode is an instruction alone.
    have hwidth := Push.lengthWidth_of_not_isPush (Bool.eq_false_iff.mpr hpush)
    rw [if_pos hpush, if_neg hpush]
    simp [Chunk.size, hwidth]

/-- A chunk has at least its opcode, so the next one starts further on. -/
theorem lt_of_chunkAt? {bytes : Bytes} {pos next : Nat} {chunk : Chunk} (hpos : pos < bytes.length)
    (h : chunkAt? bytes pos = some (some (chunk, next))) : pos < next := by
  rw [chunkAt?_eq hpos] at h
  rcases hfirst : Chunk.first? (bytes.drop pos) with _ | ⟨found, rest⟩
  · rw [hfirst] at h
    cases h
  · rw [hfirst] at h
    cases h
    rw [Chunk.size]
    omega

/-- What is made of the chunks from a position on, each with its own position. -/
def walk {ε α : Type} (truncated : Nat → ε) (item? : Nat → Chunk → Option α) (bytes : Bytes)
    (pos : Nat) : Except (Stop ε) (List α) :=
  if _hpos : pos < bytes.length then
    match _hfound : chunkAt? bytes pos with
    | none => throw .outOfRange
    | some none => throw (.fault (truncated pos))
    | some (some (chunk, next)) => do
      let first ← need (item? pos chunk)
      return first :: (← walk truncated item? bytes next)
  else return []
termination_by bytes.length - pos
decreasing_by
  have := lt_of_chunkAt? _hpos _hfound
  omega

/-- It is what is made of them by a decoder that takes off the front of the script chunk by
    chunk and keeps count of the bytes. -/
theorem agrees_walk {ε α : Type} {truncated : Nat → ε} {item? : Nat → Chunk → Option α}
    {item : Nat → Chunk → α} {decode : Nat → Bytes → Except ε (List α)}
    (hitem : ∀ pos chunk, item? pos chunk = some (item pos chunk))
    (hnil : ∀ offset, decode offset [] = .ok [])
    (hnone : ∀ offset bytes, bytes ≠ [] → Chunk.first? bytes = none →
      decode offset bytes = .error (truncated offset))
    (hsome : ∀ offset chunk bytes rest, Chunk.first? bytes = some (chunk, rest) →
      decode offset bytes = do return item offset chunk :: (← decode (offset + chunk.size) rest))
    (bytes : Bytes) (pos : Nat) :
    Agrees (walk truncated item? bytes pos) (decode pos (bytes.drop pos)) := by
  -- The number of bytes that are left sinks with every chunk.
  induction hleft : bytes.length - pos using Nat.strong_induction_on generalizing pos with
  | h left ih =>
      rw [walk]
      by_cases hpos : pos < bytes.length
      · rw [dif_pos hpos]
        have hne : bytes.drop pos ≠ [] := by
          rw [Ne, List.drop_eq_nil_iff]
          omega
        have hchunk := chunkAt?_eq hpos
        split
        · next hfound => cases hfound.symm.trans hchunk
        · next hfound =>
            have hfirst : Chunk.first? (bytes.drop pos) = none := by
              rcases hfirst : Chunk.first? (bytes.drop pos) with _ | found
              · rfl
              · rw [hfirst] at hchunk
                cases hfound.symm.trans hchunk
            rw [hnone pos _ hne hfirst]
            rfl
        · next chunk next hfound =>
            rcases hfirst : Chunk.first? (bytes.drop pos) with _ | ⟨found, rest⟩
            · rw [hfirst] at hchunk
              cases hfound.symm.trans hchunk
            · rw [hfirst] at hchunk
              cases hfound.symm.trans hchunk
              have hrest := drop_of_first? hfirst
              have hlt : pos < pos + found.size := lt_of_chunkAt? hpos hfound
              have hless : bytes.length - (pos + found.size) < left := by omega
              rw [hsome _ _ _ _ hfirst, hrest]
              exact .need (hitem pos found) (.bind (ih _ hless _ rfl) fun _ => .pure _)
      · rw [dif_neg hpos, List.drop_eq_nil_iff.mpr (Nat.le_of_not_lt hpos), hnil]
        rfl

/-- Whether a script does nothing but push. -/
def isPushOnly? (bytes : Bytes) : Option Bool :=
  match walk ScriptError.truncatedPush (fun _ chunk => some chunk) bytes 0 with
  | .ok chunks => some (chunks.all (·.op ≤ Opcode.sixteen))
  | .error (.fault _) => some false
  | .error .outOfRange => none

/-- No position outside the script is looked at for what kinds of instructions it has. -/
theorem isPushOnly?_eq (script : Script) : isPushOnly? script.bytes = some script.isPushOnly := by
  -- The walk over positions is the decoding, chunk by chunk.
  have hwalk : Agrees (walk ScriptError.truncatedPush (fun _ chunk => some chunk) script.bytes 0)
      (Chunk.decodeFrom 0 script.bytes) := by
    refine agrees_walk (fun _ _ => rfl) (fun offset => ?_) (fun offset bytes hne hfirst => ?_)
      (fun offset chunk bytes rest hfirst => Chunk.decodeFrom_of_first? hfirst offset)
      script.bytes 0
    · rw [Chunk.decodeFrom]
      rfl
    · rw [Chunk.decodeFrom, if_neg (mt List.isEmpty_iff.mp hne)]
      split
      · rfl
      · next hsome => cases hfirst.symm.trans hsome
  rw [isPushOnly?, show walk _ _ _ _ = _ from hwalk, Script.isPushOnly, Script.chunks, Chunk.decode]
  rcases Chunk.decodeFrom 0 script.bytes with fault | chunks
  · rfl
  · rfl

/-- Whether a script pays to the hash of a script. -/
def isP2SH? (bytes : Bytes) : Option Bool := do
  if bytes.length ≠ 23 then return false
  if (← bytes[0]?) ≠ 0xa9 then return false
  if (← bytes[1]?) ≠ 0x14 then return false
  return (← bytes[22]?) = 0x87

/-- The three bytes that are compared are there once the length is right. -/
theorem isP2SH?_eq (script : Script) : isP2SH? script.bytes = some script.isP2SH := by
  rcases script with ⟨bytes⟩
  rw [isP2SH?, Script.isP2SH, Script.scriptHash?]
  by_cases hlength : bytes.length = 23
  · rw [if_neg (not_not.mpr hlength)]
    rcases bytes with _ | ⟨first, _ | ⟨second, rest⟩⟩
    · cases hlength
    · cases hlength
    -- Two bytes, a hash, and one more byte.
    have hrest : rest.length = 21 := Nat.succ.inj (Nat.succ.inj hlength)
    have hlast : rest[20]? = some rest[20] := List.getElem?_eq_getElem (by omega)
    have hdrop : rest.drop 20 = [rest[20]] := by
      rw [List.drop_eq_getElem_cons (by omega), List.drop_eq_nil_of_le (by omega)]
    have htake : (rest.take 20).length = 20 := by
      rw [List.length_take]
      omega
    change _ = some (Option.isSome (if [first, second] = [0xa9, 0x14] ∧ rest.drop 20 = [0x87] then
      ByteVec.ofBytes? 20 (rest.take 20) else none))
    rw [hdrop, ByteVec.ofBytes?, dif_pos htake]
    by_cases hfirst : first = 0xa9
    · by_cases hsecond : second = 0x14
      · by_cases hseal : rest[20] = 0x87
        · simp [hfirst, hsecond, hseal, hlast]
        · simp [hfirst, hsecond, hseal, hlast]
      · simp [hfirst, hsecond]
    · simp [hfirst]
  · -- With another length there is no single byte behind the hash.
    have hother : ¬(bytes.take 2 = [0xa9, 0x14] ∧ bytes.drop 22 = [0x87]) := by
      rintro ⟨-, hdrop⟩
      have hone := congrArg List.length hdrop
      rw [List.length_drop, List.length_singleton] at hone
      omega
    rw [if_pos hlength, if_neg hother]
    rfl

/-- What an opcode does. The numbers up to sixteen are counted from the opcode of one. -/
def operation? (op : UInt8) : Option Operation :=
  if Opcode.small 1 ≤ op ∧ op ≤ Opcode.sixteen then do
    return .pushNumber ((← subtract? op.toNat (Opcode.small 1).toNat) + 1)
  else return Opcode.operation op

theorem operation?_eq (op : UInt8) : operation? op = some (Opcode.operation op) := by
  have hop : op ≤ 0xff := UInt8.le_iff_toNat_le.mpr (Nat.le_of_lt_succ op.toNat_lt)
  refine Opcode.of_le (p := fun op => operation? op = some (Opcode.operation op)) hop ?_
  decide +kernel

/-- The instruction of a chunk, once it is known what it does. -/
def instruction? (pos : Nat) (chunk : Chunk) : Option Instruction := do
  let _ ← operation? chunk.op
  return ⟨chunk.op, chunk.data.getD [], pos⟩

/-- The instructions of a script. -/
def parse (role : Role) (bytes : Bytes) : Except (Stop Failure) Program :=
  walk ((Failure.of .truncatedPush).locate role) instruction? bytes 0

/-- So a program is read by positions as it is read by chunks. -/
theorem agrees_parse (role : Role) (script : Script) :
    Agrees (parse role script.bytes) (Program.parse role script) := by
  refine agrees_walk (fun pos chunk => ?_) (fun offset => ?_) (fun offset bytes hne hfirst => ?_)
    (fun offset chunk bytes rest hfirst => Program.parseFrom_of_first? hfirst offset)
    script.bytes 0
  · rw [instruction?, operation?_eq]
    rfl
  · rw [Program.parseFrom]
    rfl
  · rw [Program.parseFrom, if_neg (mt List.isEmpty_iff.mp hne)]
    split
    · rfl
    · next hsome => cases hfirst.symm.trans hsome

end Bitcoin.Indexed
