import Bitcoin.Proofs.Script.Decoding
import Bitcoin.Proofs.Script.MinimalNumber
import Mathlib.Data.List.Forall2

/-!
# Scripts That Are Built

A script is built in place, by one addition after the other, and whoever builds it may go on
when one of them is refused. Nothing of a refused addition is written: whatever can be wrong is
found before the first byte. So the script is always the one that the additions so far have
made, those that were not refused.

What is added is whole chunks. The chunks of a script that decodes stay what they are when
bytes are appended to it, whichever bytes these are, and the appended bytes are decoded as
if they stood alone. It is therefore enough to know each addition by itself, and the rest
is an induction on their row. Pushes that are written in a row are a case of the same.

## Main definitions

* `Chunk.Holds`, `Chunk.HoldsNumber`: A chunk that pushes a payload, or a number.
* `Script.Addition`: A call that adds something.
* `Script.Addition.apply`, `Script.Addition.perform`: What it makes of a script, and what it does
  in place.
* `Script.Addition.Adds`, `Script.Addition.Acceptable`: What it adds, and what is not refused.
* `Script.extend`: Additions in a row.

## Theorems

* `Script.Addition.perform_eq`: An addition is made wholly or not at all.
* `Script.Addition.chunks_of_apply`: The chunks of an addition.
* `Script.chunks_extend`: The chunks of additions in a row.
* `Push.chunks_of_encodeFrom`: The chunks of pushes in a row.
* `Script.additions_exact`: What is built from nothing.
-/

namespace Bitcoin

namespace Chunk

/-- A chunk that pushes just the given bytes as its payload. -/
def Holds (chunk : Chunk) (data : Bytes) : Prop :=
  chunk.isPush = true ∧ chunk.data = some data

/-- A chunk that pushes a number, by an opcode of its own or as a payload. -/
def HoldsNumber (chunk : Chunk) (n : Int) : Prop :=
  chunk.Holds (Number.encode n) ∨ chunk.data = none ∧ Opcode.operation chunk.op = .pushNumber n

/-- The chunk of an opcode that needs no payload. That of the zero opcode is empty. -/
def bare (op : UInt8) : Chunk :=
  ⟨op, if op = Opcode.zero then some [] else none⟩

variable {op : UInt8}

/-- An opcode alone pushes nothing. -/
theorem getD_bare (op : UInt8) : (bare op).data.getD [] = [] := by
  rw [bare]
  by_cases hzero : op = Opcode.zero
  · rw [if_pos hzero]
    rfl
  · rw [if_neg hzero]
    rfl

-- What needs no payload is the zero opcode, whose payload is empty, or has none.
theorem of_needsPayload (h : Script.needsPayload op = false) :
    op = Opcode.zero ∨ op ≠ Opcode.zero ∧ Opcode.isPush op = false := by
  by_cases hzero : op = Opcode.zero
  · exact .inl hzero
  · exact .inr ⟨hzero, by simpa [Script.needsPayload, hzero] using h⟩

/-- An opcode that announces no data is an instruction by itself. -/
theorem wellFormed_bare (h : Script.needsPayload op = false) : (bare op).WellFormed := by
  rcases of_needsPayload h with rfl | ⟨hzero, hpush⟩
  · exact ⟨rfl, rfl⟩
  · rw [bare, if_neg hzero]
    exact hpush

theorem encode_bare (h : Script.needsPayload op = false) : (bare op).encode = [op] := by
  rcases of_needsPayload h with rfl | ⟨hzero, hpush⟩
  · rfl
  · rw [bare, if_neg hzero, encode_none hpush]

end Chunk

namespace Script

/-- The opcodes that may not be added alone are those that announce data. -/
theorem needsPayload_iff {op : UInt8} :
    needsPayload op = true ↔ 1 ≤ op ∧ op ≤ Opcode.pushData4 := by
  have hzero : op ≠ Opcode.zero ↔ 1 ≤ op := by
    rw [ne_eq, ← UInt8.toNat_inj, UInt8.le_iff_toNat_le]
    exact Nat.pos_iff_ne_zero.symm
  rw [needsPayload, decide_eq_true_eq, hzero, Opcode.isPush, decide_eq_true_eq]

/-- Opcodes that need no payload are as many chunks. -/
theorem chunks_opcodes {ops : Bytes} (h : ∀ op ∈ ops, needsPayload op = false) :
    chunks ⟨ops⟩ = .ok (ops.map Chunk.bare) := by
  refine chunks_eq_ok.mpr ⟨?_, ?_⟩
  · induction ops with
    | nil => rfl
    | cons op ops ih =>
        rcases List.forall_mem_cons.mp h with ⟨hop, hops⟩
        rw [List.map_cons, List.flatMap_cons, Chunk.encode_bare hop, ← ih hops]
        rfl
  · intro chunk hmem
    rcases List.mem_map.mp hmem with ⟨op, hop, rfl⟩
    exact Chunk.wellFormed_bare (h op hop)

/-- A call that adds something to the end of a script. -/
inductive Addition where
  | push (data : Bytes)
  | opcodes (ops : Bytes)
  | number (n : Int64)

namespace Addition

/-- The script that an addition makes. -/
def apply (script : Script) : Addition → Except ScriptError Script
  | .push data => script.addPush data
  | .opcodes ops => script.addOpcodes ops
  | .number n => script.addNumber n.toInt

/-- Writes a payload to the end of a script, after its header. -/
def writePush (data : Bytes) : EStateM ScriptError Script Unit := do
  let front ← MonadExcept.ofExcept (Push.header data.length)
  modify (·.add front)
  modify (·.add data)

/-- What an addition does to a script in place. What has been written when it is refused
    stays written. -/
def perform : Addition → EStateM ScriptError Script Unit
  | .push data => writePush data
  | .opcodes ops =>
    match ops.find? needsPayload with
    | some op => throw (.missingPayload op)
    | none => modify (·.add ops)
  | .number n =>
    if n.toInt = 0 then modify (·.add [Opcode.zero])
    else if n.toInt = -1 then modify (·.add [Opcode.negativeOne])
    else if 1 ≤ n.toInt ∧ n.toInt ≤ 16 then modify (·.add [Opcode.small n.toInt.toNat])
    else writePush (Number.encode n.toInt)

/-- The chunks that an addition is meant to add: a push of the payload, the opcodes, or one
    chunk for a number. -/
def Adds (addition : Addition) (added : List Chunk) : Prop :=
  match addition with
  | .push data => ∃ chunk, added = [chunk] ∧ chunk.Holds data
  | .opcodes ops => added.map Chunk.op = ops ∧ ∀ chunk ∈ added, chunk.data.getD [] = []
  | .number n => ∃ chunk, added = [chunk] ∧ chunk.HoldsNumber n.toInt

/-- What is not refused: payloads that four bytes can count, and opcodes that need none. -/
def Acceptable : Addition → Prop
  | .push data => data.length < 2 ^ 32
  | .opcodes ops => ∀ op ∈ ops, ¬(1 ≤ op ∧ op ≤ Opcode.pushData4)
  | .number _ => True

variable {addition : Addition} {script grown : Script}

/-- A push that is written in place does what the addition of the push gives back, and a refusal
    leaves the script as it was. -/
theorem writePush_eq (data : Bytes) (script : Script) :
    writePush data script = match script.addPush data with
      | .ok grown => .ok () grown
      | .error fault => .error fault script := by
  have hassoc (front : Bytes) : (script.add front).add data = script.add (front ++ data) :=
    congrArg Script.mk (List.append_assoc _ _ _)
  rw [addPush, Push.encode]
  rcases hheader : Push.header data.length with fault | front
  · rw [writePush, hheader]
    rfl
  · rw [writePush, hheader]
    exact congrArg (EStateM.Result.ok ()) (hassoc front)

/-- In place, an addition makes the script it should, or it is refused and the script is as
    it was. -/
theorem perform_eq (addition : Addition) (script : Script) :
    addition.perform script = match addition.apply script with
      | .ok grown => .ok () grown
      | .error fault => .error fault script := by
  cases addition with
  | push data => exact writePush_eq data script
  | opcodes ops =>
      rw [perform, apply, addOpcodes]
      rcases ops.find? needsPayload with _ | op
      · rfl
      · rfl
  | number n =>
      rw [perform, apply, addNumber]
      by_cases hzero : n.toInt = 0
      · rw [if_pos hzero, if_pos hzero]
        rfl
      · rw [if_neg hzero, if_neg hzero]
        by_cases hone : n.toInt = -1
        · rw [if_pos hone, if_pos hone]
          rfl
        · rw [if_neg hone, if_neg hone]
          by_cases hsmall : 1 ≤ n.toInt ∧ n.toInt ≤ 16
          · rw [if_pos hsmall, if_pos hsmall]
            rfl
          · rw [if_neg hsmall, if_neg hsmall]
            exact writePush_eq _ script

/-- What a payload adds is one push of it. -/
theorem chunks_addPush {data : Bytes} (h : script.addPush data = .ok grown) :
    ∃ bytes chunk, grown = script.add bytes ∧ Script.chunks ⟨bytes⟩ = .ok [chunk] ∧
      chunk.Holds data := by
  rcases Result.bind_eq_ok.mp h with ⟨bytes, hencode, hgrown⟩
  cases hgrown
  rcases Push.chunks_of_encode hencode with ⟨op, hop, hchunks⟩
  exact ⟨bytes, _, rfl, hchunks, decide_eq_true hop, rfl⟩

-- The opcodes that push numbers need no payload.
theorem small_pushes : ∀ n < 17, 1 ≤ n → needsPayload (Opcode.small n) = false ∧
    (Chunk.bare (Opcode.small n)).data = none ∧
    Opcode.operation (Opcode.small n) = .pushNumber n := by
  decide

/-- What a number adds is one chunk that pushes it. -/
theorem chunks_addNumber {n : Int} (h : script.addNumber n = .ok grown) :
    ∃ bytes chunk, grown = script.add bytes ∧ Script.chunks ⟨bytes⟩ = .ok [chunk] ∧
      chunk.HoldsNumber n := by
  rw [addNumber] at h
  by_cases hzero : n = 0
  · rw [if_pos hzero] at h
    cases h
    have hempty : (Chunk.bare Opcode.zero).data = some (Number.encode n) := by
      rw [hzero, Number.encode_zero]
      rfl
    exact ⟨_, _, rfl, chunks_opcodes (List.forall_mem_singleton.mpr rfl), .inl ⟨rfl, hempty⟩⟩
  -- Zero is the empty push, which reads back as data.
  rw [if_neg hzero] at h
  by_cases hone : n = -1
  · rw [if_pos hone] at h
    cases h
    rw [hone]
    exact ⟨_, _, rfl, chunks_opcodes (List.forall_mem_singleton.mpr rfl), .inr ⟨rfl, rfl⟩⟩
  rw [if_neg hone] at h
  by_cases hsmall : 1 ≤ n ∧ n ≤ 16
  · rw [if_pos hsmall] at h
    cases h
    -- One of sixteen opcodes stands for the number, and names it.
    rcases small_pushes n.toNat (by omega) (by omega) with ⟨hbare, hdata, hoperation⟩
    rw [Int.toNat_of_nonneg (by omega)] at hoperation
    exact ⟨_, _, rfl, chunks_opcodes (List.forall_mem_singleton.mpr hbare),
      .inr ⟨hdata, hoperation⟩⟩
  · -- Any other number is pushed as its canonical bytes.
    rw [if_neg hsmall] at h
    rcases chunks_addPush h with ⟨bytes, chunk, hgrown, hchunks, hholds⟩
    exact ⟨bytes, chunk, hgrown, hchunks, .inl hholds⟩

/-- What an addition appends decodes to the chunks that it is meant to add. -/
theorem chunks_of_apply (h : addition.apply script = .ok grown) :
    ∃ bytes added, grown = script.add bytes ∧ Script.chunks ⟨bytes⟩ = .ok added ∧
      addition.Adds added := by
  cases addition with
  | push data =>
      rcases chunks_addPush h with ⟨bytes, chunk, hgrown, hchunks, hholds⟩
      exact ⟨bytes, [chunk], hgrown, hchunks, chunk, rfl, hholds⟩
  | opcodes ops =>
      rw [apply, addOpcodes] at h
      rcases hfound : ops.find? needsPayload with _ | op
      · rw [hfound] at h
        cases h
        -- None of the opcodes announces data, so each is read back as an instruction of its own.
        have hbare : ∀ op ∈ ops, needsPayload op = false := fun op hop =>
          Bool.eq_false_iff.mpr (List.find?_eq_none.mp hfound op hop)
        refine ⟨ops, ops.map Chunk.bare, rfl, chunks_opcodes hbare, ?_, ?_⟩
        · exact List.map_map.trans (List.map_id ops)
        · intro chunk hmem
          rcases List.mem_map.mp hmem with ⟨op, -, rfl⟩
          exact Chunk.getD_bare op
      · rw [hfound] at h
        cases h
  | number n =>
      rcases chunks_addNumber h with ⟨bytes, chunk, hgrown, hchunks, hholds⟩
      exact ⟨bytes, [chunk], hgrown, hchunks, chunk, rfl, hholds⟩

/-- What is refused is known beforehand, and does not depend on the script. -/
theorem exists_apply_iff : (∃ grown, addition.apply script = .ok grown) ↔ addition.Acceptable := by
  -- A push is refused only where its length does not fit into four bytes.
  have hpush (data : Bytes) :
      (∃ grown, script.addPush data = .ok grown) ↔ data.length < 2 ^ 32 := by
    rw [← Push.exists_encode_iff]
    constructor
    · rintro ⟨grown, h⟩
      rcases Result.bind_eq_ok.mp h with ⟨bytes, hencode, -⟩
      exact ⟨bytes, hencode⟩
    · rintro ⟨bytes, hencode⟩
      exact ⟨_, Result.bind_eq_ok.mpr ⟨bytes, hencode, rfl⟩⟩
  cases addition with
  | push data => exact hpush data
  | opcodes ops =>
      have hneeds : (∀ op ∈ ops, ¬needsPayload op = true) ↔
          ∀ op ∈ ops, ¬(1 ≤ op ∧ op ≤ Opcode.pushData4) := by
        simp only [needsPayload_iff]
      rw [apply, addOpcodes, Acceptable, ← hneeds, ← List.find?_eq_none]
      rcases ops.find? needsPayload with _ | op
      · exact ⟨fun _ => rfl, fun _ => ⟨_, rfl⟩⟩
      · exact ⟨nofun, nofun⟩
  | number n =>
      -- A number of one word is never refused, since its bytes are few.
      have hlength : (Number.encode n.toInt).length < 2 ^ 32 := by
        have := Number.length_encode_le (Number.fits_word n)
        omega
      refine ⟨fun _ => trivial, fun _ => ?_⟩
      rw [apply, addNumber]
      split
      · exact ⟨_, rfl⟩
      · split
        · exact ⟨_, rfl⟩
        · split
          · exact ⟨_, rfl⟩
          · exact (hpush _).mpr hlength

end Addition

/-- Makes additions one after the other, and goes on with the script as it is then where one
    is refused. Gives the additions that were not refused, and the script. -/
def extend (script : Script) : List Addition → List Addition × Script
  | [] => ([], script)
  | addition :: rest =>
    match addition.perform script with
    | .ok _ grown => (addition :: (extend grown rest).1, (extend grown rest).2)
    | .error _ kept => extend kept rest

/-- Behind the chunks of a script come those of the additions that were not refused, in their
    order. -/
theorem chunks_extend {script : Script} {chunks : List Chunk} (h : script.chunks = .ok chunks)
    (additions : List Addition) :
    ∃ added, List.Forall₂ Addition.Adds (script.extend additions).1 added ∧
      (script.extend additions).2.chunks = .ok (chunks ++ added.flatten) := by
  induction additions generalizing script chunks with
  | nil => exact ⟨[], .nil, by rw [extend, List.flatten_nil, List.append_nil, h]⟩
  | cons addition rest ih =>
      rw [extend, addition.perform_eq]
      rcases happly : addition.apply script with fault | grown
      · -- A refused addition leaves no trace.
        exact ih h
      · rcases Addition.chunks_of_apply happly with ⟨bytes, first, rfl, hfirst, hadds⟩
        rcases ih (chunks_add h hfirst) with ⟨others, hothers, hchunks⟩
        refine ⟨first :: others, .cons hadds hothers, ?_⟩
        rw [List.flatten_cons, ← List.append_assoc]
        exact hchunks

end Script

namespace Push

variable {parts : List Bytes} {bytes : Bytes} {index : Nat}

/-- Pushes in a row are one chunk for each payload. -/
theorem chunks_of_encodeFrom (h : encodeFrom index parts = .ok bytes) :
    ∃ chunks, Script.chunks ⟨bytes⟩ = .ok chunks ∧ List.Forall₂ Chunk.Holds chunks parts := by
  induction parts generalizing index bytes with
  | nil =>
      cases h
      exact ⟨[], Script.chunks_eq_ok.mpr ⟨rfl, nofun⟩, .nil⟩
  | cons part parts ih =>
      rcases Result.bind_eq_ok.mp h with ⟨first, hfirst, hrest⟩
      rcases Result.bind_eq_ok.mp hrest with ⟨rest, hothers, hbytes⟩
      cases hbytes
      rcases chunks_of_encode (Result.mapError_eq_ok.mp hfirst) with ⟨op, hop, hchunk⟩
      rcases ih hothers with ⟨chunks, hchunks, hholds⟩
      exact ⟨_ :: chunks, Script.chunks_add hchunk hchunks, .cons ⟨decide_eq_true hop, rfl⟩ hholds⟩

/-- A row of pushes is written exactly if each of them is short enough. -/
theorem exists_encodeFrom_iff :
    (∃ bytes, encodeFrom index parts = .ok bytes) ↔ ∀ part ∈ parts, part.length < 2 ^ 32 := by
  induction parts generalizing index with
  | nil => exact ⟨fun _ => nofun, fun _ => ⟨[], rfl⟩⟩
  | cons part parts ih =>
      rw [List.forall_mem_cons, ← exists_encode_iff, ← @ih (index + 1)]
      constructor
      · rintro ⟨bytes, h⟩
        rcases Result.bind_eq_ok.mp h with ⟨first, hfirst, hrest⟩
        rcases Result.bind_eq_ok.mp hrest with ⟨rest, hothers, -⟩
        exact ⟨⟨first, Result.mapError_eq_ok.mp hfirst⟩, rest, hothers⟩
      · rintro ⟨⟨first, hfirst⟩, rest, hothers⟩
        exact ⟨first ++ rest, Result.bind_eq_ok.mpr ⟨first, Result.mapError_eq_ok.mpr hfirst,
          Result.bind_eq_ok.mpr ⟨rest, hothers, rfl⟩⟩⟩

end Push

/-- Whatever is added to the empty script, in whatever order, the result decodes to the chunks
    of the additions that were not refused: one push of just the payload, one chunk for each
    opcode, one chunk for a number. An addition is refused only if its payload is longer than
    four bytes can count, or one of its opcodes needs a payload, and the script is then as it
    was. In the same way, payloads that are written in a row decode to one push of each,
    unless one of them is too long, and only then they are not written. -/
theorem Script.additions_exact (additions : List Addition) (parts : List Bytes) :
    (∃ added, List.Forall₂ Addition.Adds (empty.extend additions).1 added ∧
      (empty.extend additions).2.chunks = .ok added.flatten) ∧
    (∀ (addition : Addition) (script : Script),
      (addition.Acceptable ∧ ∃ grown, addition.apply script = .ok grown ∧
        addition.perform script = .ok () grown) ∨
      (¬addition.Acceptable ∧ ∃ fault, addition.apply script = .error fault ∧
        addition.perform script = .error fault script)) ∧
    ((∃ bytes, Push.encodeAll parts = .ok bytes ∧ ∃ chunks, Chunk.decode bytes = .ok chunks ∧
        List.Forall₂ Chunk.Holds chunks parts) ↔
      ∀ part ∈ parts, part.length < 2 ^ 32) := by
  have hempty : empty.chunks = .ok [] := chunks_eq_ok.mpr ⟨rfl, nofun⟩
  refine ⟨chunks_extend hempty additions, fun addition script => ?_, ?_⟩
  · rw [addition.perform_eq, ← @Addition.exists_apply_iff addition script]
    -- Written in place or given back, an addition succeeds or fails alike.
    rcases addition.apply script with fault | grown
    · exact .inr ⟨nofun, fault, rfl, rfl⟩
    · exact .inl ⟨⟨grown, rfl⟩, grown, rfl, rfl⟩
  · rw [← @Push.exists_encodeFrom_iff parts 0]
    constructor
    · rintro ⟨bytes, hencode, -⟩
      exact ⟨bytes, hencode⟩
    · rintro ⟨bytes, hencode⟩
      exact ⟨bytes, hencode, Push.chunks_of_encodeFrom hencode⟩

end Bitcoin
