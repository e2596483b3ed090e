import Bitcoin.Proofs.Machine.Pushes
import Bitcoin.Proofs.Script.Minimal
import Bitcoin.Proofs.Script.MinimalNumber

/-!
# The Rule on Shortest Pushes

The rule is a table of forms, one for each range of lengths, with a few payloads that have an
opcode of their own. Nothing in it speaks of the lengths of instructions. What it comes to is
that no other instruction that pushes the same element takes fewer bytes.

This needs to be known of all instructions, also of those that push what they compute. What
an instruction pushes is what it leaves on top of the stack wherever it takes effect. By this
measure only the payloads and the opcodes of numbers push anything. On the empty stack all
others fail or leave it empty, but for the one that pushes the depth of the stack, and that
one does not push the same element everywhere.

Among instructions with the same payload, it is the number of bytes behind the opcode
that makes the difference. The least number of them is a function of the length alone, and
the opcodes that make do with it are those that the table lets through.

## Main definitions

* `Instruction.Pushes`: The element that an instruction pushes.
* `Element.IsSmallNumber`: The elements that are pushed without a payload.
* `Push.leastWidth`: The fewest bytes behind an opcode that announce a length.

## Theorems

* `Instruction.pushes_iff`: Which instructions push which elements.
* `PushForm.admits_ofLength_iff_least`, `PushForm.admits_shortest_iff`: What the table says.
* `Instruction.le_length_encode`, `Instruction.exists_pushes_least`,
  `Instruction.exists_pushes_small`: The fewest bytes that push an element.
* `Instruction.requireMinimal_iff_shortest`: The rule means shortest.
* `Program.minimal_push_exact`: The pushes of a script, and those that are built.
-/

namespace Bitcoin

namespace Instruction

/-- Wherever it takes effect, all that an instruction does is to put the given element on top
    of the stack. The rule on shortest pushes is left out here. -/
def Pushes (instruction : Instruction) (element : Bytes) : Prop :=
  ∀ (rules : Rules) (frame : Frame), rules.has .minimalData = false →
    instruction.perform rules frame = .ok () { frame with stack := element :: frame.stack }

variable {instruction : Instruction} {element : Bytes}

/-- An instruction with data pushes them, if it is not refused. -/
theorem pushes_data (h : instruction.operation = .pushData) :
    instruction.Pushes instruction.data := by
  intro rules frame hflag
  have hflag' : ¬rules.has .minimalData = true := Bool.eq_false_iff.mp hflag
  rw [perform, h]
  simp only [pushData, if_neg hflag']
  rfl

/-- A small number is pushed as its bytes. -/
theorem pushes_number {n : Int} (h : instruction.operation = .pushNumber n) :
    instruction.Pushes (Number.encode n) := by
  intro rules frame hflag
  rw [perform, h]
  rfl

/-- An instruction pushes one element only. -/
theorem Pushes.unique {element' : Bytes} (h : instruction.Pushes element)
    (h' : instruction.Pushes element') : element = element' := by
  have hsame := (h { flags := .none } (.start [] [] []) rfl).symm.trans (h' _ _ rfl)
  simp only [EStateM.Result.ok.injEq, Frame.mk.injEq, List.cons.injEq] at hsame
  exact hsame.2.1.1

/-- Only the instructions with a payload and those of the numbers push the same element
    everywhere. On the empty stack all others fail or leave it empty, except for the one
    that pushes the depth; and the depth is not the same everywhere. -/
theorem Pushes.operation (h : instruction.Pushes element) :
    instruction.operation = .pushData ∨ ∃ n, instruction.operation = .pushNumber n := by
  -- Two frames are enough to tell pushes from all other operations: an empty stack and one with an
  -- empty element.
  have hnone := h { flags := .none } (.start [] [] []) rfl
  have hone := h { flags := .none } (.start [[]] [] []) rfl
  rw [perform] at hnone hone
  cases hoperation : instruction.operation with
  | pushData => exact .inl rfl
  | pushNumber n => exact .inr ⟨n, rfl⟩
  | flow op =>
      rw [hoperation] at hnone
      cases op <;> cases hnone
  | stack op =>
      rw [hoperation] at hnone hone
      cases op with
      | depth =>
          -- The depth is not the same in both.
          have hzero : [Number.encode 0] = [element] :=
            congrArg Frame.stack (EStateM.Result.ok.inj hnone).2
          have hdeeper : [Number.encode 1, []] = [element, []] :=
            congrArg Frame.stack (EStateM.Result.ok.inj hone).2
          have hsame := (List.cons.inj hzero).1.trans (List.cons.inj hdeeper).1.symm
          have hnumber := congrArg Number.decode hsame
          rw [Number.decode_encode, Number.decode_encode] at hnumber
          cases hnumber
      | _ => cases hnone
  | arithmetic op =>
      rw [hoperation] at hnone
      cases op <;> cases hnone
  | crypto op =>
      rw [hoperation] at hnone
      cases op <;> cases hnone
  | lockTime op =>
      rw [hoperation] at hnone
      cases op <;> cases hnone
  | _ =>
      rw [hoperation] at hnone
      cases hnone

/-- The elements that an instruction pushes. -/
theorem pushes_iff :
    instruction.Pushes element ↔
      (instruction.operation = .pushData ∧ instruction.data = element) ∨
      ∃ n, instruction.operation = .pushNumber n ∧ Number.encode n = element := by
  constructor
  · intro h
    rcases h.operation with hdata | ⟨n, hnumber⟩
    · exact .inl ⟨hdata, (pushes_data hdata).unique h⟩
    · exact .inr ⟨n, hnumber, (pushes_number hnumber).unique h⟩
  · rintro (⟨hdata, rfl⟩ | ⟨n, hnumber, rfl⟩)
    · exact pushes_data hdata
    · exact pushes_number hnumber

end Instruction

/-- The elements that are pushed by an opcode without a payload: minus one and the numbers
    from one to sixteen. -/
def Element.IsSmallNumber : Bytes → Prop
  | [byte] => byte = 0x81 ∨ 1 ≤ byte ∧ byte ≤ 16
  | _ => False

/-- There are seventeen bytes with an opcode of their own. -/
theorem Element.IsSmallNumber.eq_byte {element : Bytes} (h : IsSmallNumber element) :
    ∃ byte, element = [byte] ∧ (byte = 0x81 ∨ 1 ≤ byte ∧ byte ≤ 16) := by
  rcases element with _ | ⟨byte, _ | ⟨_, _⟩⟩
  · exact absurd h id
  · exact ⟨byte, rfl, h⟩
  · exact absurd h id

theorem Element.IsSmallNumber.length_eq {element : Bytes} (h : IsSmallNumber element) :
    element.length = 1 := by
  rcases h.eq_byte with ⟨byte, rfl, -⟩
  rfl

instance : DecidablePred Element.IsSmallNumber
  | [] => .isFalse id
  | [byte] => inferInstanceAs (Decidable (byte = 0x81 ∨ 1 ≤ byte ∧ byte ≤ 16))
  | _ :: _ :: _ => .isFalse id

namespace Opcode

variable {op : UInt8} {element : Bytes}

theorem operation_eq_pushData_iff : operation op = .pushData ↔ op ≤ pushData4 :=
  of_all (p := fun op => operation op = .pushData ↔ op ≤ pushData4) op (by decide +kernel)

/-- The opcodes of numbers have no payload, and their numbers are these. -/
theorem of_pushNumber {n : Int} (h : operation op = .pushNumber n) :
    isPush op = false ∧ Element.IsSmallNumber (Number.encode n) := by
  -- Of the opcodes that push, those of numbers have all their numbers in a short list.
  have hall := of_all (p := fun op => (operation op).isPush = true →
    operation op = .pushData ∨ operation op = .reserved ∨
      ∃ m ∈ (-1 : Int) :: (List.range' 1 16).map Int.ofNat, operation op = .pushNumber m ∧
        isPush op = false ∧ Element.IsSmallNumber (Number.encode m)) op (by decide +kernel)
  rw [h] at hall
  rcases hall rfl with hdata | hreserved | ⟨m, -, hnumber, hsmall⟩
  · cases hdata
  · cases hreserved
  · cases hnumber
    exact hsmall

/-- Each of these elements has an opcode. -/
theorem exists_pushNumber (h : Element.IsSmallNumber element) :
    ∃ op n, operation op = .pushNumber n ∧ Number.encode n = element := by
  rcases h.eq_byte with ⟨byte, rfl, rfl | ⟨hlow, hhigh⟩⟩
  · exact ⟨negativeOne, -1, rfl, by decide +kernel⟩
  · have hall := of_le (p := fun byte => 1 ≤ byte →
      operation (0x50 + byte) = .pushNumber byte.toNat ∧ Number.encode byte.toNat = [byte])
      hhigh (by decide +kernel)
    exact ⟨_, _, hall hlow⟩

end Opcode

namespace Push

variable {op : UInt8} {length : Nat}

/-- How many bytes it takes at least to announce a length behind an opcode. -/
def leastWidth (length : Nat) : Nat :=
  if length ≤ 75 then 0 else if length ≤ 255 then 1 else if length ≤ 65535 then 2 else 4

/-- What an opcode announces, by the number of bytes behind it. -/
theorem announces_cases (hop : op ≤ Opcode.pushData4) (h : Announces op length) :
    (op.toNat ≤ 75 ∧ lengthWidth op = 0 ∧ length = op.toNat) ∨
      (op.toNat = 76 ∧ lengthWidth op = 1 ∧ length < 256) ∨
      (op.toNat = 77 ∧ lengthWidth op = 2 ∧ length < 65536) ∨
      (op.toNat = 78 ∧ lengthWidth op = 4) := by
  -- An opcode up to the last push is direct or one of three.
  have hcases := Opcode.of_le (p := fun op => op ≤ Opcode.maxDirect ∨ op = Opcode.pushData1 ∨
    op = Opcode.pushData2 ∨ op = Opcode.pushData4) hop (by decide +kernel)
  rw [Announces] at h
  rcases hcases with hdirect | rfl | rfl | rfl
  · rw [if_pos hdirect] at h
    exact .inl ⟨UInt8.le_iff_toNat_le.mp hdirect, lengthWidth_of_direct hdirect, h⟩
  · exact .inr (.inl ⟨rfl, rfl, h⟩)
  · exact .inr (.inr (.inl ⟨rfl, rfl, h⟩))
  · exact .inr (.inr (.inr ⟨rfl, rfl⟩))

/-- A width that can announce a length is not below the least one. -/
theorem leastWidth_le (hop : op ≤ Opcode.pushData4) (h : Announces op length) :
    leastWidth length ≤ lengthWidth op := by
  have hcases := announces_cases hop h
  rw [leastWidth]
  split_ifs <;> omega

end Push

namespace PushForm

variable {op : UInt8} {length : Nat}

/-- The shortest form for a length, in numbers. -/
theorem admits_ofLength_iff :
    (ofLength length).admits op = true ↔
      if length ≤ 75 then op.toNat = length else if length ≤ 255 then op.toNat = 76
      else if length ≤ 65535 then op.toNat = 77 else True := by
  have hdirect : Opcode.maxDirect.toNat = 75 := rfl
  rw [ofLength, hdirect]
  by_cases hzero : length = 0
  · rw [if_pos hzero, if_pos (by omega), hzero, admits, decide_eq_true_eq, ← UInt8.toNat_inj]
    rfl
  · -- The remaining forms are compared in their order.
    rw [if_neg hzero]
    split_ifs
    · exact decide_eq_true_iff
    · exact decide_eq_true_iff.trans UInt8.toNat_inj.symm
    · exact decide_eq_true_iff.trans UInt8.toNat_inj.symm
    · exact ⟨fun _ => trivial, fun _ => rfl⟩

/-- The form that a length asks for is that of the opcodes with the fewest bytes behind them. -/
theorem admits_ofLength_iff_least (hop : op ≤ Opcode.pushData4) (h : Push.Announces op length) :
    (ofLength length).admits op = true ↔ Push.lengthWidth op = Push.leastWidth length := by
  have hcases := Push.announces_cases hop h
  rw [admits_ofLength_iff, Push.leastWidth]
  split_ifs with hdirect hone htwo
  · omega
  · omega
  · omega
  · exact (true_iff _).mpr (by omega)

/-- The shortest form of a payload is the one that its length asks for, unless it needs no
    payload. -/
theorem admits_shortest_iff {data : Bytes} :
    (shortest data).admits op = true ↔
      ¬Element.IsSmallNumber data ∧ (ofLength data.length).admits op = true := by
  by_cases hlength : data.length = 1
  · rcases List.length_eq_one_iff.mp hlength with ⟨byte, rfl⟩
    rw [shortest, Element.IsSmallNumber]
    split_ifs with hsmall hnegative
    · exact ⟨fun h => absurd h Bool.false_ne_true, fun h => absurd (.inr hsmall) h.1⟩
    · exact ⟨fun h => absurd h Bool.false_ne_true, fun h => absurd (.inl hnegative) h.1⟩
    · exact (and_iff_right (not_or.mpr ⟨hnegative, hsmall⟩)).symm
  · rw [shortest_of_length hlength]
    exact (and_iff_right fun hsmall => hlength hsmall.length_eq).symm

end PushForm

namespace Program

variable {role : Role} {script : Script} {program : Program} {instruction : Instruction}

/-- An instruction of a program that has been read comes from a chunk. -/
theorem exists_wellFormed_of_mem (h : parse role script = .ok program)
    (hmem : instruction ∈ program) : ∃ chunk : Chunk, chunk.WellFormed ∧
      instruction.op = chunk.op ∧ instruction.data = chunk.data.getD [] := by
  rcases parse_eq_ok.mp h with ⟨chunks, hchunks, rfl⟩
  rcases exists_chunk_of_mem_place hmem with ⟨chunk, hchunk, hsame⟩
  exact ⟨chunk, (Script.chunks_eq_ok.mp hchunks).2 chunk hchunk, hsame⟩

/-- What the pushes of a script carry is announced by their opcodes. -/
theorem announces_of_mem (h : parse role script = .ok program) (hmem : instruction ∈ program)
    (hop : instruction.op ≤ Opcode.pushData4) :
    Push.Announces instruction.op instruction.data.length := by
  rcases exists_wellFormed_of_mem h hmem with ⟨⟨op, _ | data⟩, hformed, hop', hdata⟩
  · rw [hop'] at hop
    exact absurd (decide_eq_true hop) (Bool.eq_false_iff.mp hformed)
  · rw [hop', hdata]
    exact hformed.2

/-- So its data are shorter than four bytes can announce. -/
theorem length_data_lt (h : parse role script = .ok program) (hmem : instruction ∈ program) :
    instruction.data.length < 2 ^ 32 := by
  rcases exists_wellFormed_of_mem h hmem with ⟨⟨op, _ | data⟩, hformed, -, hdata⟩
  · rw [hdata]
    exact Nat.two_pow_pos 32
  · rw [hdata]
    exact hformed.2.lt

/-- A chunk that stands alone is one instruction. -/
theorem parse_chunk {chunk : Chunk} (h : chunk.WellFormed) (role : Role) :
    parse role ⟨chunk.encode⟩ = .ok [⟨chunk.op, chunk.data.getD [], 0⟩] :=
  parse_eq_ok.mpr ⟨[chunk], Script.chunks_eq_ok.mpr
    ⟨(List.flatMap_singleton ..).symm, List.forall_mem_singleton.mpr h⟩, rfl⟩

end Program

namespace Instruction

variable {role : Role} {instruction : Instruction} {element : Bytes}

theorem length_encode (instruction : Instruction) : instruction.encode.length
    = 1 + Push.lengthWidth instruction.op + instruction.data.length :=
  Chunk.length_encode ⟨instruction.op, some instruction.data⟩

/-- Accepted are the pushes that need a payload and announce it with the fewest bytes. -/
theorem requireMinimal_iff_least (hop : instruction.op ≤ Opcode.pushData4)
    (h : Push.Announces instruction.op instruction.data.length) :
    instruction.requireMinimal = .ok () ↔ ¬Element.IsSmallNumber instruction.data ∧
      Push.lengthWidth instruction.op = Push.leastWidth instruction.data.length := by
  rw [requireMinimal_eq_ok, PushForm.admits_shortest_iff, PushForm.admits_ofLength_iff_least hop h]

/-- Nothing pushes an element that needs a payload with less than its fewest bytes. -/
theorem le_length_encode (h : Program.parse role ⟨instruction.encode⟩ = .ok [instruction])
    (hpushes : instruction.Pushes element) (hpayload : ¬Element.IsSmallNumber element) :
    1 + Push.leastWidth element.length + element.length ≤ instruction.encode.length := by
  rcases pushes_iff.mp hpushes with ⟨hoperation, rfl⟩ | ⟨n, hoperation, rfl⟩
  · have hop := Opcode.operation_eq_pushData_iff.mp hoperation
    have hannounces := Program.announces_of_mem h List.mem_cons_self hop
    have hleast := Push.leastWidth_le hop hannounces
    rw [length_encode]
    omega
  · exact absurd (Opcode.of_pushNumber hoperation).2 hpayload

/-- The push that is built does with just these. -/
theorem exists_pushes_least (role : Role) (h : element.length < 2 ^ 32) :
    ∃ other : Instruction, Program.parse role ⟨other.encode⟩ = .ok [other] ∧
      other.Pushes element ∧
      other.encode.length = 1 + Push.leastWidth element.length + element.length := by
  rcases Push.exists_encode_iff.mpr h with ⟨push, hpush⟩
  rcases Push.instruction_of_encode role hpush with ⟨op, hop, hbuilt, hadmits⟩
  have hannounces : Push.Announces op element.length :=
    Program.announces_of_mem hbuilt List.mem_cons_self hop
  have hformed : Chunk.WellFormed ⟨op, some element⟩ := ⟨decide_eq_true hop, hannounces⟩
  refine ⟨⟨op, element, 0⟩, Program.parse_chunk hformed role,
    pushes_data (Opcode.operation_eq_pushData hop), ?_⟩
  rw [length_encode, (PushForm.admits_ofLength_iff_least hop hannounces).mp hadmits]

/-- An element that needs no payload is pushed with one byte. -/
theorem exists_pushes_small (role : Role) (h : Element.IsSmallNumber element) :
    ∃ other : Instruction, Program.parse role ⟨other.encode⟩ = .ok [other] ∧
      other.Pushes element ∧ other.encode.length = 1 := by
  rcases Opcode.exists_pushNumber h with ⟨op, n, hoperation, rfl⟩
  have hpush := (Opcode.of_pushNumber hoperation).1
  have hformed : Chunk.WellFormed ⟨op, none⟩ := hpush
  refine ⟨⟨op, [], 0⟩, Program.parse_chunk hformed role, pushes_number hoperation, ?_⟩
  rw [length_encode, Push.lengthWidth_of_not_isPush hpush]
  rfl

/-- Accepted are the pushes that no other instruction does with fewer bytes. -/
theorem requireMinimal_iff_shortest (role : Role) (hop : instruction.op ≤ Opcode.pushData4)
    (h : Push.Announces instruction.op instruction.data.length) :
    instruction.requireMinimal = .ok () ↔ ∀ other : Instruction,
      Program.parse role ⟨other.encode⟩ = .ok [other] → other.Pushes instruction.data →
        instruction.encode.length ≤ other.encode.length := by
  rw [requireMinimal_iff_least hop h, length_encode]
  constructor
  · rintro ⟨hpayload, hwidth⟩ other hother hpushes
    rw [hwidth]
    exact le_length_encode hother hpushes hpayload
  · intro hshortest
    constructor
    · intro hsmall
      rcases exists_pushes_small role hsmall with ⟨other, hother, hpushes, hlength⟩
      have hle := hshortest other hother hpushes
      -- The opcode alone is shorter than any instruction with the byte behind it.
      have hone := hsmall.length_eq
      omega
    · rcases exists_pushes_least role h.lt with ⟨other, hother, hpushes, hlength⟩
      have hle := hshortest other hother hpushes
      have hleast := Push.leastWidth_le hop h
      omega

end Instruction

namespace Program

/-- Of the pushes in a script, those are accepted that no single instruction does with fewer
    bytes, the opcodes of numbers included. A push can be built of every payload that an
    instruction can carry, and of no other; it is accepted unless the payload is one byte that
    is minus one or a number from one to sixteen. -/
theorem minimal_push_exact (role : Role) :
    (∀ script program, parse role script = .ok program →
      ∀ instruction ∈ program, instruction.op ≤ Opcode.pushData4 →
        instruction.Pushes instruction.data ∧
        (instruction.requireMinimal = .ok () ↔
          ¬∃ other : Instruction, parse role ⟨other.encode⟩ = .ok [other] ∧
            other.Pushes instruction.data ∧ other.encode.length < instruction.encode.length)) ∧
    ∀ data,
      (∃ script program, parse role script = .ok program ∧
        ∃ instruction ∈ program, instruction.data = data) ↔
      ∃ push, Push.encode data = .ok push ∧
        ∃ instruction, parse role ⟨push⟩ = .ok [instruction] ∧
          instruction.op ≤ Opcode.pushData4 ∧ instruction.Pushes data ∧
          (instruction.requireMinimal = .ok () ↔ ¬Element.IsSmallNumber data) := by
  refine ⟨fun script program hparse instruction hmem hop => ?_, fun data => ⟨?_, ?_⟩⟩
  · have hannounces := announces_of_mem hparse hmem hop
    refine ⟨Instruction.pushes_data (Opcode.operation_eq_pushData hop), ?_⟩
    rw [Instruction.requireMinimal_iff_shortest role hop hannounces]
    simp only [not_exists, not_and, Nat.not_lt]
  · rintro ⟨script, program, hparse, instruction, hmem, rfl⟩
    -- Data that stand in a script are short enough to be pushed by another one.
    have hlength := length_data_lt hparse hmem
    rcases Push.exists_encode_iff.mpr hlength with ⟨push, hpush⟩
    rcases Push.instruction_of_encode role hpush with ⟨op, hop, hparse', hadmits⟩
    refine ⟨push, hpush, _, hparse', hop, Instruction.pushes_data
      (Opcode.operation_eq_pushData hop), ?_⟩
    rw [Instruction.requireMinimal_eq_ok, PushForm.admits_shortest_iff]
    exact and_iff_left hadmits
  · rintro ⟨push, -, instruction, hparse, hop, hpushes, -⟩
    have hdata := Instruction.pushes_data (Opcode.operation_eq_pushData hop)
    exact ⟨_, _, hparse, instruction, List.mem_cons_self, hdata.unique hpushes⟩

-- Five has an opcode of its own, so it is refused as a payload.
theorem minimal_push_exact_five :
    ∃ other : Instruction, parse .locking ⟨other.encode⟩ = .ok [other] ∧ other.Pushes [0x05] ∧
      other.encode.length < 2 := by
  have hparse : parse .locking ⟨[0x01, 0x05]⟩ = .ok [⟨0x01, [0x05], 0⟩] := by decide +kernel
  have hrule := (minimal_push_exact .locking).1 _ _ hparse _ List.mem_cons_self (by decide)
  by_contra hnone
  exact absurd (hrule.2.mpr hnone) (by decide +kernel)

end Program

end Bitcoin
