import Bitcoin.Proofs.Machine.Shortest
import Bitcoin.Proofs.Script.Building

/-!
# Numbers That Are Pushed

Three tables speak of numbers from their own side. Whoever builds a script writes some
numbers as opcodes and the others as payloads. The rule on shortest pushes refuses some
payloads, because there is an opcode for them. The opcodes themselves push what is written
for their numbers. All three mean the same numbers: minus one, and those from one to
sixteen.

So whatever number is added to a script, one instruction is added, and it passes the rule.
What it pushes is the minimal string of the number, from which the number is read again.
Zero is a payload, the empty one, and its opcode is just the header of it.

## Theorems

* `Script.addNumber_opcode`, `Script.addNumber_payload`: The two kinds of addition.
* `Number.isSmallNumber_encode_iff`: The payloads that are refused.
* `Script.exists_addNumber`: One instruction is added.
* `Script.addNumber_pushes`: What is added is pushed and read back.
-/

namespace Bitcoin

/-- Minus one and the numbers from one to sixteen are added as opcodes of their own. -/
theorem Script.addNumber_opcode {n : Int} (h : n = -1 ∨ 1 ≤ n ∧ n ≤ 16) :
    ∃ op, Opcode.operation op = .pushNumber n ∧
      ∀ script : Script, script.addNumber n = .ok (script.add [op]) := by
  rcases h with rfl | ⟨hlow, hhigh⟩
  · exact ⟨Opcode.negativeOne, rfl, fun _ => rfl⟩
  · have hsmall := (Addition.small_pushes n.toNat (by omega) (by omega)).2.2
    rw [Int.toNat_of_nonneg (by omega)] at hsmall
    refine ⟨Opcode.small n.toNat, hsmall, fun script => ?_⟩
    rw [addNumber, if_neg (by omega), if_neg (by omega), if_pos ⟨hlow, hhigh⟩]
    rfl

/-- The numbers that are added as opcodes are those whose strings are refused as payloads. -/
theorem Number.isSmallNumber_encode_iff {n : Int} :
    Element.IsSmallNumber (encode n) ↔ n = -1 ∨ 1 ≤ n ∧ n ≤ 16 := by
  constructor
  · intro h
    rcases h.eq_byte with ⟨byte, hbyte, hsmall⟩
    -- One byte is read back as the number, and these bytes are read as minus one and as one to
    -- sixteen.
    have hread := decode_encode n
    rw [hbyte] at hread
    rcases hsmall with rfl | ⟨hlow, hhigh⟩
    · exact .inl hread.symm
    · have hall := Opcode.of_le (p := fun byte =>
        1 ≤ byte → 1 ≤ decode [byte] ∧ decode [byte] ≤ 16) hhigh (by decide)
      rw [← hread]
      exact .inr (hall hlow)
  · intro h
    rcases Script.addNumber_opcode h with ⟨op, hoperation, -⟩
    exact (Opcode.of_pushNumber hoperation).2

-- Nothing above the opcode of sixteen pushes a number of its own.
theorem Opcode.le_sixteen_of_pushNumber {op : UInt8} {n : Int}
    (h : Opcode.operation op = .pushNumber n) : op ≤ Opcode.sixteen := by
  have hall := Opcode.of_all (p := fun op => (Opcode.operation op).isPush = true →
    op ≤ Opcode.sixteen ∨ Opcode.operation op = .reserved) op (by decide +kernel)
  rw [h] at hall
  exact (hall rfl).resolve_right nofun

/-- A small number is pushed by its opcode alone. -/
theorem Instruction.pushed_of_number {rules : Rules} {instruction : Instruction} {n : Int}
    (hoperation : instruction.operation = .pushNumber n)
    (hsize : instruction.data.length ≤ rules.limits.elementSize) :
    instruction.pushed rules = .ok (Number.encode n) := by
  rw [pushed, if_neg (Nat.not_lt.mpr hsize), hoperation]
  rfl

namespace Script

variable {n : Int}

/-- Every other number is added as a payload, zero as the empty one. -/
theorem addNumber_payload (h : ¬Element.IsSmallNumber (Number.encode n)) (script : Script) :
    script.addNumber n = script.addPush (Number.encode n) := by
  rw [Number.isSmallNumber_encode_iff, not_or] at h
  by_cases hzero : n = 0
  · rw [hzero, Number.encode_zero]
    rfl
  · rw [addNumber, if_neg hzero, if_neg h.1, if_neg h.2]

/-- A number whose string is not too long is added as one instruction, the same behind every
    script: as its opcode or as its shortest payload. -/
theorem exists_addNumber (role : Role) (h : (Number.encode n).length < 2 ^ 32) :
    ∃ bytes instruction, (∀ script : Script, script.addNumber n = .ok (script.add bytes)) ∧
      Program.parse role ⟨bytes⟩ = .ok [instruction] ∧ instruction.op ≤ Opcode.sixteen ∧
      (instruction.operation = .pushNumber n ∧ instruction.data = [] ∨
        instruction.operation = .pushData ∧ instruction.data = Number.encode n ∧
          instruction.requireMinimal = .ok ()) := by
  -- A small number has an opcode, and any other one is pushed as its bytes.
  by_cases hsmall : Element.IsSmallNumber (Number.encode n)
  · rcases addNumber_opcode (Number.isSmallNumber_encode_iff.mp hsmall) with
      ⟨op, hoperation, hadd⟩
    have hbare : Opcode.isPush op = false := (Opcode.of_pushNumber hoperation).1
    have hparse := @Program.parse_chunk ⟨op, none⟩ hbare role
    rw [Chunk.encode_none hbare] at hparse
    exact ⟨[op], ⟨op, [], 0⟩, hadd, hparse, Opcode.le_sixteen_of_pushNumber hoperation,
      .inl ⟨hoperation, rfl⟩⟩
  · rcases Push.exists_encode_iff.mpr h with ⟨bytes, hencode⟩
    rcases Push.instruction_of_encode role hencode with ⟨op, hop, hparse, hadmits⟩
    have hform : (⟨op, Number.encode n, 0⟩ : Instruction).requireMinimal = .ok () := by
      rw [Instruction.requireMinimal_eq_ok, PushForm.admits_shortest_iff]
      exact ⟨hsmall, hadmits⟩
    refine ⟨bytes, ⟨op, Number.encode n, 0⟩, fun script => ?_, hparse,
      UInt8.le_trans hop (by decide), .inr ⟨Opcode.operation_eq_pushData hop, rfl, hform⟩⟩
    rw [addNumber_payload hsmall, addPush, hencode]
    rfl

/-- Whatever word is added to a script as a number, one instruction is added, and no payload
    that it has is refused by the rule on shortest pushes. Under any rules that let elements be
    nine bytes long, as those of the default limits do, it does not fail where it takes effect,
    and all it does is to push the minimal string of the number; a script of nothing else does
    the same to every stack that has room for it. Whoever reads nine bytes or more as a number
    gets the number from that string, under the rule on minimal strings. -/
theorem addNumber_pushes (n : Int64) (role : Role) (rules : Rules)
    (hsize : 9 ≤ rules.limits.elementSize) :
    ∃ bytes instruction, (∀ script : Script, script.addNumber n.toInt = .ok (script.add bytes)) ∧
      Program.parse role ⟨bytes⟩ = .ok [instruction] ∧
      (instruction.operation = .pushData → instruction.requireMinimal = .ok ()) ∧
      (∀ frame : Frame, frame.isLive = true → instruction.execute rules frame =
        .ok () { frame with stack := Number.encode n.toInt :: frame.stack }) ∧
      (∀ stack : Stack, stack.length < rules.limits.stackDepth →
        Script.eval? rules role ⟨bytes⟩ stack = some (Number.encode n.toInt :: stack)) ∧
      ∀ width, 9 ≤ width →
        NumberRule.read ⟨width, true⟩ (Number.encode n.toInt) = .ok n.toInt := by
  have hlength := Number.length_encode_le (Number.fits_word n)
  rcases exists_addNumber role (n := n.toInt) (by omega) with
    ⟨bytes, instruction, hadd, hparse, hop, hkind⟩
  -- Either way the instruction pushes the bytes of the number, which are at most nine.
  have hpushed : instruction.pushed rules = .ok (Number.encode n.toInt) := by
    rcases hkind with ⟨hoperation, hdata⟩ | ⟨hoperation, hdata, hform⟩
    · refine Instruction.pushed_of_number hoperation ?_
      rw [hdata]
      exact Nat.zero_le _
    · rw [← hdata] at hlength ⊢
      exact Instruction.pushed_of_minimal hoperation (by omega) fun _ => hform
  refine ⟨bytes, instruction, hadd, hparse, ?_, ?_, ?_, ?_⟩
  · intro hoperation
    rcases hkind with ⟨hnumber, -⟩ | ⟨-, -, hform⟩
    · rw [hoperation] at hnumber
      cases hnumber
    · exact hform
  · intro frame hlive
    rw [Instruction.execute_push hop hlive, hpushed]
  · intro stack hdepth
    rw [Script.eval?_of_parse hparse, Program.eval?_push (List.forall_mem_singleton.mpr hop)]
    have hall := Program.pushed_cons_eq_ok.mpr
      ⟨_, [], hpushed, Program.pushed_nil_eq_ok.mpr rfl, rfl⟩
    exact ⟨_, hall, rfl, .inr hdepth⟩
  · intro width hwidth
    refine Number.read_encode (Nat.lt_of_lt_of_le (Number.fits_word n) ?_) true
    exact Nat.pow_le_pow_right (by decide) hwidth

-- The least word under the default limits, with the rule on shortest pushes.
theorem addNumber_pushes_least :
    9 ≤ ({ flags := .minimalData } : Rules).limits.elementSize ∧
      ({ flags := .minimalData } : Rules).has .minimalData = true ∧
      ∃ bytes instruction, (∀ script : Script,
        script.addNumber Int64.minValue.toInt = .ok (script.add bytes)) ∧
        Program.parse .unlocking ⟨bytes⟩ = .ok [instruction] ∧
        Script.eval? { flags := .minimalData } .unlocking ⟨bytes⟩ [] =
          some [Number.encode (-0x8000000000000000)] := by
  rcases addNumber_pushes Int64.minValue .unlocking { flags := .minimalData } (by decide) with
    ⟨bytes, instruction, hadd, hparse, -, -, heval, -⟩
  exact ⟨by decide, by decide, bytes, instruction, hadd, hparse, heval [] (by decide)⟩

end Script

end Bitcoin
