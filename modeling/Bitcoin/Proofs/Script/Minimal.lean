import Bitcoin.Proofs.Machine.Pushes
import Bitcoin.Proofs.Script.Decoding

/-!
# Built Pushes Are the Shortest

A push that is built has the smallest header that can hold the length of its payload. The
rule on shortest pushes asks for just that header, except that it knows of a few payloads
with an opcode of their own: one byte that is a small number or minus one. The builder
does not look for these. Every other payload, when it is built into a script, passes the
rule.

## Theorems

* `Push.length_encode_le`: A built push is not much longer than its payload.
* `Push.admits_of_header`: A header has the form that the length asks for.
* `Push.instruction_of_encode`: A built push is one instruction.
* `Push.parse_of_encode`: That is the shortest.
-/

namespace Bitcoin

namespace Push

/-- The header takes at most five bytes. -/
theorem length_encode_le {data push : Bytes} (h : encode data = .ok push) :
    push.length ≤ data.length + 5 := by
  rcases Result.bind_eq_ok.mp h with ⟨front, hheader, hpush⟩
  cases hpush
  rcases header_eq_ok hheader with ⟨op, -, -, rfl⟩
  have hwidth := lengthWidth_le op
  simp only [List.length_append, List.length_cons, Bytes.length_fixedLE]
  omega

/-- The opcode of a header has the form that the length asks for. The cases are the sizes
    of the header. -/
theorem admits_of_header {length : Nat} {op : UInt8} {tail : Bytes}
    (h : header length = .ok (op :: tail)) : (PushForm.ofLength length).admits op = true := by
  have hdirect : Opcode.maxDirect.toNat = 75 := rfl
  rw [header, hdirect] at h
  rw [PushForm.ofLength, hdirect]
  split at h
  · next hsmall =>
      cases h
      by_cases hzero : length = 0
      · rw [if_pos hzero, hzero]
        rfl
      · rw [if_neg hzero, if_pos hsmall]
        exact decide_eq_true (UInt8.toNat_ofNat_of_lt' (Nat.lt_of_le_of_lt hsmall (by decide)))
  · -- The branches of the two sides have the same bounds, so they are met in step.
    next hlong =>
      rw [if_neg (by omega), if_neg hlong]
      split at h
      · next hone =>
          cases h
          rw [if_pos hone]
          rfl
      · next htwo =>
          rw [if_neg htwo]
          split at h
          · next hfits =>
              cases h
              rw [if_pos hfits]
              rfl
          · next hwide =>
              rw [if_neg hwide]
              rfl

/-- A built push is read as one instruction with the payload, in the form that the length
    asks for. -/
theorem instruction_of_encode {data push : Bytes} (role : Role) (h : encode data = .ok push) :
    ∃ op, op ≤ Opcode.pushData4 ∧ Program.parse role ⟨push⟩ = .ok [⟨op, data, 0⟩] ∧
      (PushForm.ofLength data.length).admits op = true := by
  rcases chunks_of_encode h with ⟨op, hop, hchunks⟩
  refine ⟨op, hop, Program.parse_eq_ok.mpr ⟨_, hchunks, rfl⟩, ?_⟩
  rcases Result.bind_eq_ok.mp h with ⟨front, hheader, hpush⟩
  cases hpush
  -- The header begins with the opcode, since the push does.
  rcases header_eq_ok hheader with ⟨first, -, -, rfl⟩
  have hbytes := (Script.chunks_eq_ok.mp hchunks).1
  rw [List.flatMap_singleton] at hbytes
  cases (List.cons.inj hbytes).1
  exact admits_of_header hheader

/-- The rule on shortest pushes lets it through unless the payload has an opcode of its own. -/
theorem parse_of_encode {data push : Bytes} (role : Role) (h : encode data = .ok push)
    (hform : PushForm.shortest data = PushForm.ofLength data.length) :
    ∃ instruction, Program.parse role ⟨push⟩ = .ok [instruction] ∧
      instruction.requireMinimal = .ok () := by
  rcases instruction_of_encode role h with ⟨op, -, hparse, hadmits⟩
  refine ⟨⟨op, data, 0⟩, hparse, ?_⟩
  rw [Instruction.requireMinimal_eq_ok, hform]
  exact hadmits

end Push

end Bitcoin
