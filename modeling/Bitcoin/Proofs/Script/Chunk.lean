import Bitcoin.Proofs.Bytes
import Bitcoin.Script.Basic
import Mathlib.Data.List.Flatten

/-!
# Taking a Script Apart Loses Nothing

A chunk is written as it was read, whichever of the pushes it is, so the chunks of
a script and what could not be decoded give the script again. Leaving out chunks
can then only make it shorter.

## Theorems

* `Chunk.encode_of_first?`: The chunk in front and the rest are the script.
* `Chunk.flatMap_encode_split`: So are all chunks and the tail.
* `Script.length_withoutSeparators_le`: Leaving out the code separators.
-/

namespace Bitcoin

/-- What is split off and the rest are the whole. -/
theorem Bytes.split?_eq_some {count : Nat} {bytes taken rest : Bytes}
    (h : split? count bytes = some (taken, rest)) :
    taken.length = count ∧ taken ++ rest = bytes := by
  rw [split?] at h
  split at h
  · exact absurd h (by simp only [reduceCtorEq, not_false_eq_true])
  · next hlength =>
      simp only [Option.some.injEq, Prod.mk.injEq] at h
      rcases h with ⟨rfl, rfl⟩
      have hle := List.length_take_le count bytes
      exact ⟨by omega, List.take_append_drop count bytes⟩

namespace Push

/-- Only three opcodes have a length behind them. -/
theorem lengthWidth_eq_zero {op : UInt8} (h : ¬(Opcode.pushData1 ≤ op ∧ op ≤ Opcode.pushData4)) :
    lengthWidth op = 0 := by
  have hne : ∀ marker : UInt8, Opcode.pushData1 ≤ marker ∧ marker ≤ Opcode.pushData4 →
      op ≠ marker := by
    rintro marker hmarker rfl
    exact h hmarker
  rw [lengthWidth, if_neg (hne _ (by decide)), if_neg (hne _ (by decide)),
    if_neg (hne _ (by decide))]

theorem lengthWidth_of_not_isPush {op : UInt8} (h : Opcode.isPush op = false) :
    lengthWidth op = 0 :=
  lengthWidth_eq_zero fun hc => absurd (decide_eq_true hc.2) (Bool.eq_false_iff.mp h)

/-- The length and the payload behind a push opcode, and the rest, are the whole. -/
theorem payload?_eq_some {op : UInt8} {bytes data rest : Bytes}
    (h : payload? op bytes = some (data, rest)) :
    Bytes.fixedLE (lengthWidth op) data.length ++ data ++ rest = bytes := by
  rw [payload?] at h
  by_cases hdirect : op ≤ Opcode.maxDirect
  · rw [if_pos hdirect] at h
    have hwidth : lengthWidth op = 0 := by
      refine lengthWidth_eq_zero fun hc => ?_
      exact absurd (UInt8.le_trans hc.1 hdirect) (by decide)
    rw [hwidth, Bytes.fixedLE, List.nil_append]
    exact (Bytes.split?_eq_some h).2
  · -- The length is read from the bytes behind the opcode, as many as it is written in.
    rw [if_neg hdirect] at h
    rcases hlength : Bytes.split? (lengthWidth op) bytes with _ | ⟨length, behind⟩
    · rw [hlength] at h
      exact absurd h (by simp only [reduceCtorEq, not_false_eq_true])
    · rw [hlength] at h
      rcases Bytes.split?_eq_some hlength with ⟨hwidth, hbytes⟩
      rcases Bytes.split?_eq_some h with ⟨hdata, hbehind⟩
      rw [hdata, ← hwidth, Bytes.fixedLE_toNatLE, List.append_assoc, hbehind, hbytes]

end Push

namespace Chunk

theorem length_encode (chunk : Chunk) : chunk.encode.length = chunk.size := by
  rw [encode, size, List.length_append, List.length_cons, Bytes.length_fixedLE]
  omega

/-- The chunk in front, written again, and the rest are the script. -/
theorem encode_of_first? {bytes rest : Bytes} {chunk : Chunk}
    (h : first? bytes = some (chunk, rest)) : chunk.encode ++ rest = bytes := by
  rcases bytes with _ | ⟨op, behind⟩
  · exact absurd h (by simp only [first?, reduceCtorEq, not_false_eq_true])
  rw [first?] at h
  by_cases hpush : Opcode.isPush op = true
  · rw [if_pos hpush] at h
    rcases hpayload : Push.payload? op behind with _ | ⟨data, after⟩
    · rw [hpayload] at h
      exact absurd h (by simp only [reduceCtorEq, not_false_eq_true])
    · rw [hpayload] at h
      simp only [Option.some.injEq, Prod.mk.injEq] at h
      rcases h with ⟨rfl, rfl⟩
      exact congrArg (op :: ·) (Push.payload?_eq_some hpayload)
  · rw [if_neg hpush] at h
    simp only [Option.some.injEq, Prod.mk.injEq] at h
    rcases h with ⟨rfl, rfl⟩
    -- An opcode that is no push stands alone, with neither length nor payload.
    rw [encode, Push.lengthWidth_of_not_isPush (Bool.eq_false_iff.mpr hpush)]
    rfl

/-- The chunks in front of a truncated push, written again, and what is left from it on
    are the script. -/
theorem flatMap_encode_split (bytes : Bytes) :
    (split bytes).1.flatMap encode ++ (split bytes).2 = bytes := by
  fun_induction split bytes with
  | case1 bytes hfirst => rfl
  | case2 bytes chunk rest hfirst chunks tail hsplit ih =>
      rw [hsplit] at ih
      rw [List.flatMap_cons, List.append_assoc, ih]
      exact encode_of_first? hfirst

end Chunk

/-- Leaving out the code separators never makes a script longer. -/
theorem Script.length_withoutSeparators_le (script : Script) :
    script.withoutSeparators.length ≤ script.length := by
  have hkept : (script.withoutSeparators.bytes).Sublist
      ((Chunk.split script.bytes).1.flatMap Chunk.encode ++ (Chunk.split script.bytes).2) :=
    (List.filter_sublist.flatMap Chunk.encode).append_right _
  rw [Chunk.flatMap_encode_split] at hkept
  exact hkept.length_le

end Bitcoin
