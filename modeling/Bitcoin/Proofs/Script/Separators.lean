import Bitcoin.Proofs.Script.Walk
import Mathlib.Data.List.Basic

/-!
# Scripts Without Code Separators

What a signature commits to leaves the code separators out. They are left out as chunks: a
byte of a payload may well be the one that a code separator is, and it stays.

Taking bytes out of a script could make what stood behind them mean something else. It does
not here, because a chunk is read back whatever follows it, and because what stops the
decoding is a push that runs past the end of the script. Such a push does not get any longer
by what is taken out before it, and it does not get any shorter either, since it is the end
that is kept. So any selection of the chunks, with the tail behind it, is cut into just these
chunks and this tail again.

## Main definitions

* `Chunk.withoutSeparators`: The chunks that are no code separators.
* `Script.Strips`: What is left of a script, by its chunks.

## Theorems

* `Script.Splits.filter`: A selection of the chunks of a script.
* `Script.strips_iff`: There is one way to leave the separators out.
* `Chunk.payloads_withoutSeparators`: No payload gets lost.
* `Program.unparse_filter_place`: A selection of the instructions of a program.
* `Script.withoutSeparators_exact`: What is left of a script.
-/

namespace Bitcoin

/-- The chunks that are no code separators. -/
def Chunk.withoutSeparators (chunks : List Chunk) : List Chunk :=
  chunks.filter (·.op ≠ Opcode.codeSeparator)

/-- The second script is what is left of the first one without its code separators: all its
    other chunks in their order, and the bytes behind the chunks if it does not end with one. -/
def Script.Strips (script kept : Script) : Prop :=
  ∃ chunks tail, script.Splits chunks tail ∧
    kept.bytes = (Chunk.withoutSeparators chunks).flatMap Chunk.encode ++ tail

namespace Script

variable {script : Script} {chunks : List Chunk} {tail : Bytes}

/-- Any chunks of a script, with what is left behind them, are cut in the same way as in the
    script. -/
theorem Splits.filter (h : script.Splits chunks tail) (keep : Chunk → Bool) :
    Splits ⟨(chunks.filter keep).flatMap Chunk.encode ++ tail⟩ (chunks.filter keep) tail where
  bytes := rfl
  formed := fun chunk hmem => h.formed chunk (List.mem_filter.mp hmem).1
  ends := h.ends

/-- The chunks that stay are those that are no code separators. -/
theorem Splits.withoutSeparators (h : script.Splits chunks tail) :
    script.withoutSeparators.Splits (Chunk.withoutSeparators chunks) tail := by
  have hscript : script.withoutSeparators
      = ⟨(Chunk.withoutSeparators chunks).flatMap Chunk.encode ++ tail⟩ := by
    rw [Script.withoutSeparators, splits_iff.mp h]
    rfl
  rw [hscript]
  exact h.filter _

-- A script is known by its cut.
theorem Splits.eq {script' : Script} (h : script.Splits chunks tail)
    (h' : script'.Splits chunks tail) : script = script' := by
  cases script
  cases script'
  exact congrArg Script.mk (h.bytes.trans h'.bytes.symm)

/-- A script has one cut, so one script is left of it, which is the one that is computed. -/
theorem strips_iff {kept : Script} : script.Strips kept ↔ kept = script.withoutSeparators := by
  rcases hsplit : Chunk.split script.bytes with ⟨chunks, tail⟩
  have hsplits : script.Splits chunks tail := splits_iff.mpr hsplit
  have hbytes := hsplits.withoutSeparators.bytes
  constructor
  · rintro ⟨chunks', tail', hcut, hkept⟩
    obtain ⟨rfl, rfl⟩ := hsplits.unique_iff.mp hcut
    cases kept
    exact congrArg Script.mk (hkept.trans hbytes.symm)
  · rintro rfl
    exact ⟨chunks, tail, hsplits, hbytes⟩

end Script

namespace Chunk

/-- Separators are taken out once. -/
theorem withoutSeparators_idem (chunks : List Chunk) :
    withoutSeparators (withoutSeparators chunks) = withoutSeparators chunks := by
  simp [withoutSeparators]

/-- A code separator has no payload, so all payloads stay, whatever bytes are in them. -/
theorem payloads_withoutSeparators {chunks : List Chunk}
    (h : ∀ chunk ∈ chunks, chunk.WellFormed) :
    (withoutSeparators chunks).filterMap data = chunks.filterMap data := by
  rw [withoutSeparators, List.filterMap_filter]
  refine List.filterMap_congr fun chunk hmem => ?_
  by_cases hop : chunk.op = Opcode.codeSeparator
  · -- An opcode that has a payload is below the one of the separator.
    have hpush : Opcode.isPush chunk.op = false := by
      rw [hop]
      rfl
    have hformed := h chunk hmem
    rw [WellFormed.eq_def] at hformed
    split at hformed
    · next hdata => simp [hop, hdata]
    · exact absurd (hformed.1.symm.trans hpush) (by decide)
  · simp [hop]

end Chunk

/-- Instructions that are selected by their opcodes are written as the chunks that are. -/
theorem Program.unparse_filter_place (keep : UInt8 → Bool) (offset : Nat) (chunks : List Chunk) :
    unparse ((place offset chunks).filter fun instruction => keep instruction.op)
      = ⟨(chunks.filter fun chunk => keep chunk.op).flatMap Chunk.encode⟩ := by
  rw [unparse]
  refine congrArg Script.mk ?_
  induction chunks generalizing offset with
  | nil => rfl
  | cons chunk chunks ih =>
      rw [place, List.filter_cons, List.filter_cons]
      by_cases hkeep : keep chunk.op = true
      · rw [if_pos hkeep, if_pos hkeep, List.flatMap_cons, List.flatMap_cons, ih]
        rfl
      · rw [if_neg hkeep, if_neg hkeep, ih]

namespace Script

/-- A script without its code separators consists of its other chunks, each with the bytes
    it had, in the same order and with the same tail; no payload gets lost. It is cut into
    just these chunks and this tail again, which is also what decoding it comes to, and
    leaving out the separators once more changes nothing. Where the script has a program,
    that is the script of the other instructions. -/
theorem withoutSeparators_exact (script : Script) (role : Role) :
    ∃ chunks tail,
      (∀ chunks' tail', script.Splits chunks' tail' ↔ chunks' = chunks ∧ tail' = tail) ∧
      script.withoutSeparators.bytes
        = (Chunk.withoutSeparators chunks).flatMap Chunk.encode ++ tail ∧
      (Chunk.withoutSeparators chunks).filterMap Chunk.data = chunks.filterMap Chunk.data ∧
      (∀ chunks' tail', script.withoutSeparators.Splits chunks' tail' ↔
        chunks' = Chunk.withoutSeparators chunks ∧ tail' = tail) ∧
      script.withoutSeparators.chunks = (if tail = [] then .ok (Chunk.withoutSeparators chunks)
        else .error
          (.truncatedPush ((Chunk.withoutSeparators chunks).flatMap Chunk.encode).length)) ∧
      script.withoutSeparators.withoutSeparators = script.withoutSeparators ∧
      ∀ program, Program.parse role script = .ok program →
        script.withoutSeparators
          = Program.unparse (program.filter (·.op ≠ Opcode.codeSeparator)) := by
  rcases hsplit : Chunk.split script.bytes with ⟨chunks, tail⟩
  have hsplits : script.Splits chunks tail := splits_iff.mpr hsplit
  have hkept := hsplits.withoutSeparators
  have hdecoded := script.withoutSeparators.chunks_eq
  rw [splits_iff.mp hkept, Nat.zero_add] at hdecoded
  have hagain := hkept.withoutSeparators
  rw [Chunk.withoutSeparators_idem] at hagain
  refine ⟨chunks, tail, fun _ _ => hsplits.unique_iff, hkept.bytes,
    Chunk.payloads_withoutSeparators hsplits.formed, fun _ _ => hkept.unique_iff, hdecoded,
    hagain.eq hkept, fun program hprogram => ?_⟩
  -- A script that has a program is the row of its chunks.
  rcases Program.parse_eq_ok.mp hprogram with ⟨whole, hwhole, rfl⟩
  rcases chunks_eq_ok.mp hwhole with ⟨hbytes, hformed⟩
  have hwhole : script.Splits whole [] := ⟨hbytes.trans (List.append_nil _).symm, hformed, .inl rfl⟩
  have hselected := hwhole.withoutSeparators.bytes
  rw [List.append_nil] at hselected
  rw [Program.unparse_filter_place fun op => decide (op ≠ Opcode.codeSeparator)]
  exact congrArg Script.mk hselected

-- The separators at both ends go, and the byte between them that is a payload stays.
theorem withoutSeparators_exact_payload :
    let script : Script := ⟨[0xab, 0x01, 0xab, 0x76, 0xab]⟩
    let program : Program := [⟨0xab, [], 0⟩, ⟨0x01, [0xab], 1⟩, ⟨0x76, [], 3⟩, ⟨0xab, [], 4⟩]
    Program.parse .locking script = .ok program ∧
      script.withoutSeparators = ⟨[0x01, 0xab, 0x76]⟩ := by
  intro script program
  have hparse : Program.parse .locking script = .ok program := by decide +kernel
  rcases withoutSeparators_exact script .locking with ⟨_, _, _, _, _, _, _, _, hprogram⟩
  exact ⟨hparse, hprogram program hparse⟩

end Script

end Bitcoin
