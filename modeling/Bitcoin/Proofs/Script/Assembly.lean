import Bitcoin.Proofs.Hex
import Bitcoin.Proofs.Script.Names
import Bitcoin.Proofs.Script.Walk
import Bitcoin.Script.Assembly

/-!
# Scripts as Text

The words of a script are read back as its chunks, one by one. For a name this is the lookup,
and for a payload the reading of its digits; the one is never taken for the other, since all
names begin with a letter that is no digit. Blanks are what keeps the words apart, and there
are none within a word.

Text does not say which header a payload had, so it can only be read back where that was the
one that is built; and it does not say which of the unassigned opcodes one was. Scripts
without such headers and opcodes are read back as they were, and no text stands for any
other script.

## Main definitions

* `Blank.IsWord`: What can stand between blanks.
* `Chunk.Canonical`, `Script.Canonical`: What text does not lose.

## Theorems

* `Blank.words_intercalate`: Words are found again.
* `Chunk.ofWord_word`, `Chunk.exists_of_ofWord`: What the word for a chunk stands for, and
  what any word does.
* `Script.ofAsm_toAsm`, `Script.canonical_of_ofAsm`: The same for scripts.
* `Script.asm_exact`: Which scripts can be written as text.
-/

namespace Bitcoin

namespace Blank

/-- What can stand as a word between blanks. -/
def IsWord (text : String) : Prop :=
  text.toList ≠ [] ∧ ∀ c ∈ text.toList, isBlank c = false

/-- Visible characters are no blanks. -/
theorem isBlank_eq_false {c : Char} (h : 0x21 ≤ c.toNat ∧ c.toNat ≤ 0x7e) :
    isBlank c = false := by
  have hchars : ∀ n ∈ chars, ¬(0x21 ≤ n ∧ n ≤ 0x7e) := by decide
  exact Bool.eq_false_iff.mpr fun hblank => hchars c.toNat (List.contains_iff_mem.mp hblank) h

-- What has no blanks is collected as part of one word.
theorem collect_append {front : List Char} (h : ∀ c ∈ front, isBlank c = false)
    (word : List Char) (words : List String) (rest : List Char) :
    collect word words (front ++ rest) = collect (front.reverse ++ word) words rest := by
  induction front generalizing word with
  | nil => rfl
  | cons c front ih =>
      rcases List.forall_mem_cons.mp h with ⟨hc, hfront⟩
      have hvisible : ¬isBlank c = true := Bool.eq_false_iff.mp hc
      rw [List.cons_append, collect, if_neg hvisible, ih hfront, List.reverse_cons,
        List.append_assoc, List.singleton_append]

-- And a blank ends it.
theorem collect_blank (word : List Char) (words : List String) (rest : List Char) :
    collect word words (" ".toList ++ rest) = collect [] (addWord word words) rest :=
  rfl

/-- The letters of a word are gathered from its end. -/
theorem addWord_reverse {text : String} (h : IsWord text) (words : List String) :
    addWord text.toList.reverse words = text :: words := by
  have hsome : ¬text.toList.reverse.isEmpty = true := by
    rw [List.isEmpty_reverse, List.isEmpty_iff]
    exact h.1
  rw [addWord, if_neg hsome, List.reverse_reverse, String.ofList_toList]

/-- Words with a blank between them are found again. -/
theorem collect_intercalate {texts : List String} (h : ∀ text ∈ texts, IsWord text)
    (words : List String) :
    collect [] words (" ".intercalate texts).toList = words.reverse ++ texts := by
  induction texts generalizing words with
  | nil => rw [String.intercalate_nil]; exact (List.append_nil _).symm
  | cons text texts ih =>
      rcases List.forall_mem_cons.mp h with ⟨htext, htexts⟩
      -- The last word has no blank behind it.
      cases texts with
      | nil =>
          have hcollect := collect_append htext.2 [] words []
          rw [List.append_nil, List.append_nil] at hcollect
          rw [String.intercalate_singleton, hcollect, collect, addWord_reverse htext,
            List.reverse_cons]
      | cons next texts =>
          rw [String.intercalate_cons_cons, String.toList_append, String.toList_append,
            List.append_assoc, collect_append htext.2, List.append_nil, collect_blank,
            addWord_reverse htext, ih htexts, List.reverse_cons, List.append_assoc,
            List.singleton_append]

/-- Words with a blank between any two are found again. -/
theorem words_intercalate {texts : List String} (h : ∀ text ∈ texts, IsWord text) :
    words (" ".intercalate texts) = texts :=
  collect_intercalate h []

end Blank

/-- A sequence of results is no error if none of them is. -/
theorem Result.mapM_eq_ok {ε α β : Type} {f : α → Except ε β} {xs : List α} {ys : List β} :
    xs.mapM f = .ok ys ↔ List.Forall₂ (fun x y => f x = .ok y) xs ys := by
  induction xs generalizing ys with
  | nil =>
      rw [List.mapM_nil, List.forall₂_nil_left_iff]
      exact ⟨fun h => (Except.ok.inj h).symm, fun h => congrArg Except.ok h.symm⟩
  | cons x xs ih =>
      rw [List.mapM_cons, Result.bind_eq_ok, List.forall₂_cons_left_iff]
      constructor
      · rintro ⟨y, hy, hrest⟩
        rcases Result.bind_eq_ok.mp hrest with ⟨others, hothers, hys⟩
        cases hys
        exact ⟨y, others, hy, ih.mp hothers, rfl⟩
      · rintro ⟨y, others, hy, hothers, rfl⟩
        exact ⟨y, hy, Result.bind_eq_ok.mpr ⟨others, ih.mpr hothers, rfl⟩⟩

namespace Chunk

variable {chunk : Chunk} {word : String} {bytes : Bytes}

/-- A chunk whose payload, if it has one, stands behind the header that is built for its
    length, and whose opcode is not one of the unassigned ones that share a name. -/
def Canonical (chunk : Chunk) : Prop :=
  (∀ data, chunk.data = some data → Push.encode data = .ok chunk.encode) ∧
    ¬(0xba ≤ chunk.op ∧ chunk.op ≤ 0xfe)

-- The opcodes of payloads are assigned.
theorem canonical_of_encode {op : UInt8} {data : Bytes} (hop : op ≤ Opcode.pushData4)
    (h : Push.encode data = .ok (encode ⟨op, some data⟩)) : Canonical ⟨op, some data⟩ := by
  refine ⟨fun _ hdata => ?_, fun hc => absurd (UInt8.le_trans hc.1 hop) (by decide)⟩
  cases hdata
  exact h

theorem canonical_bare {op : UInt8} (h : Opcode.HasName op) : (bare op).Canonical := by
  rcases of_needsPayload h.1 with rfl | ⟨hzero, -⟩
  · exact canonical_of_encode (by decide) rfl
  · refine ⟨fun data hdata => ?_, h.2⟩
    rw [bare, if_neg hzero] at hdata
    cases hdata

-- No digit is the first letter of a name, or a blank.
theorem digit_visible : ∀ value < 16, Hex.digit value ≠ 'O' ∧
    0x21 ≤ (Hex.digit value).toNat ∧ (Hex.digit value).toNat ≤ 0x7e := by
  decide

theorem exists_digit_of_mem {data : Bytes} {c : Char} (h : c ∈ (Hex.encode data).toList) :
    ∃ value < 16, Hex.digit value = c := by
  rw [Hex.toList_encode] at h
  rcases List.mem_map.mp h with ⟨value, hvalue, hc⟩
  exact ⟨value, Hex.lt_of_mem_halves hvalue, hc⟩

/-- No payload looks like a name. -/
theorem ofName?_encode (data : Bytes) : Opcode.ofName? (Hex.encode data) = none := by
  rcases hname : Opcode.ofName? (Hex.encode data) with _ | op
  · rfl
  · have hfirst := (Opcode.of_mem_names (Opcode.hasName_of_ofName? hname).2).1
    rcases exists_digit_of_mem (List.mem_of_mem_head? hfirst) with ⟨value, hvalue, hdigit⟩
    exact absurd hdigit (digit_visible value hvalue).1

/-- The word for a chunk has no blanks in it, and is not empty. -/
theorem isWord_word (chunk : Chunk) : Blank.IsWord chunk.word := by
  have hname (op : UInt8) : Blank.IsWord (Opcode.name op) := by
    rcases Opcode.of_mem_names (List.mem_of_getElem? (Opcode.getElem?_namePlace op)) with
      ⟨hfirst, hvisible⟩
    refine ⟨fun hempty => ?_, fun c hc => Blank.isBlank_eq_false (hvisible c hc)⟩
    rw [hempty] at hfirst
    cases hfirst
  rw [word.eq_def]
  split
  · exact hname _
  · -- A word that shows data consists of hex digits, and the data are not empty.
    next data hsome hdata =>
      refine ⟨fun hempty => ?_, fun c hc => ?_⟩
      · rw [Hex.toList_encode, List.map_eq_nil_iff] at hempty
        rcases data with _ | ⟨b, data⟩
        · exact hsome rfl
        · cases hempty
      · rcases exists_digit_of_mem hc with ⟨value, hvalue, rfl⟩
        exact Blank.isBlank_eq_false (digit_visible value hvalue).2
  · exact hname _

/-- The word for a chunk stands for its bytes, if it is canonical. -/
theorem ofWord_word (hformed : chunk.WellFormed) (h : chunk.Canonical) :
    Script.ofWord chunk.word = .ok chunk.encode := by
  rcases chunk with ⟨op, _ | _ | ⟨b, data⟩⟩
  · have hpush : Opcode.isPush op = false := hformed
    have hpayload : Script.needsPayload op = false := by simp [Script.needsPayload, hpush]
    rw [word, Script.ofWord, Opcode.ofName?_name ⟨hpayload, h.2⟩, encode_none hpush]
    rfl
  · -- The empty payload has a name, which is that of its header.
    have hencode : Push.encode [] = .ok [Opcode.zero] := rfl
    rw [word, Script.ofWord, Opcode.ofName?_name (by decide)]
    exact hencode.symm.trans (h.1 [] rfl)
  · rw [word, Script.ofWord, ofName?_encode, Hex.decode_encode]
    exact h.1 _ rfl

/-- Whatever a word stands for is a canonical chunk. -/
theorem exists_of_ofWord (h : Script.ofWord word = .ok bytes) :
    ∃ chunk : Chunk, chunk.WellFormed ∧ chunk.Canonical ∧ chunk.encode = bytes := by
  rw [Script.ofWord] at h
  split at h
  · -- The name of an opcode is tried first.
    next op hname =>
      cases h
      have hop := (Opcode.hasName_of_ofName? hname).1
      exact ⟨bare op, wellFormed_bare hop.1, canonical_bare hop, encode_bare hop.1⟩
  · split at h
    · -- A word that names none is a row of hex digits, and is pushed.
      next data hdata =>
        rcases Push.chunks_of_encode h with ⟨op, hop, hchunks⟩
        rcases Script.chunks_eq_ok.mp hchunks with ⟨hbytes, hformed⟩
        rw [List.flatMap_singleton] at hbytes
        exact ⟨⟨op, some data⟩, List.forall_mem_singleton.mp hformed,
          canonical_of_encode hop (hbytes ▸ h), hbytes.symm⟩
    · cases h

end Chunk

namespace Script

variable {script : Script} {text : String}

/-- A script that decodes to canonical chunks. -/
def Canonical (script : Script) : Prop :=
  ∃ chunks, script.chunks = .ok chunks ∧ ∀ chunk ∈ chunks, chunk.Canonical

/-- The words of a script that decodes are those of its chunks. -/
theorem toAsm_of_chunks {chunks : List Chunk} (h : script.chunks = .ok chunks) :
    script.toAsm = " ".intercalate (chunks.map Chunk.word) := by
  rcases chunks_eq_ok.mp h with ⟨hbytes, hformed⟩
  have hsplits : script.Splits chunks [] :=
    ⟨hbytes.trans (List.append_nil _).symm, hformed, .inl rfl⟩
  rw [toAsm, splits_iff.mp hsplits]
  exact congrArg " ".intercalate (List.append_nil _)

/-- The text of a canonical script is read as that script. -/
theorem ofAsm_toAsm (h : script.Canonical) : ofAsm script.toAsm = .ok script := by
  rcases h with ⟨chunks, hchunks, hcanonical⟩
  rcases chunks_eq_ok.mp hchunks with ⟨hbytes, hformed⟩
  have hwords : ∀ word ∈ chunks.map Chunk.word, Blank.IsWord word :=
    List.forall_mem_map.mpr fun chunk _ => chunk.isWord_word
  have hparts : (chunks.map Chunk.word).mapM ofWord = .ok (chunks.map Chunk.encode) := by
    rw [Result.mapM_eq_ok, List.forall₂_map_left_iff, List.forall₂_map_right_iff,
      List.forall₂_same]
    exact fun chunk hmem => Chunk.ofWord_word (hformed chunk hmem) (hcanonical chunk hmem)
  rw [ofAsm, toAsm_of_chunks hchunks, Blank.words_intercalate hwords, hparts]
  refine congrArg (fun bytes => Except.ok (Script.mk bytes)) ?_
  rw [hbytes, List.flatMap_def]

-- So what words in a row stand for are canonical chunks in a row.
theorem exists_chunks_of_words {words : List String} {parts : List Bytes}
    (h : List.Forall₂ (fun word bytes => ofWord word = .ok bytes) words parts) :
    ∃ chunks : List Chunk, parts = chunks.map Chunk.encode ∧
      (∀ chunk ∈ chunks, chunk.WellFormed) ∧ ∀ chunk ∈ chunks, chunk.Canonical := by
  induction h with
  | nil => exact ⟨[], rfl, nofun, nofun⟩
  | cons hword _ ih =>
      rcases Chunk.exists_of_ofWord hword with ⟨chunk, hformed, hcanonical, rfl⟩
      rcases ih with ⟨chunks, rfl, hformed', hcanonical'⟩
      exact ⟨chunk :: chunks, rfl, List.forall_mem_cons.mpr ⟨hformed, hformed'⟩,
        List.forall_mem_cons.mpr ⟨hcanonical, hcanonical'⟩⟩

/-- A script that has been read from a text is canonical. -/
theorem canonical_of_ofAsm (h : ofAsm text = .ok script) : script.Canonical := by
  rcases Result.bind_eq_ok.mp h with ⟨parts, hparts, hscript⟩
  cases hscript
  rcases exists_chunks_of_words (Result.mapM_eq_ok.mp hparts) with
    ⟨chunks, rfl, hformed, hcanonical⟩
  exact ⟨chunks, chunks_eq_ok.mpr ⟨List.flatMap_def.symm, hformed⟩, hcanonical⟩

end Script

/-- Written as text and read back, a script is what it was if it decodes, each of its pushes has
    the header that is built for its length, and there is no opcode from 0xba to 0xfe in it;
    and only then. Just these scripts can be read from a text at all. -/
theorem Script.asm_exact (script : Script) :
    (ofAsm script.toAsm = .ok script ↔ script.Canonical) ∧
    ((∃ text, ofAsm text = .ok script) ↔ script.Canonical) :=
  ⟨⟨canonical_of_ofAsm, ofAsm_toAsm⟩,
    ⟨fun ⟨_, h⟩ => canonical_of_ofAsm h, fun h => ⟨_, ofAsm_toAsm h⟩⟩⟩

end Bitcoin
