import Bitcoin.Proofs.Wire.Exact

/-!
# Strings That Begin With a Size

A size is read from the front of a string, and there are three ways in which this can go
wrong: there is no first byte, the first byte announces more bytes than follow it, or the
word that it announces would have fitted into a shorter form. In each of them the parts
that were complete have been taken and nothing else: nothing at all, the first byte, or the
first byte with its word.

Together with what is known of success, this says of every string what comes of it.
Exactly the strings that begin with the one form of a size are accepted.

## Main definitions

* `Reader.AllOrNothing`: A reader that takes nothing where it fails.
* `CompactSize.Announces`: The first bytes that announce a word.
* `CompactSize.Breaks`: What has been taken, and what is left, where a size is not read.

## Theorems

* `Reader.map_eq_error`, `Reader.allOrNothing_take`, `Reader.allOrNothing_vec`,
  `Reader.allOrNothing_nat`: Strings, numbers, and whatever is made of them.
* `CompactSize.length_encode`: The length of a size.
* `CompactSize.readFrom_eq_error`, `CompactSize.read_eq_error`: Where no size is read.
* `CompactSize.decode_exact`: What comes of a string.
-/

namespace Bitcoin

namespace Reader

variable {α β : Type} {read : Reader α} {width : Nat}

/-- A reader that fails only where there are fewer bytes than it takes, and then takes none
    of them. -/
def AllOrNothing (read : Reader α) (width : Nat) : Prop :=
  ∀ ⦃bytes : Bytes⦄ ⦃e : Error⦄ ⦃rest : Bytes⦄,
    read bytes = .error e rest ↔ e = .unexpectedEnd ∧ rest = bytes ∧ bytes.length < width

/-- Putting what has been read into another form does not fail. -/
theorem map_eq_error (f : α → β) {bytes rest : Bytes} {e : Error} :
    (do return f (← read) : Reader β) bytes = .error e rest ↔ read bytes = .error e rest := by
  rw [Steps.bind_eq_error]
  refine ⟨fun h => h.resolve_right ?_, .inl⟩
  rintro ⟨_, _, _, hreturn⟩
  cases hreturn

/-- A reader stays all or nothing when its value is changed. -/
theorem AllOrNothing.map (h : AllOrNothing read width) (f : α → β) :
    AllOrNothing (do return f (← read)) width := by
  intro bytes e rest
  rw [map_eq_error, h]

/-- Bytes are taken all or not at all. -/
theorem allOrNothing_take (count : Nat) : AllOrNothing (take count) count := by
  intro bytes e rest
  rw [take]
  by_cases hshort : bytes.length < count
  · rw [if_pos (by rw [List.length_take]; omega)]
    constructor
    · intro h
      cases h
      exact ⟨rfl, rfl, hshort⟩
    · rintro ⟨rfl, rfl, _⟩
      rfl
  · rw [if_neg (by rw [List.length_take]; omega)]
    constructor
    · intro h
      cases h
    · rintro ⟨_, _, hless⟩
      exact absurd hless hshort

/-- Bytes of a fixed number are taken all or not at all. -/
theorem allOrNothing_vec (size : Nat) : AllOrNothing (vec size) size := by
  intro bytes e rest
  rw [vec, ByteVec.ofBytes?]
  by_cases hshort : bytes.length < size
  · rw [dif_neg (by rw [List.length_take]; omega)]
    constructor
    · intro h
      cases h
      exact ⟨rfl, rfl, hshort⟩
    · rintro ⟨rfl, rfl, _⟩
      rfl
  · rw [dif_pos (by rw [List.length_take]; omega)]
    constructor
    · intro h
      cases h
    · rintro ⟨_, _, hless⟩
      exact absurd hless hshort

theorem allOrNothing_nat (width : Nat) : AllOrNothing (nat width) width :=
  (allOrNothing_take width).map Bytes.toNatLE

end Reader

namespace CompactSize

/-- The three bytes that announce a word, with its width and the least size that is accepted
    in it. -/
inductive Announces : (marker : UInt8) → (width least : Nat) → Prop
  | short : Announces 0xfd 2 0xfd
  | medium : Announces 0xfe 4 0x10000
  | long : Announces 0xff 8 0x100000000

/-- What has been taken, and what is left, where a size is not read. -/
inductive Breaks : (taken rest : Bytes) → Error → Prop
  /-- There is no first byte. -/
  | empty : Breaks [] [] .unexpectedEnd
  /-- There is less than the word that the first byte announces. -/
  | short {marker : UInt8} {width least : Nat} {rest : Bytes}
      (hmarker : Announces marker width least) (hshort : rest.length < width) :
      Breaks [marker] rest .unexpectedEnd
  /-- The word is there, and a shorter form would have done. -/
  | wide {marker : UInt8} {width least : Nat} {word rest : Bytes}
      (hmarker : Announces marker width least) (hlength : word.length = width)
      (hleast : word.toNatLE < least) : Breaks (marker :: word) rest .nonCanonicalSize

variable {bytes rest : Bytes} {e : Error} {first : UInt8} {width least : Nat}

/-- The length that is told is that of the bytes. -/
theorem length_encode (size : UInt64) : (encode size).length = length size := by
  rw [encode, length]
  split_ifs <;> simp

/-- A marker tells the width of the word and the least value that may stand in it. -/
theorem readFrom_of_announces (h : Announces first width least) :
    readFrom first = readWord width least := by
  cases h with
  | short => rfl
  | medium => rfl
  | long => rfl

-- Any other first byte is a size by itself.
theorem readFrom_of_not_announces (h : ∀ width least, ¬Announces first width least) :
    readFrom first = pure first.toUInt64 := by
  have hlong : first ≠ 0xff := fun heq => h _ _ (heq ▸ Announces.long)
  have hmedium : first ≠ 0xfe := fun heq => h _ _ (heq ▸ Announces.medium)
  have hshort : first ≠ 0xfd := fun heq => h _ _ (heq ▸ Announces.short)
  rw [readFrom, if_neg hlong, if_neg hmedium, if_neg hshort]

/-- A word is not read where it is not complete, and where it is too small. -/
theorem readWord_eq_error : readWord width least bytes = .error e rest ↔
    (e = .unexpectedEnd ∧ rest = bytes ∧ bytes.length < width) ∨
      ∃ word, bytes = word ++ rest ∧ word.length = width ∧ word.toNatLE < least ∧
        e = .nonCanonicalSize := by
  rw [readWord, Steps.bind_eq_error, Reader.allOrNothing_nat width]
  refine or_congr_right ?_
  constructor
  · rintro ⟨value, between, hvalue, hrefused⟩
    -- The word is there, and is refused because a shorter form has room for its value.
    rcases (Reader.exact_nat width).mp hvalue with ⟨hfits, rfl⟩
    by_cases hleast : value < least
    · rw [if_pos hleast] at hrefused
      cases hrefused
      refine ⟨Bytes.fixedLE width value, rfl, Bytes.length_fixedLE width value, ?_, rfl⟩
      rwa [Bytes.toNatLE_fixedLE, Nat.mod_eq_of_lt hfits]
    · rw [if_neg hleast] at hrefused
      cases hrefused
  · rintro ⟨word, rfl, rfl, hleast, rfl⟩
    have hvalue := (Reader.exact_nat word.length).append (Bytes.toNatLE_lt word) rest
    rw [Bytes.fixedLE_toNatLE] at hvalue
    refine ⟨word.toNatLE, rest, hvalue, ?_⟩
    rw [if_pos hleast]
    rfl

/-- Behind a marker, a word is missing or too small. -/
theorem readFrom_eq_error : readFrom first bytes = .error e rest ↔
    ∃ width least, Announces first width least ∧
      ((e = .unexpectedEnd ∧ rest = bytes ∧ bytes.length < width) ∨
        ∃ word, bytes = word ++ rest ∧ word.length = width ∧ word.toNatLE < least ∧
          e = .nonCanonicalSize) := by
  constructor
  · intro h
    -- A byte that is no marker is the count, and cannot fail.
    by_cases hmarker : ∃ width least, Announces first width least
    · rcases hmarker with ⟨width, least, hmarker⟩
      rw [readFrom_of_announces hmarker] at h
      exact ⟨width, least, hmarker, readWord_eq_error.mp h⟩
    · rw [readFrom_of_not_announces fun width least hc => hmarker ⟨width, least, hc⟩] at h
      cases h
  · rintro ⟨width, least, hmarker, hfail⟩
    rw [readFrom_of_announces hmarker]
    exact readWord_eq_error.mpr hfail

/-- Where a size is not read, its complete parts have been taken. -/
theorem read_eq_error :
    read bytes = .error e rest ↔ ∃ taken, bytes = taken ++ rest ∧ Breaks taken rest e := by
  -- The first byte may be missing. If it is there, it may be a marker.
  rcases bytes with _ | ⟨first, behind⟩
  · have hempty : read [] = .error .unexpectedEnd [] := rfl
    rw [hempty]
    constructor
    · intro h
      cases h
      exact ⟨[], rfl, .empty⟩
    · rintro ⟨taken, hsplit, hbreaks⟩
      rcases List.nil_eq_append_iff.mp hsplit with ⟨rfl, rfl⟩
      cases hbreaks
      rfl
  · rw [read_cons, readFrom_eq_error]
    constructor
    · rintro ⟨width, least, hmarker, ⟨rfl, rfl, hshort⟩ | ⟨word, rfl, hlength, hleast, rfl⟩⟩
      · exact ⟨[first], rfl, .short hmarker hshort⟩
      · exact ⟨first :: word, rfl, .wide hmarker hlength hleast⟩
    · rintro ⟨taken, hsplit, hbreaks⟩
      cases hbreaks with
      | empty => cases hsplit
      | short hmarker hshort =>
          cases hsplit
          exact ⟨_, _, hmarker, .inl ⟨rfl, rfl, hshort⟩⟩
      | wide hmarker hlength hleast =>
          cases hsplit
          exact ⟨_, _, hmarker, .inr ⟨_, rfl, hlength, hleast, rfl⟩⟩

/-- A count is decoded exactly from a string that begins with its bytes. -/
theorem decode_eq_ok {size : UInt64} {count : Nat} :
    decode bytes = .ok (size, count) ↔ bytes.take count = encode size ∧ count = length size := by
  rw [decode]
  constructor
  · intro h
    split at h
    · next found rest hread =>
        cases h
        rcases exact_read.mp hread with ⟨-, rfl⟩
        rw [List.length_append, Nat.add_sub_cancel, List.take_left, length_encode]
        exact ⟨rfl, rfl⟩
    · cases h
  · rintro ⟨htake, rfl⟩
    have hread : read bytes = .ok size (bytes.drop (length size)) :=
      exact_read.mpr ⟨trivial, by rw [← htake, List.take_append_drop]⟩
    have hlength : length size ≤ bytes.length := by
      rw [← length_encode, ← htake]
      exact List.length_take_le' _ _
    rw [hread]
    simp only [List.length_drop, Nat.sub_sub_self hlength]
    rfl

/-- Decoding fails exactly where the bytes break off or their form is too wide. -/
theorem decode_eq_error :
    decode bytes = .error e ↔ ∃ taken rest, bytes = taken ++ rest ∧ Breaks taken rest e := by
  rw [decode]
  rcases hread : read bytes with ⟨size, rest⟩ | ⟨e', rest⟩
  · refine ⟨nofun, ?_⟩
    rintro ⟨taken, rest', hsplit, hbreaks⟩
    cases hread.symm.trans (read_eq_error.mpr ⟨taken, hsplit, hbreaks⟩)
  · constructor
    · intro h
      cases h
      rcases read_eq_error.mp hread with ⟨taken, hsplit, hbreaks⟩
      exact ⟨taken, rest, hsplit, hbreaks⟩
    · rintro ⟨taken, rest', hsplit, hbreaks⟩
      cases hread.symm.trans (read_eq_error.mpr ⟨taken, hsplit, hbreaks⟩)
      rfl

/-- A string gives a size and its length exactly if it begins with the one form of that size.
    Any other string is too short for what it announces, or a shorter form would have done
    for the word that its first byte announces. -/
theorem decode_exact (bytes : Bytes) :
    (∀ size count, decode bytes = .ok (size, count) ↔
      bytes.take count = encode size ∧ count = length size) ∧
    (decode bytes = .error .unexpectedEnd ↔ bytes = [] ∨
      ∃ marker width least rest, Announces marker width least ∧ bytes = marker :: rest ∧
        rest.length < width) ∧
    (decode bytes = .error .nonCanonicalSize ↔
      ∃ marker width least word rest, Announces marker width least ∧
        bytes = marker :: (word ++ rest) ∧ word.length = width ∧ Bytes.toNatLE word < least) ∧
    ((∃ size count, decode bytes = .ok (size, count)) ∨
      decode bytes = .error .unexpectedEnd ∨ decode bytes = .error .nonCanonicalSize) := by
  refine ⟨fun size count => decode_eq_ok, decode_eq_error.trans ⟨?_, ?_⟩,
    decode_eq_error.trans ⟨?_, ?_⟩, ?_⟩
  · rintro ⟨taken, rest, rfl, hbreaks⟩
    cases hbreaks with
    | empty => exact .inl rfl
    | short hmarker hshort => exact .inr ⟨_, _, _, _, hmarker, rfl, hshort⟩
  · rintro (rfl | ⟨marker, width, least, rest, hmarker, rfl, hshort⟩)
    · exact ⟨[], [], rfl, .empty⟩
    · exact ⟨[marker], rest, rfl, .short hmarker hshort⟩
  · rintro ⟨taken, rest, rfl, hbreaks⟩
    cases hbreaks with
    | wide hmarker hlength hleast => exact ⟨_, _, _, _, _, hmarker, rfl, hlength, hleast⟩
  · rintro ⟨marker, width, least, word, rest, hmarker, rfl, hlength, hleast⟩
    exact ⟨marker :: word, rest, rfl, .wide hmarker hlength hleast⟩
  · rcases hdecode : decode bytes with e | ⟨size, count⟩
    · rcases decode_eq_error.mp hdecode with ⟨taken, rest, -, hbreaks⟩
      cases hbreaks with
      | empty => exact .inr (.inl rfl)
      | short => exact .inr (.inl rfl)
      | wide => exact .inr (.inr rfl)
    · exact .inl ⟨size, count, rfl⟩

/-- The greatest size of three bytes, written in five. -/
example : decode [0xfe, 0xff, 0xff, 0, 0] = .error .nonCanonicalSize := by rfl

end CompactSize

end Bitcoin
