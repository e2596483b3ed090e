import Bitcoin.Proofs.Wire.CompactSize

/-!
# Readers That Accept Nothing Else

That what has been written reads back is half of what one wants of a format. The other
half is that nothing else is read: if a reader gives a value, the bytes it took are
those that would have been written for the value. Then a value has one encoding only,
and a message can be replaced by what has been read from it.

Both halves are one equivalence, and in this form they pass from the parts of a record
to the record. A sequence of readers is taken apart from the front, and each reader that
is known to be exact says what the bytes begin with.

Words are exact because every string of their width is the form of a number. Sizes are
exact because of the refusals: the least size of each form is where the form before ends.

## Main definitions

* `ReadsExactly`: A reader that accepts the encodings of values, and nothing else.

## Theorems

* `ReadsExactly.bind_eq_ok`: An exact reader in front of other ones.
* `ReadsExactly.map`: What is read may be put into another form.
* `Reader.exact_take`, `Reader.exact_vec`, `Reader.exact_nat`: Strings and numbers.
* `Reader.exact_u8`, `Reader.exact_u16`, `Reader.exact_u32`, `Reader.exact_u64`: Words.
* `CompactSize.exact_read`: Sizes.
* `Item.exact_readBlock`: Bytes behind their number.
-/

namespace Bitcoin

/-- A reader that accepts the encodings of the values of some kind, and nothing else. It
    takes the encoding and leaves the rest. -/
def ReadsExactly {ε α : Type} (read : EStateM ε Bytes α) (valid : α → Prop)
    (encode : α → Bytes) : Prop :=
  ∀ ⦃bytes : Bytes⦄ ⦃a : α⦄ ⦃rest : Bytes⦄,
    read bytes = .ok a rest ↔ valid a ∧ bytes = encode a ++ rest

namespace ReadsExactly

variable {ε α β : Type} {read : EStateM ε Bytes α} {valid : α → Prop} {encode : α → Bytes}

/-- What has been written reads back. -/
theorem append (h : ReadsExactly read valid encode) {a : α} (ha : valid a) (rest : Bytes) :
    read (encode a ++ rest) = .ok a rest :=
  h.mpr ⟨ha, rfl⟩

/-- An exact reader at the front of a sequence says what the bytes begin with. -/
theorem bind_eq_ok (h : ReadsExactly read valid encode) {f : α → EStateM ε Bytes β}
    {bytes rest : Bytes} {b : β} :
    (read >>= f) bytes = .ok b rest ↔
      ∃ a between, valid a ∧ bytes = encode a ++ between ∧ f a between = .ok b rest := by
  rw [Steps.bind_eq_ok]
  constructor
  · rintro ⟨a, between, hread, hrest⟩
    rcases h.mp hread with ⟨ha, hbytes⟩
    exact ⟨a, between, ha, hbytes, hrest⟩
  · rintro ⟨a, between, ha, hbytes, hrest⟩
    exact ⟨a, between, h.mpr ⟨ha, hbytes⟩, hrest⟩

/-- What is read may be put into another form, from which it can be had back. -/
theorem map (h : ReadsExactly read valid encode) {valid' : β → Prop} {f : α → β} {g : β → α}
    (hf : ∀ a, valid a → valid' (f a) ∧ g (f a) = a)
    (hg : ∀ b, valid' b → valid (g b) ∧ f (g b) = b) :
    ReadsExactly (do return f (← read)) valid' (fun b => encode (g b)) := by
  intro bytes b rest
  rw [h.bind_eq_ok]
  constructor
  · rintro ⟨a, between, ha, rfl, hreturn⟩
    cases hreturn
    rcases hf a ha with ⟨hvalid, hback⟩
    refine ⟨hvalid, ?_⟩
    simp only [hback]
  · rintro ⟨hb, rfl⟩
    rcases hg b hb with ⟨hvalid, hforth⟩
    refine ⟨g b, rest, hvalid, rfl, ?_⟩
    rw [hforth]
    rfl

end ReadsExactly

namespace Reader

/-- Taking so many bytes reads exactly the strings of that length. -/
theorem exact_take (count : Nat) :
    ReadsExactly (take count) (fun taken => taken.length = count) (fun taken => taken) := by
  intro bytes taken rest
  constructor
  · intro h
    rw [take] at h
    split at h
    · cases h
    · next hlong =>
        cases h
        have hle := List.length_take_le count bytes
        exact ⟨by omega, (List.take_append_drop count bytes).symm⟩
  · rintro ⟨rfl, rfl⟩
    exact take_append taken rest

/-- A vector is read exactly from its bytes. -/
theorem exact_vec (size : Nat) :
    ReadsExactly (vec size) (fun _ => True) ByteVec.bytes := by
  intro bytes taken rest
  rw [vec]
  constructor
  · intro h
    split at h
    · next found hfound =>
        cases h
        rw [ByteVec.ofBytes?] at hfound
        split at hfound
        · cases hfound
          exact ⟨trivial, (List.take_append_drop size bytes).symm⟩
        · cases hfound
    · cases h
  · rintro ⟨-, rfl⟩
    rcases taken with ⟨taken, rfl⟩
    simp only [ByteVec.ofBytes?, List.take_left, List.drop_left, dite_true]

/-- A number that fits into the width, in the form of that width. -/
theorem exact_nat (width : Nat) :
    ReadsExactly (nat width) (fun n => n < 256 ^ width) (Bytes.fixedLE width) := by
  refine (exact_take width).map ?_ ?_
  · rintro taken rfl
    exact ⟨Bytes.toNatLE_lt taken, Bytes.fixedLE_toNatLE taken⟩
  · intro n hn
    exact ⟨Bytes.length_fixedLE width n, by rw [Bytes.toNatLE_fixedLE, Nat.mod_eq_of_lt hn]⟩

theorem exact_u8 : ReadsExactly u8 (fun _ => True) (fun byte => [byte]) := by
  have hbyte : (fun byte : UInt8 => [byte]) = fun byte => Bytes.fixedLE 1 byte.toNat := by
    funext byte
    rw [Bytes.fixedLE, Bytes.fixedLE, UInt8.ofNat_toNat]
  rw [hbyte]
  exact (exact_nat 1).map (fun _ hn => ⟨trivial, UInt8.toNat_ofNat_of_lt hn⟩)
    fun byte _ => ⟨byte.toNat_lt, UInt8.ofNat_toNat⟩

-- The wider words have the form of their number for their encoding as it is.
theorem exact_u16 : ReadsExactly u16 (fun _ => True) (fun word => Bytes.fixedLE 2 word.toNat) :=
  (exact_nat 2).map (fun _ hn => ⟨trivial, UInt16.toNat_ofNat_of_lt hn⟩)
    fun word _ => ⟨word.toNat_lt, UInt16.ofNat_toNat⟩

theorem exact_u32 : ReadsExactly u32 (fun _ => True) (fun word => Bytes.fixedLE 4 word.toNat) :=
  (exact_nat 4).map (fun _ hn => ⟨trivial, UInt32.toNat_ofNat_of_lt hn⟩)
    fun word _ => ⟨word.toNat_lt, UInt32.ofNat_toNat⟩

theorem exact_u64 : ReadsExactly u64 (fun _ => True) (fun word => Bytes.fixedLE 8 word.toNat) :=
  (exact_nat 8).map (fun _ hn => ⟨trivial, UInt64.toNat_ofNat_of_lt hn⟩)
    fun word _ => ⟨word.toNat_lt, UInt64.ofNat_toNat⟩

end Reader

namespace CompactSize

theorem toNat_ofLength {n : Nat} (h : n < 2 ^ 64) : (ofLength n).toNat = n :=
  UInt64.toNat_ofNat_of_lt h

/-- A word is accepted from the least size of its form on. -/
theorem exact_readWord {width : Nat} (hwidth : width ≤ 8) (least : Nat) :
    ReadsExactly (readWord width least)
      (fun size => least ≤ size.toNat ∧ size.toNat < 256 ^ width)
      (fun size => Bytes.fixedLE width size.toNat) := by
  intro bytes size rest
  rw [readWord, (Reader.exact_nat width).bind_eq_ok]
  constructor
  · rintro ⟨n, between, hn, rfl, h⟩
    rcases Steps.guard_eq_ok.mp h with ⟨hleast, hreturn⟩
    cases hreturn
    -- At most eight bytes fit into a word, so nothing is cut off.
    have hword : n < 2 ^ 64 := by
      refine Nat.lt_of_lt_of_le hn ?_
      exact Nat.pow_le_pow_right (by decide : 0 < 256) hwidth
    have hback : (UInt64.ofNat n).toNat = n := UInt64.toNat_ofNat_of_lt hword
    simp only [hback]
    exact ⟨⟨Nat.not_lt.mp hleast, hn⟩, trivial⟩
  · rintro ⟨⟨hleast, hfits⟩, rfl⟩
    refine ⟨size.toNat, rest, hfits, rfl, Steps.guard_eq_ok.mpr ⟨Nat.not_lt.mpr hleast, ?_⟩⟩
    rw [UInt64.ofNat_toNat]
    rfl

section Forms

variable {size : UInt64}

/-- The branches of the encoder, told by numbers. -/
theorem encode_eq (size : UInt64) : encode size =
    if size.toNat < 0xfd then [size.toUInt8]
    else if size.toNat ≤ 0xffff then 0xfd :: Bytes.fixedLE 2 size.toNat
    else if size.toNat ≤ 0xffffffff then 0xfe :: Bytes.fixedLE 4 size.toNat
    else 0xff :: Bytes.fixedLE 8 size.toNat := by
  simp only [encode, UInt64.lt_iff_toNat_lt, UInt64.le_iff_toNat_le, UInt64.reduceToNat]

-- The four forms of a size, told by where the size lies.
theorem encode_byte (h : size.toNat < 0xfd) : encode size = [size.toUInt8] := by
  rw [encode_eq, if_pos h]

theorem encode_short (hleast : 0xfd ≤ size.toNat) (hfits : size.toNat < 256 ^ 2) :
    encode size = 0xfd :: Bytes.fixedLE 2 size.toNat := by
  rw [encode_eq, if_neg (by omega), if_pos (by omega)]

theorem encode_medium (hleast : 0x10000 ≤ size.toNat) (hfits : size.toNat < 256 ^ 4) :
    encode size = 0xfe :: Bytes.fixedLE 4 size.toNat := by
  rw [encode_eq, if_neg (by omega), if_neg (by omega), if_pos (by omega)]

theorem encode_long (hleast : 0x100000000 ≤ size.toNat) :
    encode size = 0xff :: Bytes.fixedLE 8 size.toNat := by
  rw [encode_eq, if_neg (by omega), if_neg (by omega), if_neg (by omega)]

end Forms

/-- The form that a first byte announces is the one that would have been written. -/
theorem encode_of_readFrom {first : UInt8} {bytes rest : Bytes} {size : UInt64}
    (h : readFrom first bytes = .ok size rest) : first :: bytes = encode size ++ rest := by
  rw [readFrom] at h
  by_cases hlong : first = 0xff
  · rw [if_pos hlong] at h
    rcases (exact_readWord (by decide) _).mp h with ⟨⟨hleast, -⟩, rfl⟩
    rw [encode_long hleast, hlong, List.cons_append]
  by_cases hmedium : first = 0xfe
  · rw [if_neg hlong, if_pos hmedium] at h
    rcases (exact_readWord (by decide) _).mp h with ⟨⟨hleast, hfits⟩, rfl⟩
    rw [encode_medium hleast hfits, hmedium, List.cons_append]
  by_cases hshort : first = 0xfd
  · rw [if_neg hlong, if_neg hmedium, if_pos hshort] at h
    rcases (exact_readWord (by decide) _).mp h with ⟨⟨hleast, hfits⟩, rfl⟩
    rw [encode_short hleast hfits, hshort, List.cons_append]
  · -- None of the three markers: the byte is below them.
    rw [if_neg hlong, if_neg hmedium, if_neg hshort] at h
    cases h
    have hsmall : first.toNat < 0xfd := by
      have hlt := first.toNat_lt
      rw [← UInt8.toNat_inj] at hlong hmedium hshort
      simp only [UInt8.reduceToNat] at hlong hmedium hshort
      omega
    have hbyte : first.toUInt64.toUInt8 = first := UInt8.toUInt8_toUInt64 first
    rw [encode_byte (by rwa [UInt8.toNat_toUInt64]), hbyte, List.singleton_append]

/-- A count is read exactly from its shortest form. -/
theorem exact_read : ReadsExactly read (fun _ => True) encode := by
  intro bytes size rest
  constructor
  · intro h
    rw [read, Reader.exact_u8.bind_eq_ok] at h
    rcases h with ⟨first, between, -, rfl, hfrom⟩
    exact ⟨trivial, encode_of_readFrom hfrom⟩
  · rintro ⟨-, rfl⟩
    exact read_encode size rest

end CompactSize

/-- A block is read exactly from its count and its bytes. -/
theorem Item.exact_readBlock :
    ReadsExactly readBlock (fun bytes => bytes.length < 2 ^ 64) encodeBlock := by
  intro bytes block rest
  constructor
  · intro h
    rw [readBlock, CompactSize.exact_read.bind_eq_ok] at h
    rcases h with ⟨size, between, -, rfl, htake⟩
    rcases (Reader.exact_take _).mp htake with ⟨hlength, rfl⟩
    have hword : block.length < 2 ^ 64 := hlength ▸ size.toNat_lt
    refine ⟨hword, ?_⟩
    rw [encodeBlock, List.append_assoc, hlength, CompactSize.ofLength, UInt64.ofNat_toNat]
  · rintro ⟨hword, rfl⟩
    exact readBlock_encodeBlock hword rest

end Bitcoin
