import Bitcoin.Proofs.Bytes
import Bitcoin.Proofs.Result
import Bitcoin.Wire.Item

/-!
# What Is Written Reads Back

A reader that finds what has been written takes exactly this and leaves the rest,
whatever the rest is. For words this is a matter of their width. For sizes it is
one case for each of the four forms: the first byte tells the form, and the form
that was chosen is the shortest one, so that the reader has nothing to refuse.

## Theorems

* `Reader.take_append`, `Reader.nat_append`: So many bytes, as they are and as a
  number.
* `CompactSize.read_encode`: A size reads back.
* `Item.readBlock_encodeBlock`: Bytes behind their number read back.
-/

namespace Bitcoin

namespace Reader

theorem take_append (taken rest : Bytes) : take taken.length (taken ++ rest) = .ok taken rest := by
  rw [take]
  simp only [List.take_left, List.drop_left, Nat.lt_irrefl, if_false]

/-- A number of the given width is taken from the front, up to what does not fit. -/
theorem nat_append (width n : Nat) (rest : Bytes) :
    nat width (Bytes.fixedLE width n ++ rest) = .ok (n % 256 ^ width) rest := by
  have htake := take_append (Bytes.fixedLE width n) rest
  rw [Bytes.length_fixedLE] at htake
  rw [nat, Steps.bind_ok htake, Bytes.toNatLE_fixedLE]
  rfl

/-- A byte is read off the front. -/
theorem u8_cons (first : UInt8) (rest : Bytes) : u8 (first :: rest) = .ok first rest := by
  have hnat : nat 1 (first :: rest) = .ok first.toNat rest := by
    have hlt : first.toNat < 256 ^ 1 := first.toNat_lt
    have hfirst := nat_append 1 first.toNat rest
    rw [Nat.mod_eq_of_lt hlt, Bytes.fixedLE, Bytes.fixedLE, UInt8.ofNat_toNat] at hfirst
    exact hfirst
  rw [u8, Steps.bind_ok hnat]
  change EStateM.Result.ok (UInt8.ofNat first.toNat) rest = _
  rw [UInt8.ofNat_toNat]

end Reader

namespace CompactSize

/-- A word reads back if no shorter form would have done. -/
theorem readWord_append {width least : Nat} {size : UInt64} (hfits : size.toNat < 256 ^ width)
    (hleast : least ≤ size.toNat) (rest : Bytes) :
    readWord width least (Bytes.fixedLE width size.toNat ++ rest) = .ok size rest := by
  rw [readWord, Steps.bind_ok (Reader.nat_append width size.toNat rest), Nat.mod_eq_of_lt hfits,
    if_neg (by omega)]
  change EStateM.Result.ok (UInt64.ofNat size.toNat) rest = _
  rw [UInt64.ofNat_toNat]

theorem read_cons (first : UInt8) (rest : Bytes) : read (first :: rest) = readFrom first rest := by
  rw [read, Steps.bind_ok (Reader.u8_cons first rest)]

/-- A size reads back. The cases are the four forms. -/
theorem read_encode (size : UInt64) (rest : Bytes) :
    read (encode size ++ rest) = .ok size rest := by
  rw [encode]
  by_cases hbyte : size < 0xfd
  · -- The byte is the size, and it is none of the three that announce a word.
    rw [if_pos hbyte, List.singleton_append, read_cons, readFrom]
    have hsmall : size.toNat < 253 := UInt64.lt_iff_toNat_lt.mp hbyte
    have hvalue : size.toUInt8.toNat = size.toNat := by
      rw [UInt64.toNat_toUInt8]
      exact Nat.mod_eq_of_lt (by omega)
    have hne : ∀ marker : UInt8, 253 ≤ marker.toNat → size.toUInt8 ≠ marker := by
      intro marker hmarker heq
      rw [heq] at hvalue
      omega
    rw [if_neg (hne 0xff (by decide)), if_neg (hne 0xfe (by decide)), if_neg (hne 0xfd (by decide))]
    have hsize : size.toUInt8.toUInt64 = size := by
      apply UInt64.toNat_inj.mp
      rw [UInt8.toNat_toUInt64, hvalue]
    change EStateM.Result.ok size.toUInt8.toUInt64 rest = _
    rw [hsize]
  rw [if_neg hbyte]
  -- In the other forms, what rules out the form before is the least size that is accepted.
  by_cases hshort : size ≤ 0xffff
  · rw [if_pos hshort, List.cons_append, read_cons]
    exact readWord_append (Nat.lt_succ_of_le (UInt64.le_iff_toNat_le.mp hshort))
      (UInt64.not_lt.mp hbyte) rest
  rw [if_neg hshort]
  by_cases hmedium : size ≤ 0xffffffff
  · rw [if_pos hmedium, List.cons_append, read_cons]
    exact readWord_append (Nat.lt_succ_of_le (UInt64.le_iff_toNat_le.mp hmedium))
      (UInt64.lt_iff_toNat_lt.mp (UInt64.not_le.mp hshort)) rest
  · rw [if_neg hmedium, List.cons_append, read_cons]
    exact readWord_append size.toNat_lt
      (UInt64.lt_iff_toNat_lt.mp (UInt64.not_le.mp hmedium)) rest

end CompactSize

/-- Bytes behind their number read back, as long as their number is a word. -/
theorem Item.readBlock_encodeBlock {bytes : Bytes} (h : bytes.length < 2 ^ 64) (rest : Bytes) :
    readBlock (encodeBlock bytes ++ rest) = .ok bytes rest := by
  have hlength : (CompactSize.ofLength bytes.length).toNat = bytes.length := by
    rw [CompactSize.ofLength, UInt64.toNat_ofNat', Nat.mod_eq_of_lt h]
  rw [readBlock, encodeBlock, List.append_assoc, Steps.bind_ok (CompactSize.read_encode _ _),
    hlength]
  exact Reader.take_append bytes rest

end Bitcoin
