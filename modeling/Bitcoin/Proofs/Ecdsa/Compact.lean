import Bitcoin.Ecdsa.Compact
import Bitcoin.Proofs.Bytes
import Bitcoin.Proofs.Ecdsa.Scalar
import Bitcoin.Proofs.Result

/-!
# Compact Forms Are Exact

The compact form writes both scalars with their leading zeros, so that nothing but the place
tells where one ends. A scalar has one form of thirty-two bytes, and every thirty-two bytes
are the form of one number, which is a scalar or not. So the strings that are accepted are
those of the right length with a scalar in each half, and each of them is the form of the
signature that it is read as.

The header in front of the recoverable form has room for exactly what it packs: eight values
for four ids, each with a flag. None of them is left over, so a string with one of these
headers is accepted as soon as the rest of it is.

## Main definitions

* `Compact.Paired`: Two scalars in a row.

## Theorems

* `Scalar.ofInt?_half`: Thirty-two bytes that are a scalar.
* `RecoveryId.exists_toByte_iff`: The range of the ids.
* `Compact.decode_eq_ok`, `Compact.exists_decode_iff`: The form of sixty-four bytes.
* `Compact.range_iff`, `Compact.unpack_header`, `Compact.exists_header_iff`: The header.
* `Compact.decodeRecoverable_eq_ok`, `Compact.exists_decodeRecoverable_iff`: The form of
  sixty-five.
* `Compact.forms_inverse`: All of this together.
-/

namespace Bitcoin

namespace Scalar

variable {half : Bytes} {k : Scalar}

theorem length_toBytes (k : Scalar) : k.toBytes.length = 32 :=
  Bytes.length_fixedBE 32 k.val

theorem toNatBE_toBytes (k : Scalar) : Bytes.toNatBE k.toBytes = k.val :=
  Bytes.toNatBE_fixedBE (Nat.lt_trans k.lt (by decide))

/-- Thirty-two bytes are read as the scalar whose form they are. -/
theorem ofInt?_half (h : half.length = 32) :
    ofInt? (Bytes.toNatBE half) = some k ↔ half = k.toBytes := by
  rw [ofInt?_eq_some]
  constructor
  · intro hvalue
    rw [toBytes, ← hvalue, ← h, Bytes.fixedBE_toNatBE]
  · rintro rfl
    exact k.toNatBE_toBytes

/-- The scalars are the numbers from one up to the order. -/
theorem exists_ofInt?_iff {n : Nat} : (∃ k, ofInt? n = some k) ↔ 0 < n ∧ n < Curve.order := by
  constructor
  · rintro ⟨k, hk⟩
    rw [ofInt?_eq_some.mp hk]
    exact ⟨k.pos, k.lt⟩
  · rintro ⟨hpos, hlt⟩
    exact ⟨⟨n, hpos, hlt⟩, ofInt?_eq_some.mpr rfl⟩

end Scalar

/-- The ids are the bytes up to three. -/
theorem RecoveryId.exists_toByte_iff {byte : UInt8} :
    (∃ id : RecoveryId, byte = id.toByte) ↔ byte ≤ 3 := by
  constructor
  · rintro ⟨⟨yOdd, xReduced⟩, rfl⟩
    revert yOdd xReduced
    decide
  · intro h
    have hall : ∀ n < 4, ∃ yOdd xReduced, UInt8.ofNat n = toByte ⟨yOdd, xReduced⟩ := by
      decide
    rcases hall byte.toNat (Nat.lt_succ_of_le h) with ⟨yOdd, xReduced, hbyte⟩
    rw [UInt8.ofNat_toNat] at hbyte
    exact ⟨⟨yOdd, xReduced⟩, hbyte⟩

namespace Compact

variable {bytes : Bytes} {sig : Signature} {id : RecoveryId} {compressed : Bool} {first : UInt8}

/-- Sixty-four bytes, with a scalar in each half. -/
structure Paired (bytes : Bytes) : Prop where
  length : bytes.length = 64
  r : 0 < Bytes.toNatBE (bytes.take 32) ∧ Bytes.toNatBE (bytes.take 32) < Curve.order
  s : 0 < Bytes.toNatBE (bytes.drop 32) ∧ Bytes.toNatBE (bytes.drop 32) < Curve.order

theorem length_encode (sig : Signature) : (encode sig).length = 64 := by
  rw [encode, List.length_append, sig.r.length_toBytes, sig.s.length_toBytes]

/-- A string of the right length is read half by half. -/
theorem decode_eq_ok_iff_halves (h : bytes.length = 64) : decode bytes = .ok sig ↔
    Scalar.ofInt? (Bytes.toNatBE (bytes.take 32)) = some sig.r ∧
      Scalar.ofInt? (Bytes.toNatBE (bytes.drop 32)) = some sig.s := by
  rw [decode, if_neg (not_not.mpr h)]
  -- The first half is refused before the second one is looked at, but both must be there.
  rcases Scalar.ofInt? (Bytes.toNatBE (bytes.take 32)) with _ | r
  · exact ⟨nofun, nofun⟩
  rcases Scalar.ofInt? (Bytes.toNatBE (bytes.drop 32)) with _ | s
  · exact ⟨nofun, nofun⟩
  constructor
  · intro hsig
    cases hsig
    exact ⟨rfl, rfl⟩
  · rintro ⟨hr, hs⟩
    cases hr
    cases hs
    rfl

theorem length_of_decode (h : decode bytes = .ok sig) : bytes.length = 64 := by
  rw [decode] at h
  exact not_not.mp (Result.refuse_eq_ok.mp h).1

/-- The bytes that are read as a signature are those that it is written with. -/
theorem decode_eq_ok : decode bytes = .ok sig ↔ bytes = encode sig := by
  constructor
  · intro h
    have hlength := length_of_decode h
    rcases (decode_eq_ok_iff_halves hlength).mp h with ⟨hr, hs⟩
    -- Each half has the width of a scalar, so its bytes are those of the scalar.
    have hr := (Scalar.ofInt?_half (by rw [List.length_take, hlength]; rfl)).mp hr
    have hs := (Scalar.ofInt?_half (by rw [List.length_drop, hlength])).mp hs
    rw [encode, ← hr, ← hs, List.take_append_drop]
  · rintro rfl
    have htake : (encode sig).take 32 = sig.r.toBytes := List.take_left' sig.r.length_toBytes
    have hdrop : (encode sig).drop 32 = sig.s.toBytes := List.drop_left' sig.r.length_toBytes
    rw [decode_eq_ok_iff_halves (length_encode sig), htake, hdrop]
    exact ⟨(Scalar.ofInt?_half sig.r.length_toBytes).mpr rfl,
      (Scalar.ofInt?_half sig.s.length_toBytes).mpr rfl⟩

/-- A string is accepted if it is two scalars in a row. -/
theorem exists_decode_iff : (∃ sig, decode bytes = .ok sig) ↔ Paired bytes := by
  constructor
  · rintro ⟨sig, h⟩
    have hlength := length_of_decode h
    rcases (decode_eq_ok_iff_halves hlength).mp h with ⟨hr, hs⟩
    exact ⟨hlength, Scalar.exists_ofInt?_iff.mp ⟨_, hr⟩, Scalar.exists_ofInt?_iff.mp ⟨_, hs⟩⟩
  · intro h
    rcases Scalar.exists_ofInt?_iff.mpr h.r with ⟨r, hr⟩
    rcases Scalar.exists_ofInt?_iff.mpr h.s with ⟨s, hs⟩
    exact ⟨⟨r, s⟩, (decode_eq_ok_iff_halves h.length).mpr ⟨hr, hs⟩⟩

/-- The range that is checked is that of the eight headers. -/
theorem range_iff : ¬(first < headerBase ∨ headerBase + 8 ≤ first) ↔ 27 ≤ first ∧ first ≤ 34 := by
  rw [headerBase, UInt8.lt_iff_toNat_lt, UInt8.le_iff_toNat_le, UInt8.le_iff_toNat_le,
    UInt8.le_iff_toNat_le]
  simp only [UInt8.reduceAdd, UInt8.reduceToNat]
  omega

-- There are eight headers, so both ways are gone through one by one.
theorem unpack_header (id : RecoveryId) (compressed : Bool) :
    (¬(header id compressed < headerBase ∨ headerBase + 8 ≤ header id compressed)) ∧
      RecoveryId.ofByte ((header id compressed - headerBase) % 4) = .ok id ∧
      decide (4 ≤ header id compressed - headerBase) = compressed := by
  rcases id with ⟨yOdd, xReduced⟩
  revert yOdd xReduced compressed
  decide

/-- The first byte is one of the eight that are written. -/
theorem exists_header_iff : (∃ id compressed, first = header id compressed) ↔
    27 ≤ first ∧ first ≤ 34 := by
  constructor
  · rintro ⟨id, compressed, rfl⟩
    exact range_iff.mp (unpack_header id compressed).1
  · rintro ⟨hleast, hgreatest⟩
    -- There are eight of them, and eight ways to make one.
    have hall : ∀ n < 8, ∃ yOdd xReduced compressed,
        UInt8.ofNat (27 + n) = header ⟨yOdd, xReduced⟩ compressed := by
      decide
    rw [UInt8.le_iff_toNat_le] at hleast hgreatest
    simp only [UInt8.reduceToNat] at hleast hgreatest
    rcases hall (first.toNat - 27) (by omega) with ⟨yOdd, xReduced, compressed, hfirst⟩
    rw [Nat.add_sub_cancel' hleast, UInt8.ofNat_toNat] at hfirst
    exact ⟨⟨yOdd, xReduced⟩, compressed, hfirst⟩

/-- A header byte, and a string that is accepted without it. -/
theorem decodeRecoverable_cons {rest : Bytes} :
    decodeRecoverable (first :: rest) = .ok (sig, id, compressed) ↔
      first = header id compressed ∧ decode rest = .ok sig := by
  rw [decodeRecoverable, Result.refuse_eq_ok, Result.refuse_eq_ok]
  constructor
  · rintro ⟨_, hrange, h⟩
    -- The header is one of the eight, and each of them unpacks to what it was packed from.
    rcases exists_header_iff.mpr (range_iff.mp hrange) with ⟨id', compressed', rfl⟩
    rcases unpack_header id' compressed' with ⟨_, hid, hcompressed⟩
    simp only [hid, hcompressed] at h
    rcases Result.bind_eq_ok.mp h with ⟨_, hfound, h⟩
    cases hfound
    rcases Result.bind_eq_ok.mp h with ⟨_, hsig, h⟩
    cases h
    exact ⟨rfl, hsig⟩
  · rintro ⟨rfl, hsig⟩
    rcases unpack_header id compressed with ⟨hrange, hid, hcompressed⟩
    refine ⟨not_not.mpr (length_of_decode hsig), hrange, ?_⟩
    simp only [hid, hcompressed, hsig]
    rfl

/-- With a first byte in front, bytes and signature are again known by each other. -/
theorem decodeRecoverable_eq_ok : decodeRecoverable bytes = .ok (sig, id, compressed) ↔
    bytes = encodeRecoverable sig id compressed := by
  rcases bytes with _ | ⟨first, rest⟩
  · exact ⟨nofun, nofun⟩
  · rw [decodeRecoverable_cons, decode_eq_ok, encodeRecoverable, List.cons.injEq]

/-- A string is accepted if it is one of the headers with two scalars behind it. -/
theorem exists_decodeRecoverable_iff :
    (∃ sig id compressed, decodeRecoverable bytes = .ok (sig, id, compressed)) ↔
      ∃ first rest, bytes = first :: rest ∧ (27 ≤ first ∧ first ≤ 34) ∧ Paired rest := by
  constructor
  · rintro ⟨sig, id, compressed, h⟩
    refine ⟨header id compressed, encode sig, decodeRecoverable_eq_ok.mp h, ?_, ?_⟩
    · exact exists_header_iff.mp ⟨id, compressed, rfl⟩
    · exact exists_decode_iff.mp ⟨sig, decode_eq_ok.mpr rfl⟩
  · rintro ⟨first, rest, rfl, hfirst, hrest⟩
    rcases exists_header_iff.mpr hfirst with ⟨id, compressed, rfl⟩
    rcases exists_decode_iff.mpr hrest with ⟨sig, hsig⟩
    exact ⟨sig, id, compressed, decodeRecoverable_cons.mpr ⟨rfl, hsig⟩⟩

/-- Both forms are read as what they were written from, and a string that is accepted is the
    form of what it is read as. So the compact form accepts two scalars in a row, the
    recoverable one the same behind a byte from 27 to 34, and neither anything else. There is
    an id for each number up to three. -/
theorem forms_inverse :
    (∀ sig, decode (encode sig) = .ok sig) ∧
      (∀ sig id compressed,
        decodeRecoverable (encodeRecoverable sig id compressed) = .ok (sig, id, compressed)) ∧
      (∀ bytes sig, decode bytes = .ok sig → encode sig = bytes) ∧
      (∀ bytes sig id compressed,
        decodeRecoverable bytes = .ok (sig, id, compressed) →
          encodeRecoverable sig id compressed = bytes) ∧
      (∀ bytes, (∃ sig, decode bytes = .ok sig) ↔ Paired bytes) ∧
      (∀ bytes,
        (∃ sig id compressed, decodeRecoverable bytes = .ok (sig, id, compressed)) ↔
          ∃ first rest, bytes = first :: rest ∧ (27 ≤ first ∧ first ≤ 34) ∧ Paired rest) ∧
      (∀ byte : UInt8, (∃ id : RecoveryId, byte = id.toByte) ↔ byte ≤ 3) := by
  refine ⟨?_, ?_, ?_, ?_, ?_, ?_, ?_⟩
  · exact fun _ => decode_eq_ok.mpr rfl
  · exact fun _ _ _ => decodeRecoverable_eq_ok.mpr rfl
  · exact fun _ _ h => (decode_eq_ok.mp h).symm
  · exact fun _ _ _ _ h => (decodeRecoverable_eq_ok.mp h).symm
  · exact fun _ => exists_decode_iff
  · exact fun _ => exists_decodeRecoverable_iff
  · exact fun _ => RecoveryId.exists_toByte_iff

end Compact

end Bitcoin
