import Bitcoin.Proofs.Machine.Form
import Bitcoin.Proofs.Script.Number

/-!
# One Minimal String a Number

A string is a magnitude with a sign in the top bit of its last byte. Apart from that bit
the last byte is the top digit of the magnitude, so a string is superfluously long exactly
if this digit is zero and the byte before it, if there is one, would have had room for the
sign. In every other string the digits of the magnitude can be read off, with or without
the byte that holds nothing but the sign, and so can the sign: the string is the one that
is written for the number.

This makes the minimal strings the numbers over again. It also makes them the shortest
strings, since the length of a string bounds the magnitude that it can hold, and a minimal
string needs its length.

## Main definitions

* `Number.magnitude`: The magnitude of a string, given its last byte and those before.

## Theorems

* `Number.decode_concat`, `Number.isMinimal_concat`: A string by its last byte.
* `Number.decode_encode`, `Number.isMinimal_encode`, `Number.encode_decode`: The minimal
  strings are those that are written.
* `Number.length_encode_le_iff`: The length of a minimal string.
* `Number.isMinimal_iff_shortest`: Minimal strings are the shortest.
* `Number.read_encode`: Numbers that fit are read back.
* `Number.encode_canonical`: Reading, minimality and length together.
-/

namespace Bitcoin.Number

/-- The top bit of a byte is the sign. -/
theorem signed_iff {last : UInt8} : 0x80 ≤ last ↔ 128 ≤ last.toNat :=
  UInt8.le_iff_toNat_le

theorem toNat_digit (last : UInt8) : (last &&& 0x7f).toNat = last.toNat % 128 := by
  rw [UInt8.toNat_and]
  exact Nat.and_two_pow_sub_one_eq_mod last.toNat 7

-- The sign is put where there is room for it.
theorem toNat_signed {top : UInt8} (h : ¬0x80 ≤ top) :
    (top ||| 0x80).toNat = top.toNat + 128 := by
  have hlt : top.toNat < 2 ^ 7 := Nat.not_le.mp (mt signed_iff.mpr h)
  have hadd := Nat.two_pow_add_eq_or_of_lt hlt 1
  rw [UInt8.toNat_or, Nat.or_comm]
  exact hadd.symm.trans (Nat.add_comm _ _)

/-- The magnitude of a string that ends with the given byte. -/
def magnitude (low : Bytes) (last : UInt8) : Nat :=
  Bytes.toNatLE low + 256 ^ low.length * (last.toNat % 128)

-- A last byte that is nothing but a sign adds nothing to the bytes before it.
theorem magnitude_of_sign {low : Bytes} {last : UInt8} (h : last.toNat % 128 = 0) :
    magnitude low last = Bytes.toNatLE low := by
  rw [magnitude, h, Nat.mul_zero, Nat.add_zero]

/-- A string by its last byte, which holds the sign and the top digit. -/
theorem decode_concat (low : Bytes) (last : UInt8) :
    decode (low ++ [last]) =
      if 0x80 ≤ last then -(magnitude low last : Int) else magnitude low last := by
  have hvalue : Bytes.toNatLE (low ++ [last &&& 0x7f]) = magnitude low last := by
    rw [Bytes.toNatLE_concat, toNat_digit, magnitude]
  rw [decode]
  simp only [List.getLast?_concat, List.dropLast_concat, hvalue]

/-- The absolute value leaves out the bit of the sign. -/
theorem natAbs_decode_concat (low : Bytes) (last : UInt8) :
    (decode (low ++ [last])).natAbs = magnitude low last := by
  rw [decode_concat]
  split
  · rw [Int.natAbs_neg, Int.natAbs_natCast]
  · rw [Int.natAbs_natCast]

/-- What is below zero has the sign, but what has the sign may be zero. -/
theorem decode_concat_neg_iff {low : Bytes} {last : UInt8} (h : magnitude low last ≠ 0) :
    decode (low ++ [last]) < 0 ↔ 0x80 ≤ last := by
  rw [decode_concat]
  split
  · next hsign => exact ⟨fun _ => hsign, fun _ => by omega⟩
  · next hsign => exact ⟨fun hneg => by omega, fun hc => absurd hc hsign⟩

/-- The last byte is needed for its digit, or for the sign because the byte before it has
    no room. -/
theorem isMinimal_concat {low : Bytes} {last : UInt8} :
    isMinimal (low ++ [last]) = true ↔
      last.toNat % 128 ≠ 0 ∨ ∃ rest before, low = rest ++ [before] ∧ 0x80 ≤ before := by
  have hdigit : last &&& 0x7f ≠ 0 ↔ last.toNat % 128 ≠ 0 := by
    rw [← toNat_digit]
    exact not_congr UInt8.toNat_inj.symm
  rw [isMinimal, List.reverse_append, List.reverse_singleton, List.singleton_append]
  -- The byte below the last one decides, and there may be none.
  rcases low.eq_nil_or_concat with rfl | ⟨rest, before, rfl⟩
  · simp only [List.reverse_nil, needsLast, decide_eq_true_eq, hdigit]
    refine ⟨.inl, fun h => h.resolve_right ?_⟩
    rintro ⟨rest, before, hnil, -⟩
    exact absurd hnil.symm (List.concat_ne_nil before rest)
  · simp only [List.concat_eq_append, List.reverse_append, List.reverse_singleton,
      List.singleton_append, needsLast, decide_eq_true_eq, hdigit]
    refine or_congr_right ⟨fun h => ⟨rest, before, rfl, h⟩, ?_⟩
    rintro ⟨rest', before', hsame, h⟩
    cases (List.append_inj' hsame rfl).2
    exact h

/-- The digits of a number, the top one of which is not zero. -/
theorem digits_eq_iff {m : Nat} {low : Bytes} {top : UInt8} :
    Bytes.ofNatLE m = low ++ [top] ↔
      top ≠ 0 ∧ m = Bytes.toNatLE low + 256 ^ low.length * top.toNat := by
  constructor
  · intro h
    refine ⟨fun hzero => Bytes.getLast?_ofNatLE m ?_, ?_⟩
    · rw [h, hzero, List.getLast?_concat]
    · rw [← Bytes.toNatLE_concat, ← h, Bytes.toNatLE_ofNatLE]
  · rintro ⟨htop, rfl⟩
    rw [← Bytes.toNatLE_concat]
    refine Bytes.ofNatLE_toNatLE ?_
    rw [List.getLast?_concat]
    exact fun hc => htop (Option.some.inj hc)

theorem ne_zero_of_digits {m : Nat} {low : Bytes} {top : UInt8}
    (h : Bytes.ofNatLE m = low ++ [top]) : m ≠ 0 := by
  rintro rfl
  rw [Bytes.ofNatLE, if_pos rfl] at h
  exact absurd h.symm (List.concat_ne_nil top low)

/-- What is written for a number with the given digits. -/
theorem encode_of_digits {n : Int} {low : Bytes} {top : UInt8}
    (h : Bytes.ofNatLE n.natAbs = low ++ [top]) :
    encode n =
      if 0x80 ≤ top then low ++ [top] ++ [if n < 0 then 0x80 else 0x00]
      else if n < 0 then low ++ [top ||| 0x80] else low ++ [top] := by
  rw [encode, h]
  simp only [List.getLast?_concat, List.dropLast_concat]

theorem encode_zero : encode 0 = [] := by
  rw [encode, Int.natAbs_zero, Bytes.ofNatLE, if_pos rfl]
  rfl

-- Zero is the number without digits.
theorem eq_zero_or_digits (n : Int) :
    n = 0 ∨ ∃ low top, Bytes.ofNatLE n.natAbs = low ++ [top] := by
  rcases (Bytes.ofNatLE n.natAbs).eq_nil_or_concat with hnil | ⟨low, top, hdigits⟩
  · have hread := Bytes.toNatLE_ofNatLE n.natAbs
    rw [hnil, Bytes.toNatLE] at hread
    exact .inl (Int.natAbs_eq_zero.mp hread.symm)
  · exact .inr ⟨low, top, hdigits.trans List.concat_eq_append⟩

/-- A number is read back from what is written for it. The cases are those of the writer:
    a byte for the sign, the sign in the top digit, and no sign. -/
theorem decode_encode (n : Int) : decode (encode n) = n := by
  rcases eq_zero_or_digits n with rfl | ⟨low, top, hdigits⟩
  · rw [encode_zero]
    rfl
  have hvalue := (digits_eq_iff.mp hdigits).2
  rw [encode_of_digits hdigits]
  -- A full top byte leaves no room for the sign, which then gets a byte of its own.
  by_cases hfull : 0x80 ≤ top
  · have hmagnitude (sign : UInt8) (hsign : sign.toNat % 128 = 0) :
        magnitude (low ++ [top]) sign = n.natAbs := by
      rw [magnitude_of_sign hsign, Bytes.toNatLE_concat, hvalue]
    rw [if_pos hfull, decode_concat]
    by_cases hneg : n < 0
    · rw [if_pos hneg, if_pos (by decide), hmagnitude 0x80 rfl]
      omega
    · rw [if_neg hneg, if_neg (by decide), hmagnitude 0x00 rfl]
      omega
  · -- Otherwise the sign is the high bit of the top byte.
    have hsmall := mt signed_iff.mpr hfull
    rw [if_neg hfull]
    by_cases hneg : n < 0
    · have hsigned := toNat_signed hfull
      have hsign : 0x80 ≤ top ||| 0x80 := signed_iff.mpr (by omega)
      have hdigit : (top ||| 0x80).toNat % 128 = top.toNat := by omega
      rw [if_pos hneg, decode_concat, if_pos hsign, magnitude, hdigit, ← hvalue]
      omega
    · have hdigit : top.toNat % 128 = top.toNat := by omega
      rw [if_neg hneg, decode_concat, if_neg hfull, magnitude, hdigit, ← hvalue]
      omega

/-- What is written is minimal. -/
theorem isMinimal_encode (n : Int) : isMinimal (encode n) = true := by
  rcases eq_zero_or_digits n with rfl | ⟨low, top, hdigits⟩
  · rw [encode_zero]
    rfl
  -- The digits of a number have no zero on top.
  have htop : top.toNat ≠ 0 := fun hzero =>
    (digits_eq_iff.mp hdigits).1 (UInt8.toNat_inj.mp hzero)
  rw [encode_of_digits hdigits]
  by_cases hfull : 0x80 ≤ top
  · rw [if_pos hfull]
    exact isMinimal_concat.mpr (.inr ⟨low, top, rfl, hfull⟩)
  · have hsigned := toNat_signed hfull
    have hsmall := mt signed_iff.mpr hfull
    rw [if_neg hfull]
    split
    · exact isMinimal_concat.mpr (.inl (by omega))
    · exact isMinimal_concat.mpr (.inl (by omega))

-- A last byte without a digit is written for the sign alone.
theorem encode_decode_of_sign {rest : Bytes} {before last : UInt8} (hdigit : last.toNat % 128 = 0)
    (hbefore : 0x80 ≤ before) :
    encode (decode (rest ++ [before] ++ [last])) = rest ++ [before] ++ [last] := by
  have hlast := last.toNat_lt
  have hzero : before ≠ 0 := fun hc => absurd (hc ▸ hbefore) (by decide)
  have hvalue : magnitude (rest ++ [before]) last
      = Bytes.toNatLE rest + 256 ^ rest.length * before.toNat := by
    rw [magnitude_of_sign hdigit, Bytes.toNatLE_concat]
  -- The byte of the sign holds no digit, so the digits end below it.
  have hdigits := digits_eq_iff.mpr ⟨hzero, hvalue⟩
  have hneg := decode_concat_neg_iff (ne_zero_of_digits hdigits)
  rw [← natAbs_decode_concat] at hdigits
  rw [encode_of_digits hdigits, if_pos hbefore]
  refine congrArg (rest ++ [before] ++ [·]) ?_
  by_cases hsign : 0x80 ≤ last
  · have hge := signed_iff.mp hsign
    rw [if_pos (hneg.mpr hsign)]
    exact UInt8.toNat_inj.mp (show 128 = last.toNat by omega)
  · have hlt := mt signed_iff.mpr hsign
    rw [if_neg (mt hneg.mp hsign)]
    exact UInt8.toNat_inj.mp (show 0 = last.toNat by omega)

-- A last byte with a digit is written as that digit, with the sign put into it.
theorem encode_decode_of_digit {low : Bytes} {last : UInt8} (hdigit : last.toNat % 128 ≠ 0) :
    encode (decode (low ++ [last])) = low ++ [last] := by
  have htop := toNat_digit last
  have hzero : last &&& 0x7f ≠ 0 := fun hc => hdigit (htop.symm.trans (congrArg _ hc))
  have hvalue : magnitude low last
      = Bytes.toNatLE low + 256 ^ low.length * (last &&& 0x7f).toNat := by
    rw [magnitude, htop]
  have hdigits := digits_eq_iff.mpr ⟨hzero, hvalue⟩
  have hneg := decode_concat_neg_iff (ne_zero_of_digits hdigits)
  -- Without the sign the last byte is the top digit, and has room for it.
  have hroom : ¬0x80 ≤ last &&& 0x7f := mt signed_iff.mp (by omega)
  rw [← natAbs_decode_concat] at hdigits
  rw [encode_of_digits hdigits, if_neg hroom]
  by_cases hsign : 0x80 ≤ last
  · have hlast := last.toNat_lt
    have hge := signed_iff.mp hsign
    have hsigned := toNat_signed hroom
    have hsame : last &&& 0x7f ||| 0x80 = last := UInt8.toNat_inj.mp (by omega)
    rw [if_pos (hneg.mpr hsign), hsame]
  · have hlt := mt signed_iff.mpr hsign
    have hsame : last &&& 0x7f = last := UInt8.toNat_inj.mp (by omega)
    rw [if_neg (mt hneg.mp hsign), hsame]

/-- A minimal string is what is written for its number. -/
theorem encode_decode {bytes : Bytes} (h : isMinimal bytes = true) :
    encode (decode bytes) = bytes := by
  rcases bytes.eq_nil_or_concat with rfl | ⟨low, last, hbytes⟩
  · exact encode_zero
  rw [List.concat_eq_append] at hbytes
  subst hbytes
  by_cases hdigit : last.toNat % 128 = 0
  · rcases isMinimal_concat.mp h with hneeded | ⟨rest, before, rfl, hbefore⟩
    · exact absurd hdigit hneeded
    · exact encode_decode_of_sign hdigit hbefore
  · exact encode_decode_of_digit hdigit

/-- A minimal string has no more bytes than the magnitude and the sign of its number need. -/
theorem length_encode_le_iff {n : Int} {width : Nat} :
    (encode n).length ≤ width ↔ Fits width n := by
  refine ⟨fun h => ?_, length_encode_le⟩
  rw [← decode_encode n]
  exact fits_decode h

-- A string that is not minimal could do without its last byte.
theorem fits_of_not_isMinimal {low : Bytes} {last : UInt8}
    (h : ¬isMinimal (low ++ [last]) = true) : Fits low.length (decode (low ++ [last])) := by
  rw [isMinimal_concat, not_or, not_not] at h
  rw [Fits, natAbs_decode_concat, magnitude_of_sign h.1]
  rcases low.eq_nil_or_concat with rfl | ⟨rest, before, rfl⟩
  · exact Nat.one_pos
  · rw [List.concat_eq_append] at h ⊢
    -- The byte below has its high bit clear, so the number fits into one byte less.
    have hroom : ¬128 ≤ before.toNat := fun hc =>
      h.2 ⟨rest, before, rfl, signed_iff.mpr hc⟩
    have hrest := Bytes.toNatLE_lt rest
    have htop : 256 ^ rest.length * before.toNat ≤ 256 ^ rest.length * 127 :=
      Nat.mul_le_mul_left _ (by omega)
    rw [Bytes.toNatLE_concat, List.length_append, List.length_singleton, Nat.pow_succ]
    omega

/-- The minimal strings are the shortest ones of their numbers. -/
theorem isMinimal_iff_shortest {bytes : Bytes} :
    isMinimal bytes = true ↔
      ∀ shorter : Bytes, shorter.length < bytes.length → decode shorter ≠ decode bytes := by
  constructor
  · intro h shorter hlength hsame
    have hle := length_encode_le (hsame ▸ fits_decode (Nat.le_refl shorter.length))
    rw [encode_decode h] at hle
    omega
  · intro h
    rcases bytes.eq_nil_or_concat with rfl | ⟨low, last, hbytes⟩
    · rfl
    rw [List.concat_eq_append] at hbytes
    subst hbytes
    by_contra hminimal
    -- What is written for the number is then shorter, and it stands for the same.
    have hle := length_encode_le (fits_of_not_isMinimal hminimal)
    refine h (encode (decode (low ++ [last]))) ?_ (decode_encode _)
    rw [List.length_append, List.length_singleton]
    omega

/-- What fits into some bytes with a sign is less than the power of two at the sign. -/
theorem fits_iff {n : Int} {width : Nat} :
    Fits (width + 1) n ↔ n.natAbs < 2 ^ (8 * (width + 1) - 1) := by
  have hbits : 8 * (width + 1) = 8 * (width + 1) - 1 + 1 := by omega
  have hpow : 256 ^ (width + 1) = 2 * 2 ^ (8 * (width + 1) - 1) := by
    rw [show (256 : Nat) = 2 ^ 8 from rfl, ← Nat.pow_mul, ← Nat.pow_succ']
    exact congrArg (2 ^ ·) hbits
  rw [Fits, hpow]
  exact Nat.mul_lt_mul_left (by decide)

/-- What is written for a number that fits is read back, under either rule. -/
theorem read_encode {n : Int} {width : Nat} (h : Fits width n) (minimal : Bool) :
    NumberRule.read ⟨width, minimal⟩ (encode n) = .ok n := by
  refine NumberRule.read_eq_ok.mpr ⟨Nat.not_lt.mpr (length_encode_le h), ?_, decode_encode n⟩
  exact fun hform => hform.2 (isMinimal_encode n)

-- The two truth values are the numbers zero and one.
theorem encode_ofBool (b : Bool) : encode (ofBool b) = Element.ofBool b := by
  cases b with
  | false => exact encode_zero
  | true => exact encode_decode (show isMinimal [1] = true from rfl)

theorem requireMinimal_eq_ok {bytes : Bytes} :
    requireMinimal bytes = .ok () ↔ isMinimal bytes = true := by
  rw [requireMinimal]
  split
  · next h => exact ⟨fun _ => h, fun _ => rfl⟩
  · next h => exact ⟨nofun, fun hc => absurd hc h⟩

/-- Numbers and minimal strings are in one-to-one correspondence. Under the rule on minimal
    strings a string is read as a number exactly if it is what is written for the number
    and not too long; the rule lets a string through exactly if no shorter one stands for
    the same number; and what is written for a number fits into so many bytes exactly if
    its magnitude leaves the top bit of so many bytes free. -/
theorem encode_canonical (n : Int) (bytes : Bytes) (maxLength width : Nat) :
    (NumberRule.read ⟨maxLength, true⟩ bytes = .ok n ↔
      bytes = encode n ∧ (encode n).length ≤ maxLength) ∧
    (requireMinimal bytes = .ok () ↔
      ∀ shorter : Bytes, shorter.length < bytes.length → decode shorter ≠ decode bytes) ∧
    ((encode n).length ≤ width + 1 ↔ n.natAbs < 2 ^ (8 * (width + 1) - 1)) := by
  refine ⟨?_, requireMinimal_eq_ok.trans isMinimal_iff_shortest,
    length_encode_le_iff.trans fits_iff⟩
  rw [NumberRule.read_eq_ok]
  constructor
  · rintro ⟨hlength, hform, rfl⟩
    -- The rule refuses every form that is not minimal.
    have hminimal : isMinimal bytes = true := by
      by_contra hc
      exact hform ⟨rfl, hc⟩
    rw [encode_decode hminimal]
    exact ⟨rfl, Nat.not_lt.mp hlength⟩
  · rintro ⟨rfl, hlength⟩
    exact ⟨Nat.not_lt.mpr hlength, fun hc => hc.2 (isMinimal_encode n), decode_encode n⟩

end Bitcoin.Number
