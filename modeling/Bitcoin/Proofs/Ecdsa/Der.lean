import Bitcoin.Ecdsa.Der
import Bitcoin.Proofs.Bytes
import Bitcoin.Proofs.Ecdsa.Scalar
import Bitcoin.Proofs.Result

/-!
# One DER Form a Signature

The decoder accepts a byte string exactly if it is the form of a signature, and it
gives this signature. So no signature is lost on the way to its form and back, and
nobody can make a second form of a signature by adding, removing or changing bytes.

Both directions rest on the same view of a string: six bytes in fixed places before
and between the contents of two integers. In this view every check of the decoder
fixes a byte or a length, and what it asks of the contents is to be minimal. There
is one minimal content for every number, which is the one that the encoder writes.

## Main definitions

* `Der.Minimal`: The contents of integers that are not negative.

## Theorems

* `Der.minimal_integer`, `Der.toNatBE_integer`, `Der.integer_toNatBE`: One minimal
  content for every number.
* `Der.content_eq_ok`, `Der.scalar_eq_ok`: What the decoder accepts as an integer.
* `Der.exists_layout`: Six bytes and two contents.
* `Der.getD_layout`: The bytes behind the first content.
* `Der.parse_layout_eq_ok`: What the decoder checks in that layout.
* `Der.decode_eq_ok_iff`: The decoder accepts the forms of signatures and nothing else.
-/

namespace Bitcoin.Der

/-- The content of an integer that is not negative, in as few bytes as possible: a zero in
    front is followed by a byte that would make it negative. -/
def Minimal : Bytes → Prop
  | [] => False
  | [only] => only < 0x80
  | first :: second :: _ => first < 0x80 ∧ ¬(first = 0 ∧ second < 0x80)

/-- What is written has no byte that could be left out and no sign. -/
theorem minimal_integer (v : Nat) : Minimal (integer v) := by
  have hhead := Bytes.head?_ofNatBE v
  rw [integer]
  generalize Bytes.ofNatBE v = bytes at hhead
  rcases bytes with _ | ⟨first, rest⟩
  · exact (by decide : (0 : UInt8) < 0x80)
  · have hfirst : first ≠ 0 := by simpa using hhead
    -- A zero is put in front just where the first byte would be read as a sign.
    by_cases hbig : 0x80 ≤ first
    · simp only [if_pos hbig]
      exact ⟨by decide, fun hc => UInt8.not_lt.mpr hbig hc.2⟩
    · have hsmall : first < 0x80 := UInt8.not_le.mp hbig
      simp only [if_neg hbig]
      rcases rest with _ | ⟨second, rest⟩
      · exact hsmall
      · exact ⟨hsmall, fun hc => hfirst hc.1⟩

/-- The zero in front does not change the number. -/
theorem toNatBE_integer (v : Nat) : (integer v).toNatBE = v := by
  have hread := Bytes.toNatBE_ofNatBE v
  rw [integer]
  rcases hbytes : Bytes.ofNatBE v with _ | ⟨first, rest⟩
  · rw [hbytes] at hread
    rw [← hread]
    rfl
  · rw [hbytes] at hread
    by_cases hbig : 0x80 ≤ first
    · simp only [if_pos hbig]
      rw [Bytes.toNatBE_zero_cons, hread]
    · simp only [if_neg hbig]
      exact hread

/-- The content of an integer is the only minimal one that stands for it. -/
theorem integer_toNatBE {bytes : Bytes} (h : Minimal bytes) : integer bytes.toNatBE = bytes := by
  rcases bytes with _ | ⟨first, rest⟩
  · exact absurd h id
  by_cases hzero : first = 0
  · subst hzero
    rcases rest with _ | ⟨second, rest⟩
    · rw [Bytes.toNatBE_zero_cons]
      simp [integer, Bytes.toNatBE, Bytes.toNatLE, Bytes.ofNatBE, Bytes.ofNatLE]
    · -- The byte behind the zero has its top bit set, so it is not zero itself.
      have hbig : 0x80 ≤ second := UInt8.not_lt.mp fun hsmall => h.2 ⟨rfl, hsmall⟩
      have hsecond : (second :: rest).head? ≠ some 0 := by
        intro hc
        rw [List.head?_cons, Option.some.injEq] at hc
        rw [hc] at hbig
        exact absurd hbig (by decide)
      rw [Bytes.toNatBE_zero_cons, integer, Bytes.ofNatBE_toNatBE hsecond]
      exact if_pos hbig
  · have hsmall : ¬0x80 ≤ first := by
      rcases rest with _ | ⟨second, rest⟩
      · exact UInt8.not_le.mpr h
      · exact UInt8.not_le.mpr h.1
    rw [integer, Bytes.ofNatBE_toNatBE (by simpa using hzero)]
    exact if_neg hsmall

/-- A number of 32 bytes has at most one more. -/
theorem length_integer_le {v : Nat} (h : v < 256 ^ 32) : (integer v).length ≤ 33 := by
  have hlength := Bytes.length_ofNatBE_le h
  rw [integer]
  generalize Bytes.ofNatBE v = bytes at hlength
  rcases bytes with _ | ⟨first, rest⟩
  · decide
  · rw [List.length_cons] at hlength
    by_cases hbig : 0x80 ≤ first
    · simp only [if_pos hbig, List.length_cons]
      omega
    · simp only [if_neg hbig, List.length_cons]
      omega

theorem length_pos_of_minimal {bytes : Bytes} (h : Minimal bytes) : 0 < bytes.length := by
  rcases bytes with _ | ⟨first, rest⟩
  · exact absurd h id
  · exact Nat.succ_pos _

/-- What the decoder takes for the content of an integer. -/
theorem content_eq_ok {c : Component} {element bytes : Bytes} :
    content c element = .ok bytes ↔
      element.headD 0 = 0x02 ∧ element.drop 2 = bytes ∧ Minimal bytes := by
  rw [content]
  refine Result.refuse_eq_ok.trans (and_congr not_not ?_)
  -- One byte must not be a sign, and of two or more the first one must also be needed.
  rcases element.drop 2 with _ | ⟨first, _ | ⟨second, rest⟩⟩
  · refine ⟨nofun, ?_⟩
    rintro ⟨rfl, hminimal⟩
    exact absurd hminimal id
  · refine Result.refuse_eq_ok.trans ⟨?_, ?_⟩
    · rintro ⟨hsmall, hbytes⟩
      cases hbytes
      exact ⟨rfl, UInt8.not_le.mp hsmall⟩
    · rintro ⟨rfl, hsmall⟩
      exact ⟨UInt8.not_le.mpr hsmall, rfl⟩
  · refine Result.refuse_eq_ok.trans ⟨?_, ?_⟩
    · rintro ⟨hsmall, hrest⟩
      rcases Result.refuse_eq_ok.mp hrest with ⟨hzero, hbytes⟩
      cases hbytes
      exact ⟨rfl, UInt8.not_le.mp hsmall, hzero⟩
    · rintro ⟨rfl, hsmall, hzero⟩
      exact ⟨UInt8.not_le.mpr hsmall, Result.refuse_eq_ok.mpr ⟨hzero, rfl⟩⟩

/-- The scalar is the one of this number, which must be in range. -/
theorem scalar_eq_ok {c : Component} {bytes : Bytes} {k : Scalar} :
    scalar c bytes = .ok k ↔ bytes.toNatBE = k.val := by
  rw [← Scalar.ofInt?_eq_some, scalar]
  rcases Scalar.ofInt? bytes.toNatBE with _ | found
  · exact ⟨nofun, nofun⟩
  · exact ⟨fun h => congrArg some (Except.ok.inj h),
      fun h => congrArg Except.ok (Option.some.inj h)⟩

/-- The checks of the decoder, in order. -/
theorem parse_eq_ok {bytes : Bytes} {sig : Signature} :
    parse bytes = .ok sig ↔
      ¬bytes.length < minLength ∧ ¬maxLength < bytes.length ∧ ¬bytes.getD 0 0 ≠ 0x30 ∧
      ¬(bytes.getD 1 0).toNat ≠ bytes.length - 2 ∧
      let rLength := (bytes.getD 3 0).toNat
      ¬bytes.length ≤ 5 + rLength ∧
      ¬rLength + (bytes.getD (5 + rLength) 0).toNat + 6 ≠ bytes.length ∧
      ∃ r, content .r ((bytes.drop 2).take (2 + rLength)) = .ok r ∧
        ∃ s, content .s (bytes.drop (4 + rLength)) = .ok s ∧
        ∃ k, scalar .r r = .ok k ∧ ∃ l, scalar .s s = .ok l ∧ ⟨k, l⟩ = sig := by
  rw [parse]
  refine Result.guard_eq_ok.trans (and_congr_right fun _ => ?_)
  refine Result.guard_eq_ok.trans (and_congr_right fun _ => ?_)
  refine Result.guard_eq_ok.trans (and_congr_right fun _ => ?_)
  refine Result.guard_eq_ok.trans (and_congr_right fun _ => ?_)
  refine Result.guard_eq_ok.trans (and_congr_right fun _ => ?_)
  refine Result.guard_eq_ok.trans (and_congr_right fun _ => ?_)
  -- The lengths are consistent by now, and the two contents are read.
  refine Result.bind_eq_ok.trans (exists_congr fun r => and_congr_right fun _ => ?_)
  refine Result.bind_eq_ok.trans (exists_congr fun s => and_congr_right fun _ => ?_)
  refine Result.bind_eq_ok.trans (exists_congr fun k => and_congr_right fun _ => ?_)
  refine Result.bind_eq_ok.trans (exists_congr fun l => and_congr_right fun _ => ?_)
  exact ⟨Except.ok.inj, congrArg Except.ok⟩

section
variable {a b c d e f : UInt8} {bytes r s : Bytes} {sig : Signature}

/-- Six bytes and two contents, where the fourth byte is the length of the first
    content. -/
theorem exists_layout (h : 5 + (bytes.getD 3 0).toNat < bytes.length) :
    ∃ a b c d r e f s, bytes = [a, b, c, d] ++ r ++ [e, f] ++ s ∧ r.length = d.toNat := by
  rcases bytes with _ | ⟨a, _ | ⟨b, _ | ⟨c, _ | ⟨d, tail⟩⟩⟩⟩
  · exact absurd h (by simp)
  · exact absurd h (by simp)
  · exact absurd h (by simp)
  · exact absurd h (by simp)
  -- The first content and the two bytes in front of the second one are there.
  have htail : d.toNat + 2 ≤ tail.length := by
    simp only [List.getD_cons_succ, List.getD_cons_zero, List.length_cons] at h
    omega
  have hbehind : 2 ≤ (tail.drop d.toNat).length := by
    rw [List.length_drop]
    omega
  rcases hs : tail.drop d.toNat with _ | ⟨e, _ | ⟨f, s⟩⟩
  · exact absurd hbehind (by simp [hs])
  · exact absurd hbehind (by simp [hs])
  refine ⟨a, b, c, d, tail.take d.toNat, e, f, s, ?_, ?_⟩
  · have hsplit := List.take_append_drop d.toNat tail
    rw [hs] at hsplit
    simp [hsplit]
  · rw [List.length_take]
    omega

/-- What stands behind the first content. -/
theorem drop_layout :
    ([a, b, c, d] ++ r ++ [e, f] ++ s).drop (4 + r.length) = [e, f] ++ s := by
  have hfront : ([a, b, c, d] ++ r).length = 4 + r.length := by
    simp only [List.length_append, List.length_cons, List.length_nil]
  rw [List.append_assoc, List.drop_append_of_le_length (by omega), ← hfront, List.drop_length]
  rfl

/-- What is behind the first content is found by its length. -/
theorem getD_layout (i : Nat) :
    ([a, b, c, d] ++ r ++ [e, f] ++ s).getD (4 + r.length + i) 0 = ([e, f] ++ s).getD i 0 := by
  rw [← drop_layout (a := a) (b := b) (c := c) (d := d) (r := r)]
  simp only [List.getD_eq_getElem?_getD, List.getElem?_drop]

theorem length_layout :
    ([a, b, c, d] ++ r ++ [e, f] ++ s).length = 6 + r.length + s.length := by
  simp only [List.length_append, List.length_cons, List.length_nil]
  omega

/-- What the decoder checks where the bytes have their places. -/
theorem parse_layout_eq_ok (hd : r.length = d.toNat) :
    parse ([a, b, c, d] ++ r ++ [e, f] ++ s) = .ok sig ↔
      (a = 0x30 ∧ b.toNat = 4 + r.length + s.length ∧ c = 0x02 ∧ e = 0x02 ∧
        f.toNat = s.length ∧ r.length + s.length ≤ 66) ∧
      (Minimal r ∧ r.toNatBE = sig.r.val) ∧ Minimal s ∧ s.toNatBE = sig.s.val := by
  -- What the decoder reads at its offsets is what the layout has there.
  have hbehind := drop_layout (a := a) (b := b) (c := c) (d := d) (e := e) (f := f) (r := r)
    (s := s)
  have hf : ([a, b, c, d] ++ r ++ [e, f] ++ s).getD (5 + r.length) 0 = f := by
    rw [show 5 + r.length = 4 + r.length + 1 by omega]
    exact getD_layout 1
  have hr : (([a, b, c, d] ++ r ++ [e, f] ++ s).drop 2).take (2 + r.length) = [c, d] ++ r := by
    simp [Nat.add_comm 2]
  -- The fourth byte is the length of the first content, wherever the decoder asks for it.
  rw [parse_eq_ok, length_layout]
  simp only [List.cons_append, List.getD_cons_zero, List.getD_cons_succ, ← hd] at hbehind hf hr ⊢
  rw [hf, hr, hbehind]
  constructor
  · rintro ⟨hmin, hmax, ha, hb, hover, hlengths, r', hr', s', hs', k, hk, l, hl, rfl⟩
    rcases content_eq_ok.mp hr' with ⟨hc, rfl, hminr⟩
    rcases content_eq_ok.mp hs' with ⟨he, rfl, hmins⟩
    refine ⟨⟨not_not.mp ha, ?_, hc, he, ?_, ?_⟩, ⟨hminr, scalar_eq_ok.mp hk⟩, hmins,
      scalar_eq_ok.mp hl⟩
    · omega
    · omega
    · rw [maxLength] at hmax
      omega
  · rintro ⟨⟨ha, hb, hc, he, hf, hmax⟩, ⟨hminr, hk⟩, hmins, hl⟩
    have hposr := length_pos_of_minimal hminr
    have hposs := length_pos_of_minimal hmins
    refine ⟨?_, ?_, not_not.mpr ha, ?_, ?_, ?_, r, content_eq_ok.mpr ⟨hc, rfl, hminr⟩, s,
      content_eq_ok.mpr ⟨he, rfl, hmins⟩, sig.r, scalar_eq_ok.mpr hk, sig.s,
      scalar_eq_ok.mpr hl, rfl⟩
    · rw [minLength]
      omega
    · rw [maxLength]
      omega
    · omega
    · omega
    · omega

end

/-- The decoder accepts the forms of signatures, each as its signature, and no other byte
    string. -/
theorem decode_eq_ok_iff (bytes : Bytes) (sig : Signature) :
    decode bytes = .ok sig ↔ bytes = encode sig := by
  rw [decode, Result.mapError_eq_ok]
  constructor
  · intro h
    have hover : 5 + (bytes.getD 3 0).toNat < bytes.length :=
      Nat.not_le.mp (parse_eq_ok.mp h).2.2.2.2.1
    rcases exists_layout hover with ⟨a, b, c, d, r, e, f, s, rfl, hd⟩
    rcases (parse_layout_eq_ok hd).mp h with
      ⟨⟨rfl, hb, rfl, rfl, hf, hmax⟩, ⟨hminr, hr⟩, hmins, hs⟩
    -- The contents are those of the encoder, and the lengths are those of the contents.
    have hrcontent : integer sig.r.val = r := by rw [← hr, integer_toNatBE hminr]
    have hscontent : integer sig.s.val = s := by rw [← hs, integer_toNatBE hmins]
    have hb' : UInt8.ofNat (4 + r.length + s.length) = b := by rw [← hb, UInt8.ofNat_toNat]
    have hd' : UInt8.ofNat r.length = d := by rw [hd, UInt8.ofNat_toNat]
    have hf' : UInt8.ofNat s.length = f := by rw [← hf, UInt8.ofNat_toNat]
    rw [encode, hrcontent, hscontent, hb', hd', hf']
  · rintro rfl
    have hr := length_integer_le (Nat.lt_trans sig.r.lt (by decide))
    have hs := length_integer_le (Nat.lt_trans sig.s.lt (by decide))
    -- The lengths are small enough for the bytes that hold them.
    have hsize : UInt8.size = 256 := rfl
    have hlengthr : (UInt8.ofNat (integer sig.r.val).length).toNat = (integer sig.r.val).length :=
      UInt8.toNat_ofNat_of_lt' (by omega)
    refine (parse_layout_eq_ok hlengthr.symm).mpr ⟨⟨rfl, ?_, rfl, rfl, ?_, by omega⟩,
      ⟨minimal_integer _, toNatBE_integer _⟩, minimal_integer _, toNatBE_integer _⟩
    · exact UInt8.toNat_ofNat_of_lt' (by omega)
    · exact UInt8.toNat_ofNat_of_lt' (by omega)

end Bitcoin.Der
