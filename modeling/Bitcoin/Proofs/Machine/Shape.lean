import Bitcoin.Proofs.Ecdsa.Der
import Bitcoin.Proofs.Machine.Form

/-!
# Shapes of Signatures

Two parts of the library look at the DER form of a signature. The decoder takes the
form apart and gives the signature. The machine looks at the shape of the bytes only,
since a signature that is well written may still be none, and it looks at them at
offsets, in an order of its own. Where both are done with a byte string they have made
the same checks, but for one: the decoder wants both integers to be scalars.

So a signature is not accepted by one of the two and refused by the other because of how
it is written. What the machine takes for the second integer is the second component of
the signature, and its rule on low signatures is about the same number.

## Main definitions

* `Der.contents`: The contents of the two integers, by their lengths.
* `Der.InRange`: The content of a scalar.

## Theorems

* `Der.minimal_iff`: Minimal contents, seen from their first two bytes.
* `SignatureForm.shape_layout_eq_ok`: What the machine checks where the bytes have their
  places.
* `SignatureForm.decode_iff_shape`: The decoder and the machine agree.
-/

namespace Bitcoin

namespace Der

/-- The contents of the two integers of a form, cut out by the lengths in front of them. -/
def contents (der : Bytes) : Bytes × Bytes :=
  let rLength := (der.getD 3 0).toNat
  let sLength := (der.getD (5 + rLength) 0).toNat
  ((der.drop 4).take rLength, (der.drop (6 + rLength)).take sLength)

/-- A content that stands for a scalar. -/
def InRange (content : Bytes) : Prop :=
  0 < content.toNatBE ∧ content.toNatBE < Curve.order

theorem inRange_of_eq {content : Bytes} {k : Scalar} (h : content.toNatBE = k.val) :
    InRange content := by
  rw [InRange, h]
  exact ⟨k.pos, k.lt⟩

/-- A content is minimal or not by its first two bytes, whatever stands behind it. -/
theorem minimal_iff (content behind : Bytes) :
    Minimal content ↔ ¬content.length = 0 ∧ ¬0x80 ≤ (content ++ behind).getD 0 0 ∧
      ¬(1 < content.length ∧ (content ++ behind).getD 0 0 = 0 ∧
        (content ++ behind).getD 1 0 < 0x80) := by
  rcases content with _ | ⟨first, _ | ⟨second, rest⟩⟩
  · exact ⟨fun h => absurd h id, fun h => absurd rfl h.1⟩
  · simp [Minimal]
  · simp [Minimal]

end Der

namespace SignatureForm

/-- The sixteen conditions on the shape, and what it finds. -/
theorem shape_eq_ok {sig t : Bytes} :
    shape sig = .ok t ↔
      ¬sig.length < 8 ∧ ¬72 < sig.length ∧ ¬sig.getD 0 0 ≠ 0x30 ∧
      ¬(sig.getD 1 0).toNat ≠ sig.length - 2 ∧
      let rLength := (sig.getD 3 0).toNat
      ¬sig.length ≤ 4 + rLength ∧ ¬sig.length ≤ 4 + rLength + 1 ∧
      let sLength := (sig.getD (4 + rLength + 1) 0).toNat
      ¬4 + rLength + 2 + sLength ≠ sig.length ∧ ¬sig.getD 2 0 ≠ 0x02 ∧
      ¬rLength = 0 ∧ ¬0x80 ≤ sig.getD 4 0 ∧
      ¬(1 < rLength ∧ sig.getD 4 0 = 0 ∧ sig.getD 5 0 < 0x80) ∧
      ¬sig.getD (4 + rLength) 0 ≠ 0x02 ∧ ¬sLength = 0 ∧ ¬0x80 ≤ sig.getD (4 + rLength + 2) 0 ∧
      ¬(1 < sLength ∧ sig.getD (4 + rLength + 2) 0 = 0 ∧
        sig.getD (4 + rLength + 3) 0 < 0x80) ∧
      sig.drop (4 + rLength + 2) = t := by
  rw [shape]
  iterate 15 refine Result.guard_eq_ok.trans (and_congr_right fun _ => ?_)
  exact ⟨Except.ok.inj, congrArg Except.ok⟩

section
variable {a b c d e f : UInt8} {r s t : Bytes}

/-- What is behind the first content and its header is the second one. -/
theorem drop_content :
    ([a, b, c, d] ++ r ++ [e, f] ++ s).drop (4 + r.length + 2) = s := by
  rw [← List.drop_drop, Der.drop_layout]
  rfl

/-- What the machine checks where the bytes have their places. -/
theorem shape_layout_eq_ok (hd : r.length = d.toNat) :
    shape ([a, b, c, d] ++ r ++ [e, f] ++ s) = .ok t ↔
      (a = 0x30 ∧ b.toNat = 4 + r.length + s.length ∧ c = 0x02 ∧ e = 0x02 ∧
        f.toNat = s.length ∧ r.length + s.length ≤ 66) ∧
      Der.Minimal r ∧ Der.Minimal s ∧ s = t := by
  -- What the machine reads at its offsets is what the layout has there.
  have htag : ([a, b, c, d] ++ r ++ [e, f] ++ s).getD (4 + r.length) 0 = e := Der.getD_layout 0
  have hlength : ([a, b, c, d] ++ r ++ [e, f] ++ s).getD (4 + r.length + 1) 0 = f :=
    Der.getD_layout 1
  have hfirst : ([a, b, c, d] ++ r ++ [e, f] ++ s).getD (4 + r.length + 2) 0 = s.getD 0 0 :=
    Der.getD_layout 2
  have hsecond : ([a, b, c, d] ++ r ++ [e, f] ++ s).getD (4 + r.length + 3) 0 = s.getD 1 0 :=
    Der.getD_layout 3
  have hfront : ∀ i, ([a, b, c, d] ++ r ++ [e, f] ++ s).getD (i + 4) 0
      = (r ++ ([e, f] ++ s)).getD i 0 := by
    intro i
    rw [← List.append_assoc r]
    rfl
  have hrlength : (([a, b, c, d] ++ r ++ [e, f] ++ s).getD 3 0).toNat = r.length := hd.symm
  -- Behind the first content stands the second integer, behind the second one nothing.
  have hminr := Der.minimal_iff r ([e, f] ++ s)
  have hmins := Der.minimal_iff s []
  rw [List.append_nil] at hmins
  rw [shape_eq_ok, hrlength]
  simp only [Der.length_layout, drop_content]
  rw [htag, hlength, hfirst, hsecond, hfront 0, hfront 1, hminr, hmins]
  constructor
  · rintro ⟨-, hmax, ha, hb, -, -, hs, hc, hr0, hr1, hr2, he, hs0, hs1, hs2, rfl⟩
    have hf : f.toNat = s.length := by omega
    rw [hf] at hs0 hs2
    have hb : b.toNat = 6 + r.length + s.length - 2 := not_not.mp hb
    exact ⟨⟨not_not.mp ha, by omega, not_not.mp hc, not_not.mp he, hf, by omega⟩, ⟨hr0, hr1, hr2⟩,
      ⟨hs0, hs1, hs2⟩, rfl⟩
  · rintro ⟨⟨ha, hb, hc, he, hf, hmax⟩, ⟨hr0, hr1, hr2⟩, ⟨hs0, hs1, hs2⟩, rfl⟩
    rw [hf]
    refine ⟨by omega, by omega, not_not.mpr ha, ?_, by omega, by omega, by omega, not_not.mpr hc,
      hr0, hr1, hr2, not_not.mpr he, hs0, hs1, hs2, rfl⟩
    rw [not_not]
    exact hb.trans (by omega)

/-- The contents of a signature that is laid out like this. -/
theorem contents_layout (hd : r.length = d.toNat) (hf : f.toNat = s.length) :
    Der.contents ([a, b, c, d] ++ r ++ [e, f] ++ s) = (r, s) := by
  have hrlength : (([a, b, c, d] ++ r ++ [e, f] ++ s).getD 3 0).toNat = r.length := hd.symm
  have hlength : ([a, b, c, d] ++ r ++ [e, f] ++ s).getD (5 + r.length) 0 = f := by
    rw [show 5 + r.length = 4 + r.length + 1 by omega]
    exact Der.getD_layout 1
  have hr : (([a, b, c, d] ++ r ++ [e, f] ++ s).drop 4).take r.length = r := by
    simp
  have hs : ([a, b, c, d] ++ r ++ [e, f] ++ s).drop (6 + r.length) = s := by
    rw [show 6 + r.length = 4 + r.length + 2 by omega]
    exact drop_content
  simp only [Der.contents, hrlength, hlength, hr, hs, hf, List.take_length]

end

/-- A byte string that the decoder accepts has a shape, and its contents are the components
    of the signature. -/
theorem shape_of_decode {der : Bytes} {sig : Signature} (h : Der.decode der = .ok sig) :
    shape der = .ok (Der.contents der).2 ∧ (Der.contents der).1.toNatBE = sig.r.val ∧
      (Der.contents der).2.toNatBE = sig.s.val := by
  have hparse := Result.mapError_eq_ok.mp h
  have hlong : 5 + (der.getD 3 0).toNat < der.length :=
    Nat.not_le.mp (Der.parse_eq_ok.mp hparse).2.2.2.2.1
  rcases Der.exists_layout hlong with ⟨a, b, c, d, r, e, f, s, rfl, hd⟩
  rcases (Der.parse_layout_eq_ok hd).mp hparse with ⟨hframe, ⟨hminr, hr⟩, hmins, hs⟩
  rw [contents_layout hd hframe.2.2.2.2.1]
  exact ⟨(shape_layout_eq_ok hd).mpr ⟨hframe, hminr, hmins, rfl⟩, hr, hs⟩

/-- A byte string with a shape is accepted by the decoder if its contents are in range. -/
theorem decode_of_shape {der s : Bytes} (h : shape der = .ok s)
    (hr : Der.InRange (Der.contents der).1) (hs : Der.InRange (Der.contents der).2) :
    ∃ sig, Der.decode der = .ok sig := by
  have hlong : 5 + (der.getD 3 0).toNat < der.length := by
    have := (shape_eq_ok.mp h).2.2.2.2.2.1
    omega
  rcases Der.exists_layout hlong with ⟨a, b, c, d, r, e, f, s, rfl, hd⟩
  rcases (shape_layout_eq_ok hd).mp h with ⟨hframe, hminr, hmins, -⟩
  rw [contents_layout hd hframe.2.2.2.2.1] at hr hs
  refine ⟨⟨⟨Bytes.toNatBE r, hr.1, hr.2⟩, ⟨Bytes.toNatBE s, hs.1, hs.2⟩⟩, ?_⟩
  rw [Der.decode, Result.mapError_eq_ok, Der.parse_layout_eq_ok hd]
  exact ⟨hframe, ⟨hminr, rfl⟩, hmins, rfl⟩

section
variable {rules : Rules} {der s : Bytes}

/-- Where the rule on low signatures is in force, it looks at what the shape gives. -/
theorem checkDer_of_shape (hlow : rules.has .lowS = true) (hshape : shape der = .ok s) :
    checkDer rules der = if Curve.halfOrder < s.toNatBE then throw .highS else return () := by
  have hany : rules.flags.hasAny [.strictDer, .lowS, .strictEncoding] = true :=
    List.any_eq_true.mpr ⟨.lowS, by simp, hlow⟩
  rw [checkDer, if_pos hany, hshape]
  change (if rules.has .lowS = true ∧ Curve.halfOrder < s.toNatBE then _ else _) = _
  simp only [hlow, true_and]

/-- With the type byte behind it, a signature in shape is refused for a high scalar only if it has
    one. -/
theorem check_eq_highS (hlow : rules.has .lowS = true) (hshape : shape der = .ok s)
    (hashType : UInt8) :
    check rules (der ++ [hashType]) = .error .highS ↔ Curve.halfOrder < s.toNatBE := by
  rw [check, List.getLast?_concat, List.dropLast_concat, checkDer_of_shape hlow hshape]
  by_cases hhigh : Curve.halfOrder < s.toNatBE
  · rw [if_pos hhigh]
    exact ⟨fun _ => hhigh, fun _ => rfl⟩
  · rw [if_neg hhigh]
    refine ⟨fun h => ?_, fun h => absurd h hhigh⟩
    -- What is left to be checked is the hash type, and that has a fault of its own.
    change (if rules.has .strictEncoding ∧ ¬isKnown hashType
      then throw (Fault.hashType hashType) else return ()) = _ at h
    split at h
    · cases h
    · cases h

end

/-- The decoder and the machine agree on every byte string: the decoder accepts those that
    have a shape and two contents in range. The content that the machine is given is the
    second component, so the rule on low signatures refuses the form of a signature exactly
    if the signature is not low. -/
theorem decode_iff_shape (der : Bytes) :
    ((∃ sig, Der.decode der = .ok sig) ↔ (∃ s, shape der = .ok s) ∧
      Der.InRange (Der.contents der).1 ∧ Der.InRange (Der.contents der).2) ∧
    (∀ sig s, Der.decode der = .ok sig → shape der = .ok s → s.toNatBE = sig.s.val) ∧
    ∀ sig rules hashType, Der.decode der = .ok sig → rules.has .lowS = true →
      (checkDer rules der = .ok () ↔ sig.isLow = true) ∧
      (check rules (der ++ [hashType]) = .error .highS ↔ sig.isLow = false) := by
  refine ⟨⟨?_, ?_⟩, ?_, ?_⟩
  · -- What is decoded has the shape, and its contents are numbers of scalars.
    rintro ⟨sig, h⟩
    rcases shape_of_decode h with ⟨hshape, hr, hs⟩
    exact ⟨⟨_, hshape⟩, Der.inRange_of_eq hr, Der.inRange_of_eq hs⟩
  · rintro ⟨⟨s, hshape⟩, hr, hs⟩
    exact decode_of_shape hshape hr hs
  · intro sig s h hshape
    rcases shape_of_decode h with ⟨hcontent, -, hs⟩
    rw [Except.ok.inj (hshape.symm.trans hcontent), hs]
  · intro sig rules hashType h hlow
    rcases shape_of_decode h with ⟨hshape, -, hs⟩
    constructor
    · rw [checkDer_of_shape hlow hshape, Result.refuse_eq_ok, hs, Signature.isLow,
        decide_eq_true_iff, Nat.not_lt]
      exact and_iff_left rfl
    · rw [check_eq_highS hlow hshape, hs, Signature.isLow, decide_eq_false_iff_not, Nat.not_le]

/-- The form of a signature whose second component is as high as it can be. -/
theorem decode_iff_shape_high :
    let sig : Signature := ⟨⟨1, by decide, by decide⟩, ⟨Curve.order - 1, by decide, by decide⟩⟩
    let s := Der.integer sig.s.val
    Der.decode (Der.encode sig) = .ok sig ∧ shape (Der.encode sig) = .ok s ∧
      s.toNatBE = sig.s.val ∧
      check { flags := .lowS } (Der.encode sig ++ [1]) = .error .highS := by
  intro sig s
  have hdecode : Der.decode (Der.encode sig) = .ok sig := by decide +kernel
  have hshape : shape (Der.encode sig) = .ok s := by decide +kernel
  rcases decode_iff_shape (Der.encode sig) with ⟨-, hcontent, hrule⟩
  exact ⟨hdecode, hshape, hcontent sig s hdecode hshape,
    (hrule sig _ 1 hdecode (by decide)).2.mpr (by decide +kernel)⟩

end SignatureForm

end Bitcoin
