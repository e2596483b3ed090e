import Bitcoin.Proofs.Ecdsa.Recovery

/-!
# Signatures Come in Pairs

With every signature `(r, s)` there is another one, `(r, n - s)`, that belongs to the same
key and the same digest, and it takes no secret to find it. A verifier divides by `s`, so
for the other signature it finds the opposite element of the group. Opposite points have
the same first coordinate, and nothing else is compared. This needs the order of every
element, since the key may be any point of the curve; a key that is none has no
signatures at all.

The order is odd, so exactly one of the two is low. The low form is that one, from
whichever of the two it is made: signers that keep to low signatures give out one of a
pair, and lose nothing by it.

## Main definitions

* `Signature.opposite`: The other signature of a pair.

## Theorems

* `Signature.isLow_opposite`: One of a pair is low.
* `Signature.toLow_opposite`: A pair has one low form.
* `Ecdsa.checked_opposite`: The element that a verifier finds for the other signature.
* `Ecdsa.verify_opposite`: The other signature verifies as well.
* `Ecdsa.verify_blind_to_sign`: All of this together.
-/

namespace Bitcoin

open Curve

namespace Scalar

/-- Two signs cancel. -/
theorem negate_negate (k : Scalar) : k.negate.negate = k := by
  rcases k with ⟨v, hpos, hlt⟩
  simp only [negate, Scalar.mk.injEq]
  omega

/-- Half the order is rounded down, and the order is odd. -/
theorem negate_le_halfOrder_iff (k : Scalar) :
    k.negate.val ≤ halfOrder ↔ ¬k.val ≤ halfOrder := by
  refine ⟨fun h hlow => ?_, k.negate_le_halfOrder⟩
  have hhalf : order = 2 * halfOrder + 1 := by decide
  change order - k.val ≤ halfOrder at h
  omega

end Scalar

namespace Signature

variable (sig : Signature)

/-- The signature with the same first component and the opposite second one. -/
def opposite : Signature :=
  { sig with s := sig.s.negate }

theorem opposite_opposite : sig.opposite.opposite = sig := by
  rw [opposite, opposite, Scalar.negate_negate]

/-- One of a pair is low. -/
theorem isLow_opposite : sig.opposite.isLow = !sig.isLow := by
  rw [isLow, isLow, ← decide_not]
  exact decide_eq_decide.mpr sig.s.negate_le_halfOrder_iff

variable {sig}

theorem toLow_of_low (h : sig.isLow = true) : sig.toLow = sig :=
  if_pos h

/-- A high signature is replaced by its opposite. -/
theorem toLow_of_high (h : sig.isLow = false) : sig.toLow = sig.opposite :=
  if_neg (Bool.eq_false_iff.mp h)

variable (sig)

/-- A pair has one low form. -/
theorem toLow_opposite : sig.opposite.toLow = sig.toLow := by
  have hother := sig.isLow_opposite
  rcases hlow : sig.isLow with _ | _
  · rw [hlow] at hother
    rw [toLow_of_high hlow, toLow_of_low hother]
  · rw [hlow] at hother
    rw [toLow_of_low hlow, toLow_of_high hother, opposite_opposite]

end Signature

namespace Ecdsa

variable {key : Point} {digest : Hash256} {sig : Signature}

/-- Nothing is verified by a point off the curve. -/
theorem onCurve_of_verify (h : verify key digest sig = true) : key.onCurve = true := by
  by_contra hcurve
  rw [verify, if_pos (Or.inr hcurve)] at h
  exact Bool.false_ne_true h

/-- For the other signature of a pair a verifier finds the opposite element. -/
theorem checked_opposite (Q : CurveGroup) (digest : Hash256) (sig : Signature) :
    checked Q digest sig.opposite = -checked Q digest sig :=
  checked_eq_iff.mpr (solves_negate.mpr (checked_eq_iff.mp rfl))

/-- The opposite leads to the opposite point, which has the same first coordinate. -/
theorem verify_opposite_of_verify (h : verify key digest sig = true) :
    verify key digest sig.opposite = true := by
  rcases Point.onCurve_iff_represents.mp (onCurve_of_verify h) with ⟨Q, hkey⟩
  rcases (verify_iff hkey digest sig).mp h with ⟨hQ, x, y, hfound, hr⟩
  -- The opposite point has the same first coordinate.
  refine (verify_iff hkey digest sig.opposite).mpr ⟨hQ, x, 0 - y, ?_, hr⟩
  rw [checked_opposite]
  exact hfound.negate

/-- Both signatures of a pair verify, or none of them does. -/
theorem verify_opposite (key : Point) (digest : Hash256) (sig : Signature) :
    verify key digest sig.opposite = verify key digest sig := by
  refine Bool.eq_iff_iff.mpr ⟨fun h => ?_, verify_opposite_of_verify⟩
  rw [← sig.opposite_opposite]
  exact verify_opposite_of_verify h

/-- So it does not matter which of the two is presented. -/
theorem verify_toLow (key : Point) (digest : Hash256) (sig : Signature) :
    verify key digest sig.toLow = verify key digest sig := by
  rcases hlow : sig.isLow with _ | _
  · rw [Signature.toLow_of_high hlow, verify_opposite]
  · rw [Signature.toLow_of_low hlow]

/-- A verifier does not tell the two signatures of a pair apart, whatever the key. So the
    low form verifies exactly if the signature does. Its second component is in the lower
    half of the range, it is its own low form, and it is that of the whole pair. -/
theorem verify_blind_to_sign (key : Point) (digest : Hash256) (sig : Signature) :
    (sig.opposite.r = sig.r ∧ sig.opposite.s.val = order - sig.s.val) ∧
      verify key digest sig.opposite = verify key digest sig ∧
      verify key digest sig.toLow = verify key digest sig ∧
      (sig.toLow.r = sig.r ∧ 0 < sig.toLow.s.val ∧ sig.toLow.s.val ≤ order / 2) ∧
      sig.toLow.toLow = sig.toLow ∧ sig.opposite.toLow = sig.toLow := by
  have hlow : sig.toLow.s.val ≤ order / 2 := of_decide_eq_true sig.isLow_toLow
  exact ⟨⟨rfl, rfl⟩, verify_opposite key digest sig, verify_toLow key digest sig,
    ⟨sig.toLow_r, sig.toLow.s.pos, hlow⟩, Signature.toLow_of_low sig.isLow_toLow,
    sig.toLow_opposite⟩

end Ecdsa

end Bitcoin
