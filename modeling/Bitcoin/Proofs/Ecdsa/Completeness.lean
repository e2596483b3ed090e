import Bitcoin.Ecdsa.Signing
import Bitcoin.Proofs.Curve.Multiple
import Bitcoin.Proofs.Ecdsa.Scalar

/-!
# Signatures Verify

Every signature that the signer gives out is accepted by the verifier. The source
of the nonces is left open: whatever numbers it gives, the attempts that would
lead to no signature are discarded, and the first one that is kept satisfies
`s k = e + r d` up to the sign of `s`.

The verifier divides that equation by `s` and so finds the nonce point again, or
its opposite where the low form has changed the sign. Both have the same first
coordinate, and that is all it compares. What the verifier computes is stated
first, for any key that stands for an element of the group, as the element
`checked` whose first coordinate is compared.

## Main definitions

* `Ecdsa.checked`: The element that a verifier looks at.

## Theorems

* `Ecdsa.attempt_eq_some`: What is known of a signature that an attempt leads to.
* `Ecdsa.attempt_of_search`: The search gives what one of the attempts leads to.
* `Ecdsa.verify_iff`: Verification as a statement about the group.
* `Ecdsa.checked_base`: The element that is checked for a multiple of the generator.
* `Ecdsa.verify_of_signWith`: A signature verifies, and is low.
-/

namespace Bitcoin

namespace Ecdsa

open Curve

/-- What is known of a signature that an attempt leads to: it is the low form of the one
    that solves the signing equation, and the id belongs to the nonce point. -/
theorem attempt_eq_some {secret : Scalar} {e k : Nat} {sig : Signature} {id : RecoveryId}
    (h : attempt secret e k = some (sig, id)) :
    ∃ (x y : FieldElem) (raw : Signature), Point.mulBase k = .affine x y ∧
      raw.r.val = x.val % order ∧
      raw.s.val = Scalar.inv k * (e + x.val % order * secret.val) % order ∧
      sig = raw.toLow ∧
      id = if raw.isLow then ⟨y.isOdd, order ≤ x.val⟩
        else RecoveryId.flipParity ⟨y.isOdd, order ≤ x.val⟩ := by
  rw [attempt] at h
  -- An attempt fails where the nonce gives infinity or one of the scalars would be zero.
  rcases hpoint : Point.mulBase k with _ | ⟨x, y⟩
  · rw [hpoint] at h
    exact absurd h (by simp only [reduceCtorEq, not_false_eq_true])
  · rw [hpoint] at h
    simp only [] at h
    split at h
    · simp only [Option.some.injEq, Prod.mk.injEq] at h
      exact ⟨x, y, _, rfl, rfl, rfl, h.1.symm, h.2.symm⟩
    · exact absurd h (by simp only [reduceCtorEq, not_false_eq_true])

/-- The search gives what one of the attempts leads to. -/
theorem attempt_of_search {secret : Scalar} {e : Nat} {nonce : Nat → Nat}
    {found : Signature × RecoveryId} (count number : Nat)
    (h : search secret e nonce count number = some found) :
    ∃ i, attempt secret e (nonce i) = some found := by
  induction count generalizing number with
  | zero => exact absurd h (by simp only [search, reduceCtorEq, not_false_eq_true])
  | succ count ih =>
      rw [search] at h
      rcases hattempt : attempt secret e (nonce number) with _ | first
      · rw [hattempt] at h
        exact ih (number + 1) h
      · rw [hattempt] at h
        exact ⟨number, hattempt.trans h⟩

/-- A signature that is given out comes from one of the nonces. -/
theorem attempt_of_signWith {nonce : Nat → Nat} {secret : Scalar} {digest : Hash256}
    {found : Signature × RecoveryId} (h : signWith nonce secret digest = .ok found) :
    ∃ i, attempt secret digest.toNatBE (nonce i) = some found := by
  rw [signWith] at h
  rcases hsearch : search secret digest.toNatBE nonce maxAttempts 0 with _ | first
  · rw [hsearch] at h
    exact absurd h (by simp only [throw, throwThe, MonadExceptOf.throw, reduceCtorEq,
      not_false_eq_true])
  · rw [hsearch] at h
    have hfirst : first = found := Except.ok.inj h
    exact attempt_of_search _ _ (hfirst ▸ hsearch)

/-- The element whose first coordinate a verifier compares with the signature. -/
def checked (Q : CurveGroup) (digest : Hash256) (sig : Signature) : CurveGroup :=
  ((digest.toNatBE / sig.s.val : ZMod order)).val • base +
    ((sig.r.val / sig.s.val : ZMod order)).val • Q

-- A product with an inverse, reduced, is the value of a quotient of residues.
theorem mul_inv_mod (a s : Nat) :
    a * Scalar.inv s % order = ((a / s : ZMod order)).val := by
  rw [← ZMod.val_natCast, Nat.cast_mul, Scalar.cast_inv, div_eq_mul_inv]

/-- The sum that a verifier computes stands for the checked element. -/
theorem represents_checked {key : Point} {Q : CurveGroup} (hkey : key.Represents Q)
    (digest : Hash256) (sig : Signature) :
    ((Point.mulBase (digest.toNatBE * Scalar.inv sig.s.val % order : Nat)).add
      (key.mul (sig.r.val * Scalar.inv sig.s.val % order : Nat))).Represents
      (checked Q digest sig) := by
  -- Both multipliers are reduced already, so reducing them again changes nothing.
  have hreduced : ∀ m : Nat, (((m % order : Nat) : Int) % (order : Int)).toNat = m % order := by
    intro m
    rw [← Int.natCast_mod, Nat.mod_mod, Int.toNat_natCast]
  have hmul := hkey.mul (sig.r.val * Scalar.inv sig.s.val % order : Nat)
  rw [hreduced, mul_inv_mod] at hmul
  have hbase := Point.represents_mulBase (digest.toNatBE * Scalar.inv sig.s.val % order : Nat)
  rw [natCast_zsmul, mul_inv_mod] at hbase
  rw [mul_inv_mod, mul_inv_mod]
  exact hbase.add hmul

/-- Verification as a statement about the group: the key is finite, and the checked
    element is a finite point with the right first coordinate. -/
theorem verify_iff {key : Point} {Q : CurveGroup} (hkey : key.Represents Q) (digest : Hash256)
    (sig : Signature) :
    verify key digest sig = true ↔ Q ≠ 0 ∧ ∃ x y : FieldElem,
      (Point.affine x y).Represents (checked Q digest sig) ∧ x.val % order = sig.r.val := by
  rw [verify]
  have hcurve : key.onCurve = true := Point.onCurve_iff_represents.mpr ⟨Q, hkey⟩
  by_cases hQ : Q = 0
  · rw [if_pos (Or.inl (hkey.isInfinity_iff.mpr hQ))]
    exact ⟨fun hc => absurd hc Bool.false_ne_true, fun hc => absurd hQ hc.1⟩
  · rw [if_neg (not_or.mpr ⟨mt hkey.isInfinity_iff.mp hQ, not_not.mpr hcurve⟩)]
    have hsum := represents_checked hkey digest sig
    -- Two points that stand for the checked element are the same point.
    simp only []
    rcases hpoint : (Point.mulBase (digest.toNatBE * Scalar.inv sig.s.val % order : Nat)).add
        (key.mul (sig.r.val * Scalar.inv sig.s.val % order : Nat)) with _ | ⟨x, y⟩
    · rw [hpoint] at hsum
      refine ⟨fun hc => absurd hc Bool.false_ne_true, fun ⟨_, x, y, hxy, _⟩ => ?_⟩
      exact absurd (hsum.eq hxy) (by simp only [reduceCtorEq, not_false_eq_true])
    · rw [hpoint] at hsum
      refine decide_eq_true_iff.trans
        ⟨fun hr => ⟨hQ, x, y, hsum, hr⟩, fun ⟨_, x', y', hxy, hr⟩ => ?_⟩
      have heq := hsum.eq hxy
      rw [Point.affine.injEq] at heq
      rw [heq.1]
      exact hr

/-- The checked element for a multiple of the generator, as one multiple. -/
theorem checked_base (secret : Nat) (digest : Hash256) (sig : Signature) (k : Int)
    (h : (k : ZMod order) * sig.s.val = digest.toNatBE + sig.r.val * secret) :
    checked (secret • base) digest sig = k • base := by
  rw [checked, ← mul_nsmul, ← add_nsmul, ← natCast_zsmul, zsmul_base_eq_iff]
  have hs := sig.s.cast_ne_zero
  rw [Int.cast_natCast, Nat.cast_add, Nat.cast_mul, ZMod.natCast_zmod_val, ZMod.natCast_zmod_val]
  field_simp
  rw [mul_comm, mul_comm _ (k : ZMod order), h]

/-- Whatever nonces the signer is given, a signature that it gives out verifies under the
    key of the signer. Its components are in range and it is low. -/
theorem verify_of_signWith (nonce : Nat → Nat) (secret : Scalar) (digest : Hash256)
    (sig : Signature) (id : RecoveryId) (h : signWith nonce secret digest = .ok (sig, id)) :
    verify (Point.mulBase secret.val) digest sig = true ∧
      (0 < sig.r.val ∧ sig.r.val < order) ∧ (0 < sig.s.val ∧ sig.s.val < order) ∧
      sig.s.val ≤ order / 2 := by
  rcases attempt_of_signWith h with ⟨i, hattempt⟩
  rcases attempt_eq_some hattempt with ⟨x, y, raw, hpoint, hr, hs, rfl, _⟩
  have hlow : raw.toLow.s.val ≤ order / 2 := of_decide_eq_true raw.isLow_toLow
  refine ⟨?_, ⟨raw.toLow.r.pos, raw.toLow.r.lt⟩, ⟨raw.toLow.s.pos, raw.toLow.s.lt⟩, hlow⟩
  have hnonce : (Point.affine x y).Represents ((nonce i : Int) • base) :=
    hpoint ▸ Point.represents_mulBase (nonce i)
  have hkey : (Point.mulBase secret.val).Represents (secret.val • base) := by
    rw [← natCast_zsmul]
    exact Point.represents_mulBase secret.val
  -- The equation that the signer has solved, as one of residues.
  have hsolved : (nonce i : ZMod order) * raw.s.val = digest.toNatBE + raw.r.val * secret.val := by
    have hcast : (raw.s.val : ZMod order)
        = (nonce i : ZMod order)⁻¹ * (digest.toNatBE + raw.r.val * secret.val) := by
      rw [hs, hr, ZMod.natCast_mod, Nat.cast_mul, Scalar.cast_inv, Nat.cast_add, Nat.cast_mul]
    have hne : (nonce i : ZMod order) ≠ 0 := by
      intro hzero
      rw [hzero, inv_zero, zero_mul] at hcast
      exact raw.s.cast_ne_zero hcast
    rw [hcast, mul_inv_cancel_left₀ hne]
  -- The key is finite, since the secret is below the order of the generator.
  have hfinite : secret.val • base ≠ 0 := by
    rw [← natCast_zsmul, Ne, zsmul_base_eq_zero_iff, Int.cast_natCast]
    exact secret.cast_ne_zero
  rw [verify_iff hkey, Signature.toLow_r]
  refine ⟨hfinite, ?_⟩
  rcases raw.cast_toLow_s with hsame | hflip
  · -- The verifier finds the nonce point.
    refine ⟨x, y, ?_, hr.symm⟩
    rw [checked_base secret.val digest raw.toLow (nonce i)]
    · exact hnonce
    · rw [Int.cast_natCast, hsame, Signature.toLow_r]
      exact hsolved
  · -- The verifier finds the opposite of the nonce point.
    refine ⟨x, 0 - y, ?_, hr.symm⟩
    rw [checked_base secret.val digest raw.toLow (-nonce i), neg_smul]
    · exact hnonce.negate
    · rw [Int.cast_neg, Int.cast_natCast, hflip, neg_mul_neg, Signature.toLow_r]
      exact hsolved

/-- The first nonce is zero and is discarded, the second leads to a high component. -/
theorem verify_of_signWith_second :
    signWith (fun i => i) ⟨2, by decide, by decide⟩ (.zero 32)
        = .ok (⟨⟨generatorX, by decide, by decide⟩,
            ⟨order - 2 * generatorX, by decide, by decide⟩⟩, ⟨true, false⟩) ∧
      verify (Point.mulBase 2) (.zero 32) ⟨⟨generatorX, by decide, by decide⟩,
        ⟨order - 2 * generatorX, by decide, by decide⟩⟩ = true := by
  -- The nonce zero is thrown away, and one is taken.
  have hsearch : search ⟨2, by decide, by decide⟩ (ByteVec.zero 32).toNatBE (fun i => i)
      maxAttempts 0 = some (⟨⟨generatorX, by decide, by decide⟩,
        ⟨order - 2 * generatorX, by decide, by decide⟩⟩, ⟨true, false⟩) := by
    decide +kernel
  have hsign : signWith (fun i => i) ⟨2, by decide, by decide⟩ (.zero 32)
      = .ok (⟨⟨generatorX, by decide, by decide⟩,
        ⟨order - 2 * generatorX, by decide, by decide⟩⟩, ⟨true, false⟩) := by
    rw [signWith, hsearch]
    rfl
  exact ⟨hsign, (verify_of_signWith _ _ _ _ _ hsign).1⟩

end Ecdsa

end Bitcoin
