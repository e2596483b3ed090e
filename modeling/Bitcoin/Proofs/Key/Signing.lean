import Bitcoin.Proofs.Curve.Action
import Bitcoin.Proofs.Ecdsa.Recovery
import Bitcoin.Proofs.Key.Forms
import Bitcoin.Proofs.Machine.Shape

/-!
# What a Signer Hands Over

A signer hands over bytes: a signature in its DER form and a key in its compressed form.
Whoever checks them reads both forms again, and what is read is the same signature and
the same key. The signature is good for that key, it is low, and its form has the shape
that the machine asks for. What is to be said of the form of the key is said of all forms
of keys elsewhere.

The length of the form is known well enough to tell how it is pushed.

## Theorems

* `Der.decode_encode`, `Der.length_encode`: The form of a signature.
* `SignatureForm.check_encode`: The machine lets it through.
* `SecretKey.verify_of_sign`: The signature belongs to the key.
-/

namespace Bitcoin

namespace Der

theorem length_encode (sig : Signature) :
    (encode sig).length = 6 + (integer sig.r.val).length + (integer sig.s.val).length :=
  length_layout

theorem length_integer_scalar (k : Scalar) :
    0 < (integer k.val).length ∧ (integer k.val).length ≤ 33 :=
  ⟨length_pos_of_minimal (minimal_integer k.val),
    length_integer_le (Nat.lt_trans k.lt (by decide))⟩

/-- The form of a signature is read as that signature. -/
theorem decode_encode (sig : Signature) : decode (encode sig) = .ok sig := by
  rcases length_integer_scalar sig.r with ⟨-, hr⟩
  rcases length_integer_scalar sig.s with ⟨-, hs⟩
  -- The lengths are small enough for the bytes that hold them.
  have hbyte : ∀ n : Nat, n ≤ 70 → (UInt8.ofNat n).toNat = n := fun n hn =>
    UInt8.toNat_ofNat_of_lt' (Nat.lt_of_le_of_lt hn (by decide))
  rw [decode, Result.mapError_eq_ok]
  refine (parse_layout_eq_ok (hbyte _ (by omega)).symm).mpr
    ⟨⟨rfl, hbyte _ (by omega), rfl, rfl, hbyte _ (by omega), by omega⟩,
      ⟨minimal_integer _, toNatBE_integer _⟩, minimal_integer _, toNatBE_integer _⟩

end Der

/-- The machine lets the form of a low signature through, whatever rules are in force, if
    the hash type behind it is a known one. -/
theorem SignatureForm.check_encode {rules : Rules} {sig : Signature} {hashType : UInt8}
    (hlow : sig.isLow = true) (hknown : isKnown hashType = true) :
    check rules (Der.encode sig ++ [hashType]) = .ok () := by
  rcases shape_of_decode (Der.decode_encode sig) with ⟨hshape, -, hs⟩
  refine check_eq_ok.mpr fun found hfound => ?_
  rw [List.getLast?_concat, Option.some.injEq] at hfound
  subst hfound
  rw [List.dropLast_concat]
  refine ⟨checkDer_eq_ok.mpr fun _ => ⟨_, hshape, fun hhigh => ?_⟩, fun h => h.2 hknown⟩
  rw [hs] at hhigh
  exact Nat.not_lt.mpr (of_decide_eq_true hlow) hhigh.2

/-- The key that belongs to a secret key is on the curve. -/
theorem SecretKey.represents_public {key : SecretKey} {owner : PublicKey}
    (h : key.public? = .ok owner) :
    owner.toPoint.Represents (key.scalar.val • Curve.base) := by
  rcases key.public?_eq_ok with ⟨found, hfound, hpoint⟩
  cases h.symm.trans hfound
  rw [hpoint, ← natCast_zsmul]
  exact Point.represents_mulBase key.scalar.val

/-- A signature that is given out is low and belongs to the key of the signer. -/
theorem SecretKey.verify_of_sign {key : SecretKey} {owner : PublicKey} {digest : Hash256}
    {sig : Signature} {id : RecoveryId} (howner : key.public? = .ok owner)
    (h : key.sign digest = .ok (sig, id)) :
    owner.verify digest sig = true ∧ sig.isLow = true := by
  rcases Ecdsa.attempt_of_signWith h with ⟨number, hattempt⟩
  constructor
  · have hkey := represents_public howner
    have hfinite : key.scalar.val • Curve.base ≠ 0 :=
      mt hkey.eq_infinity_iff.mpr Point.affine_ne_infinity
    -- The verifier finds the nonce point.
    rcases Ecdsa.solves_of_attempt hattempt with ⟨x, y, R, hnonce, hr, -, hsolves⟩
    refine (Ecdsa.verify_iff hkey digest sig).mpr ⟨hfinite, x, y, ?_, hr⟩
    rw [Ecdsa.checked_eq_iff.mpr hsolves]
    exact hnonce
  · rcases Ecdsa.attempt_eq_some hattempt with ⟨_, _, raw, _, _, _, rfl, _⟩
    exact raw.isLow_toLow

end Bitcoin
