import Bitcoin.Proofs.Curve.Order
import Bitcoin.Proofs.Ecdsa.Completeness
import Bitcoin.Proofs.Result

/-!
# Verification and Recovery

A signature `(r, s)` of a digest `e` ties two elements of the group to each other, the
nonce point `R` and the key `Q`: it is good if `s R = e G + r Q`. A verifier knows the
key and divides by `s` to find the nonce point. Whoever recovers the key is told which
nonce point is meant and divides by `r`. The order of the group is prime and annihilates
every element, so both divisions can be undone, and what one of the two accepts is what
the other one finds.

The nonce point is described by `r` and the recovery id. Its first coordinate is `r` or
`r` plus the order, since the field prime is below twice the order, and its second one
has the parity that the id says. Changing the sign of `s` changes that of the nonce
point, so the id that comes with the low form has the other parity.

## Main definitions

* `Ecdsa.Solves`: The equation between a nonce point and a key.
* `Ecdsa.nonceId`: The recovery id of a nonce point.
* `Ecdsa.recovered`: The element that is recovered.

## Theorems

* `Ecdsa.checked_eq_iff`, `Ecdsa.recovered_eq_iff`: Both elements solve the equation.
* `Ecdsa.solves_negate`: The equation for the opposite nonce point.
* `Ecdsa.recover_eq_ok_iff`: Recovery as a statement about the group.
* `Ecdsa.verify_iff_recover`: A key verifies exactly if it can be recovered.
* `Ecdsa.solves_of_signWith`: The nonce point of a signature that is given out.
* `Ecdsa.recover_of_signWith`: The id that is given out recovers the key of the signer.
-/

namespace Bitcoin

namespace Ecdsa

open Curve

section
variable {F G : Type} [Field F] [AddCommGroup G] [Module F G] {e r s : F} {B R Q : G}

-- The equation of a signature in any space over a field, solved for one of two elements.
theorem smul_eq_iff_left (hs : s ≠ 0) :
    s • R = e • B + r • Q ↔ R = (e / s) • B + (r / s) • Q := by
  rw [← eq_inv_smul_iff₀ hs, smul_add, smul_smul, smul_smul, ← div_eq_inv_mul, ← div_eq_inv_mul]

/-- The equation of a signature, solved for the key. -/
theorem smul_eq_iff_right (hr : r ≠ 0) :
    s • R = e • B + r • Q ↔ -(r⁻¹ * e) • B + (r⁻¹ * s) • R = Q := by
  rw [← sub_eq_iff_eq_add', ← inv_smul_eq_iff₀ hr, smul_sub, smul_smul, smul_smul, neg_smul,
    neg_add_eq_sub]

end

section
variable {R Q : CurveGroup} {digest : Hash256} {sig : Signature}

/-- The equation between the nonce point and the key of a signature. -/
def Solves (R Q : CurveGroup) (digest : Hash256) (sig : Signature) : Prop :=
  sig.s.val • R = digest.toNatBE • base + sig.r.val • Q

/-- The equation without divisions. -/
theorem solves_iff : Solves R Q digest sig ↔
    (sig.s.val : ZMod order) • R =
      (digest.toNatBE : ZMod order) • base + (sig.r.val : ZMod order) • Q := by
  rw [Solves, natCast_smul, natCast_smul, natCast_smul]

/-- The element that is checked is the one that solves the equation for the nonce. -/
theorem checked_eq_iff : checked Q digest sig = R ↔ Solves R Q digest sig := by
  rw [solves_iff, smul_eq_iff_left sig.s.cast_ne_zero, checked, val_smul, val_smul]
  exact eq_comm

/-- The element that is recovered from a nonce point. -/
def recovered (R : CurveGroup) (digest : Hash256) (sig : Signature) : CurveGroup :=
  -((sig.r.val : ZMod order)⁻¹ * digest.toNatBE) • base +
    ((sig.r.val : ZMod order)⁻¹ * sig.s.val) • R

/-- The element that is recovered is the one that solves it for the key. -/
theorem recovered_eq_iff : recovered R digest sig = Q ↔ Solves R Q digest sig := by
  rw [solves_iff, smul_eq_iff_right sig.r.cast_ne_zero, recovered]

/-- The opposite nonce point solves the equation with the opposite second component. -/
theorem solves_negate :
    Solves (-R) Q digest { sig with s := sig.s.negate } ↔ Solves R Q digest sig := by
  rw [solves_iff, solves_iff, Scalar.cast_negate, neg_smul_neg]

end

/-- The recovery id of the nonce point with the given coordinates. -/
def nonceId (x y : FieldElem) : RecoveryId :=
  ⟨y.isOdd, order ≤ x.val⟩

/-- The opposite nonce has the other parity. -/
theorem nonceId_negate (x : FieldElem) {y : FieldElem} (hy : y ≠ 0) :
    nonceId x (0 - y) = (nonceId x y).flipParity := by
  rw [nonceId, FieldElem.isOdd_neg hy]
  rfl

/-- The first coordinate that is rebuilt from a component and an id. The field prime is
    below twice the order, so a coordinate has been reduced once at most. -/
theorem nonceX_eq_iff (r : Scalar) (reduced : Bool) (x : FieldElem) :
    (if reduced then r.val + order else r.val) = x.val ↔
      x.val % order = r.val ∧ reduced = decide (order ≤ x.val) := by
  have hr := r.lt
  have hx : x.val < 2 * order := Nat.lt_trans x.isLt (by decide)
  -- The field prime is below twice the order, so a coordinate is the scalar or the scalar and the
  -- order once.
  cases reduced with
  | false =>
      rw [if_neg Bool.false_ne_true, eq_comm (a := false), decide_eq_false_iff_not]
      constructor
      · intro h
        rw [← h]
        exact ⟨Nat.mod_eq_of_lt hr, Nat.not_le.mpr hr⟩
      · rintro ⟨hmod, hlt⟩
        rw [← hmod, Nat.mod_eq_of_lt (Nat.not_le.mp hlt)]
  | true =>
      rw [if_pos rfl, eq_comm (a := true), decide_eq_true_iff]
      constructor
      · intro h
        rw [← h, Nat.add_mod_right]
        exact ⟨Nat.mod_eq_of_lt hr, Nat.le_add_left _ _⟩
      · rintro ⟨hmod, hle⟩
        rw [← hmod, Nat.mod_eq_sub_mod hle, Nat.mod_eq_of_lt (by omega)]
        omega

/-- The point that is computed from a nonce point. -/
def recoveredPoint (p : Point) (digest : Hash256) (sig : Signature) : Point :=
  (Point.mulBase (-(Scalar.inv sig.r.val * digest.toNatBE : Nat) % order)).add
    (p.mul (Scalar.inv sig.r.val * sig.s.val % order : Nat))

/-- The point that is computed stands for the element that is recovered. -/
theorem represents_recoveredPoint {p : Point} {R : CurveGroup} (hp : p.Represents R)
    (digest : Hash256) (sig : Signature) :
    (recoveredPoint p digest sig).Represents (recovered R digest sig) := by
  have hbase := Point.represents_mulBase (-(Scalar.inv sig.r.val * digest.toNatBE : Nat) % order)
  have hmul := hp.zmul (Scalar.inv sig.r.val * sig.s.val % order : Nat)
  -- Both multipliers count as residues, and there the power for the inverse is the inverse.
  rw [← intCast_smul, ZMod.intCast_mod, Int.cast_neg, Int.cast_natCast,
    Nat.cast_mul (α := ZMod order), Scalar.cast_inv] at hbase
  rw [← intCast_smul, Int.cast_natCast, ZMod.natCast_mod, Nat.cast_mul, Scalar.cast_inv] at hmul
  exact hbase.add hmul

-- What is given back is the point that is computed, unless that is infinity.
theorem finite_eq_ok {p key : Point} :
    ((match p with
      | .infinity => throw .pointAtInfinity
      | found => return found) : Except Error Point) = .ok key ↔ p = key ∧ key ≠ .infinity := by
  rcases p with _ | ⟨x, y⟩
  · exact ⟨nofun, fun h => absurd h.1.symm h.2⟩
  · refine ⟨fun h => ?_, fun h => congrArg Except.ok h.1⟩
    have hkey : Point.affine x y = key := Except.ok.inj h
    exact ⟨hkey, hkey ▸ Point.affine_ne_infinity⟩

/-- A key is recovered where a point has the coordinate that is meant, and is not infinity. -/
theorem recover_eq_ok {digest : Hash256} {sig : Signature} {id : RecoveryId} {key : Point} :
    recover digest sig id = .ok key ↔
      let x := if id.xReduced then sig.r.val + order else sig.r.val
      ¬fieldPrime ≤ x ∧ ∃ p, Point.decompress x id.yOdd = .ok p ∧
        recoveredPoint p digest sig = key ∧ key ≠ .infinity := by
  refine Result.guard_eq_ok.trans (and_congr_right fun _ => ?_)
  refine Result.bind_eq_ok.trans (exists_congr fun p => and_congr_right fun _ => ?_)
  exact finite_eq_ok

/-- Recovery as a statement about the group: the key is finite, and it solves the equation
    with the nonce point that the signature and the id describe. -/
theorem recover_eq_ok_iff {key : Point} {Q : CurveGroup} (hkey : key.Represents Q)
    (digest : Hash256) (sig : Signature) (id : RecoveryId) :
    recover digest sig id = .ok key ↔ Q ≠ 0 ∧ ∃ (x y : FieldElem) (R : CurveGroup),
      (Point.affine x y).Represents R ∧ x.val % order = sig.r.val ∧ id = nonceId x y ∧
      Solves R Q digest sig := by
  rw [recover_eq_ok, Ne, hkey.eq_infinity_iff]
  constructor
  · -- What decompression gives is the nonce point, and the sum with it is the key.
    rintro ⟨-, p, hp, hsum, hQ⟩
    rcases Point.decompress_eq_ok.mp hp with ⟨x, y, rfl, hcurve, hx, hy⟩
    rcases Point.onCurve_iff_represents.mp hcurve with ⟨R, hR⟩
    rcases (nonceX_eq_iff sig.r id.xReduced x).mp (Int.ofNat_inj.mp hx) with ⟨hr, hreduced⟩
    refine ⟨hQ, x, y, R, hR, hr, ?_, ?_⟩
    · rw [nonceId, hy, ← hreduced]
    · exact recovered_eq_iff.mp ((hsum ▸ represents_recoveredPoint hR digest sig).unique hkey)
  · -- From a nonce point that solves the equation the steps are gone through forwards.
    rintro ⟨hQ, x, y, R, hR, hr, rfl, hsolves⟩
    have hx := (nonceX_eq_iff sig.r (nonceId x y).xReduced x).mpr ⟨hr, rfl⟩
    have hsum := represents_recoveredPoint hR digest sig
    rw [recovered_eq_iff.mpr hsolves] at hsum
    rw [hx]
    exact ⟨Nat.not_le.mpr x.isLt, _,
      Point.decompress_eq_ok.mpr ⟨x, y, rfl, hR.onCurve, rfl, rfl⟩, hsum.eq hkey, hQ⟩

/-- A key verifies a signature exactly if it can be recovered from it with some id. -/
theorem verify_iff_recover (key : Point) (hcurve : key.onCurve = true)
    (hfinite : key ≠ .infinity) (digest : Hash256) (sig : Signature) :
    verify key digest sig = true ↔ ∃ id, recover digest sig id = .ok key := by
  rcases Point.onCurve_iff_represents.mp hcurve with ⟨Q, hkey⟩
  have hQ : Q ≠ 0 := mt hkey.eq_infinity_iff.mpr hfinite
  rw [verify_iff hkey]
  constructor
  · rintro ⟨-, x, y, hxy, hr⟩
    exact ⟨nonceId x y, (recover_eq_ok_iff hkey digest sig _).mpr
      ⟨hQ, x, y, _, hxy, hr, rfl, checked_eq_iff.mp rfl⟩⟩
  · rintro ⟨id, hid⟩
    rcases (recover_eq_ok_iff hkey digest sig id).mp hid with ⟨-, x, y, R, hR, hr, -, hsolves⟩
    exact ⟨hQ, x, y, checked_eq_iff.mpr hsolves ▸ hR, hr⟩

/-- A nonce point whose first coordinate is two more than the order. -/
theorem verify_iff_recover_reduced :
    let key := Point.affine
      0x19099fbdddcdb7a14410b5c6ba73f51bd2f74a3d1cd8456fcc1da68ed6468884
      0xb07b9f7dd9ea5753e009246a1db85e7e1644bfdee276881a950ce59fdd45b45b
    let sig : Signature := ⟨⟨2, by decide, by decide⟩, ⟨1, by decide, by decide⟩⟩
    key.onCurve = true ∧ key ≠ .infinity ∧ recover (.ofNatBE 32 1) sig ⟨true, true⟩ = .ok key ∧
      verify key (.ofNatBE 32 1) sig = true := by
  intro key sig
  have hcurve : key.onCurve = true := by decide +kernel
  have hrecover : recover (.ofNatBE 32 1) sig ⟨true, true⟩ = .ok key := by decide +kernel
  exact ⟨hcurve, Point.affine_ne_infinity, hrecover,
    (verify_iff_recover key hcurve Point.affine_ne_infinity (.ofNatBE 32 1) sig).mpr
      ⟨_, hrecover⟩⟩

/-- The equation that the signer has solved, before the low form is taken. -/
theorem solves_of_nonce {secret : Scalar} {digest : Hash256} {raw : Signature} {k : Nat}
    (hs : raw.s.val
      = Scalar.inv k * (digest.toNatBE + raw.r.val * secret.val) % order) :
    Solves ((k : Int) • base) (secret.val • base) digest raw := by
  have hcast : (raw.s.val : ZMod order)
      = (k : ZMod order)⁻¹ * (digest.toNatBE + raw.r.val * secret.val) := by
    rw [hs, ZMod.natCast_mod, Nat.cast_mul, Scalar.cast_inv, Nat.cast_add, Nat.cast_mul]
  -- A nonce that is zero as a residue would have led to a zero component.
  have hne : (k : ZMod order) ≠ 0 := by
    intro hzero
    rw [hzero, inv_zero, zero_mul] at hcast
    exact raw.s.cast_ne_zero hcast
  rw [Solves, ← mul_nsmul, ← add_nsmul, ← natCast_zsmul, ← natCast_zsmul, ← mul_zsmul,
    zsmul_base_eq_iff]
  push_cast
  rw [hcast]
  field_simp

/-- The id that an attempt leads to is that of the nonce point of its signature. -/
theorem solves_of_attempt {secret : Scalar} {digest : Hash256} {k : Nat} {sig : Signature}
    {id : RecoveryId} (h : attempt secret digest.toNatBE k = some (sig, id)) :
    ∃ (x y : FieldElem) (R : CurveGroup), (Point.affine x y).Represents R ∧
      x.val % order = sig.r.val ∧ id = nonceId x y ∧
      Solves R (secret.val • base) digest sig := by
  rcases attempt_eq_some h with ⟨x, y, raw, hpoint, hr, hs, rfl, rfl⟩
  have hnonce : (Point.affine x y).Represents ((k : Int) • base) :=
    hpoint ▸ Point.represents_mulBase k
  have hsolves : Solves ((k : Int) • base) (secret.val • base) digest raw :=
    solves_of_nonce (hr ▸ hs)
  by_cases hlow : raw.isLow = true
  · rw [Signature.toLow, if_pos hlow, if_pos hlow]
    exact ⟨x, y, _, hnonce, hr.symm, rfl, hsolves⟩
  · -- With the opposite component comes the opposite nonce point.
    rw [Signature.toLow, if_neg hlow, if_neg hlow]
    exact ⟨x, 0 - y, _, hnonce.negate, hr.symm,
      (nonceId_negate x (Point.y_ne_zero hnonce.onCurve)).symm, solves_negate.mpr hsolves⟩

/-- Whatever nonces the signer is given, the id that it gives out recovers the key of the
    signer. -/
theorem recover_of_signWith (nonce : Nat → Nat) (secret : Scalar) (digest : Hash256)
    (sig : Signature) (id : RecoveryId) (h : signWith nonce secret digest = .ok (sig, id)) :
    recover digest sig id = .ok (Point.mulBase secret.val) := by
  rcases attempt_of_signWith h with ⟨i, hattempt⟩
  have hkey : (Point.mulBase secret.val).Represents (secret.val • base) := by
    rw [← natCast_zsmul]
    exact Point.represents_mulBase secret.val
  have hfinite : secret.val • base ≠ 0 := by
    rw [← natCast_zsmul, Ne, zsmul_base_eq_zero_iff, Int.cast_natCast]
    exact secret.cast_ne_zero
  rw [recover_eq_ok_iff hkey]
  exact ⟨hfinite, solves_of_attempt hattempt⟩

/-- The component that the nonce leads to is high, so the id has the parity of the
    opposite point. -/
theorem recover_of_signWith_high :
    let sig : Signature := ⟨⟨generatorX, by decide, by decide⟩,
      ⟨order - 2 * generatorX, by decide, by decide⟩⟩
    signWith (fun _ => 1) ⟨2, by decide, by decide⟩ (.zero 32) = .ok (sig, ⟨true, false⟩) ∧
      recover (.zero 32) sig ⟨true, false⟩ = .ok (Point.mulBase 2) := by
  intro sig
  -- The second scalar of this nonce is high, so its opposite is what is given out.
  have hsearch : search ⟨2, by decide, by decide⟩ (ByteVec.zero 32).toNatBE (fun _ => 1)
      maxAttempts 0 = some (sig, ⟨true, false⟩) := by
    decide +kernel
  have hsign : signWith (fun _ => 1) ⟨2, by decide, by decide⟩ (.zero 32)
      = .ok (sig, ⟨true, false⟩) := by
    rw [signWith, hsearch]
    rfl
  exact ⟨hsign, recover_of_signWith _ _ _ _ _ hsign⟩

end Ecdsa

end Bitcoin
