import Bitcoin.Curve.Point
import Bitcoin.Proofs.Curve.Field
import Mathlib.Data.Int.ModEq

/-!
# Second Coordinates

A first coordinate belongs to two points of the curve or to none. If it belongs to
some point, the right-hand side of the equation is a square, and the exponent
`(p + 1) / 4` takes it to a root: squared once more, that power is the right-hand
side times a power with the exponent `(p - 1) / 2`, which is one for squares. So
a search for a root never misses one.

The other root is the opposite one. A residue and its opposite add up to the field
prime, which is odd, so exactly one of them is odd, unless they are both zero. That
would take a first coordinate whose cube is `-7`, and there is none. Hence the parity
tells the two roots apart in every case, and a point is known from its first
coordinate and one bit.

## Theorems

* `FieldElem.isOdd_neg`: A residue and its opposite differ in parity.
* `FieldElem.eq_of_mul_self_eq`: A root is known from its square and its parity.
* `FieldElem.sqrt?_eq_some`, `FieldElem.exists_sqrt?`: Roots are roots, and are found.
* `FieldElem.exists_mul_self_iff`: Squares of coordinates and of integers.
* `FieldElem.rhs_ne_zero`: No second coordinate is zero.
* `Point.ofCoordinates_eq_ok`: The checked way from coordinates to a point.
* `Point.decompress_eq_ok`: Decompression gives the point that is described.
-/

namespace Bitcoin

namespace FieldElem

open Curve

/-- An integer is an element exactly if it is reduced, and then it is its value. -/
theorem ofInt?_eq_some {v : Int} {x : FieldElem} : ofInt? v = some x ↔ v = x.val := by
  rw [ofInt?]
  constructor
  · intro h
    split at h
    · next hpos =>
        split at h
        · cases h
          exact (Int.toNat_of_nonneg hpos).symm
        · cases h
    · cases h
  · rintro rfl
    rw [if_pos (Int.natCast_nonneg _)]
    exact dif_pos x.isLt

/-- Since the field prime is odd, an element that is not zero and its opposite differ in parity. -/
theorem isOdd_neg {y : FieldElem} (h : y ≠ 0) : (0 - y).isOdd = !y.isOdd := by
  have hpos : 0 < y.val := Nat.pos_of_ne_zero fun hc => h (Fin.ext hc)
  have hlt := y.isLt
  have hval : (0 - y).val = fieldPrime - y.val := by
    rw [Fin.val_sub, Fin.val_zero, Nat.add_zero]
    exact Nat.mod_eq_of_lt (by omega)
  have hprime : fieldPrime % 2 = 1 := by decide
  rw [isOdd, isOdd, hval]
  rcases Nat.mod_two_eq_zero_or_one y.val with heven | hodd
  · rw [heven, show (fieldPrime - y.val) % 2 = 1 by omega]
    rfl
  · rw [hodd, show (fieldPrime - y.val) % 2 = 0 by omega]
    rfl

/-- Two elements with one square are the same or opposite. -/
theorem eq_or_eq_neg {y z : FieldElem} (hsq : y * y = z * z) : y = z ∨ y = 0 - z := by
  have hresidue : residue y * residue y = residue z * residue z := by
    rw [← residue_mul, ← residue_mul, hsq]
  rcases mul_self_eq_mul_self_iff.mp hresidue with hsame | hopposite
  · exact Or.inl (residue_inj.mp hsame)
  · refine Or.inr (residue_inj.mp ?_)
    rw [residue_sub, residue_zero, zero_sub, hopposite]

theorem neg_mul_self (y : FieldElem) : (0 - y) * (0 - y) = y * y := by
  refine residue_inj.mp ?_
  rw [residue_mul, residue_mul, residue_sub, residue_zero, zero_sub, neg_mul_neg]

/-- So a root is known by its parity. -/
theorem eq_of_mul_self_eq {y z : FieldElem} (hsq : y * y = z * z) (hodd : y.isOdd = z.isOdd) :
    y = z := by
  rcases eq_or_eq_neg hsq with hsame | hopposite
  · exact hsame
  · -- Zero is its own opposite, so there the parity is not needed.
    by_cases hz : z = 0
    · rw [hopposite, hz, sub_zero]
    · rw [hopposite, isOdd_neg hz] at hodd
      exact absurd hodd (Bool.not_ne_self _)

/-- What is found is a root. -/
theorem sqrt?_eq_some {a root : FieldElem} (h : sqrt? a = some root) : root * root = a := by
  rw [sqrt?] at h
  split at h
  · next hroot =>
      cases h
      exact hroot
  · cases h

/-- A root of a square is found. -/
theorem exists_sqrt? (y : FieldElem) : ∃ root, sqrt? (y * y) = some root := by
  refine ⟨_, if_pos (residue_inj.mp ?_)⟩
  rw [residue_mul, residue_pow, residue_mul, ← pow_add, ← pow_two, ← pow_mul]
  -- The exponents make up `p + 1`, two more than the exponent of the little theorem.
  rw [show 2 * ((fieldPrime + 1) / 4 + (fieldPrime + 1) / 4) = fieldPrime + 1 by decide, pow_succ,
    ZMod.pow_card, pow_two]

/-- A square of coordinates is a square of integers, up to multiples of the field prime. -/
theorem exists_mul_self_iff {a : FieldElem} {v : Int} (h : residue a = v) :
    (∃ y, y * y = a) ↔ ∃ w : Int, w ^ 2 ≡ v [ZMOD fieldPrime] := by
  have hresidue (y : FieldElem) (w : Int) (hw : residue y = w) :
      y * y = a ↔ w ^ 2 ≡ v [ZMOD fieldPrime] := by
    rw [← residue_inj, residue_mul, ← pow_two, hw, h, ← ZMod.intCast_eq_intCast_iff,
      Int.cast_pow]
  constructor
  · rintro ⟨y, hy⟩
    exact ⟨y.val, (hresidue y y.val (Int.cast_natCast _).symm).mp hy⟩
  · rintro ⟨w, hw⟩
    rcases exists_residue (w : ZMod fieldPrime) with ⟨y, hy⟩
    exact ⟨y, (hresidue y w hy).mpr hw⟩

/-- The right-hand side of the curve equation is never zero, since `-7` is not a cube. -/
theorem rhs_ne_zero (x : FieldElem) : x.rhs ≠ 0 := by
  intro hzero
  have hcube : residue x ^ 3 = ((fieldPrime - 7 : Nat) : ZMod fieldPrime) := by
    have hrhs : residue x ^ 3 + 7 = 0 := by rw [← residue_rhs, hzero, residue_zero]
    rw [Nat.cast_sub (by decide), CharP.cast_eq_zero, Nat.cast_ofNat]
    linear_combination hrhs
  have hne : residue x ≠ 0 := by
    intro hx
    rw [hx, zero_pow (by decide)] at hcube
    exact absurd ((ZMod.natCast_eq_zero_iff _ _).mp hcube.symm) (by decide)
  -- The cube of a residue other than zero has the power one, and `-7` has another.
  have hpower : ((Modular.powMod (fieldPrime - 7) ((fieldPrime - 1) / 3) fieldPrime : Nat)
      : ZMod fieldPrime) = 1 := by
    rw [Modular.cast_powMod, ← hcube, ← pow_mul,
      show 3 * ((fieldPrime - 1) / 3) = fieldPrime - 1 by decide]
    exact ZMod.pow_card_sub_one_eq_one hne
  rw [← Nat.cast_one (R := ZMod fieldPrime), ZMod.natCast_eq_natCast_iff'] at hpower
  exact absurd hpower (by decide +kernel)

end FieldElem

namespace Point

open FieldElem

theorem affine_ne_infinity {x y : FieldElem} : affine x y ≠ infinity :=
  nofun

/-- A finite point is on the curve where its coordinates satisfy the equation. -/
theorem onCurve_affine_iff {x y : FieldElem} : (affine x y).onCurve = true ↔ y * y = x.rhs :=
  beq_iff_eq

/-- No point of the curve has a second coordinate of zero, since no cube is the opposite of seven.
    -/
theorem y_ne_zero {x y : FieldElem} (h : (affine x y).onCurve = true) : y ≠ 0 := by
  rintro rfl
  exact rhs_ne_zero x ((onCurve_affine_iff.mp h).symm.trans (mul_zero 0))

/-- With a point its opposite is on the curve. -/
theorem onCurve_negate {x y : FieldElem} (h : (affine x y).onCurve = true) :
    (affine x (0 - y)).onCurve = true := by
  rw [onCurve_affine_iff, neg_mul_self]
  exact onCurve_affine_iff.mp h

/-- A finite point is known from its first coordinate and the parity of its second one. -/
theorem eq_of_parity {x y z : FieldElem} (hy : (affine x y).onCurve = true)
    (hz : (affine x z).onCurve = true) (hodd : y.isOdd = z.isOdd) : y = z :=
  eq_of_mul_self_eq ((onCurve_affine_iff.mp hy).trans (onCurve_affine_iff.mp hz).symm) hodd

/-- Coordinates are accepted if they are reduced and those of a point of the curve. -/
theorem ofCoordinates_eq_ok {v w : Int} {p : Point} :
    ofCoordinates v w = .ok p ↔
      ∃ x y, p = affine x y ∧ p.onCurve = true ∧ v = x.val ∧ w = y.val := by
  rw [ofCoordinates]
  constructor
  · -- Both are taken for elements first, and the equation is checked between these.
    intro h
    rcases hx : ofInt? v with _ | x
    · rw [hx] at h
      cases h
    rcases hy : ofInt? w with _ | y
    · simp only [hx, hy] at h
      cases h
    simp only [hx, hy] at h
    split at h
    · next hsquare =>
        cases h
        exact ⟨x, y, rfl, onCurve_affine_iff.mpr hsquare, ofInt?_eq_some.mp hx,
          ofInt?_eq_some.mp hy⟩
    · cases h
  · rintro ⟨x, y, rfl, hcurve, hv, hw⟩
    simp only [ofInt?_eq_some.mpr hv, ofInt?_eq_some.mpr hw]
    exact if_pos (onCurve_affine_iff.mp hcurve)

/-- Of a root and its opposite, the one that has the given parity. -/
theorem isOdd_choose {y : FieldElem} (hy : y ≠ 0) (odd : Bool) :
    (if y.isOdd = odd then y else 0 - y).isOdd = odd := by
  split
  · next hodd => exact hodd
  · next hodd => rw [isOdd_neg hy, Bool.eq_not.mpr hodd, Bool.not_not]

/-- Whichever of the two the parity picks, it is on the curve. -/
theorem onCurve_choose {x y : FieldElem} (h : (affine x y).onCurve = true) (odd : Bool) :
    (affine x (if y.isOdd = odd then y else 0 - y)).onCurve = true := by
  split
  · exact h
  · exact onCurve_negate h

/-- Decompression gives the point of the curve with the given first coordinate and parity,
    if there is one. -/
theorem decompress_eq_ok {v : Int} {odd : Bool} {p : Point} :
    decompress v odd = .ok p ↔
      ∃ x y, p = affine x y ∧ p.onCurve = true ∧ v = x.val ∧ y.isOdd = odd := by
  rw [decompress]
  constructor
  · intro h
    rcases hx : ofInt? v with _ | x
    · rw [hx] at h
      cases h
    rcases hroot : sqrt? x.rhs with _ | root
    · simp only [hx, hroot] at h
      cases h
    simp only [hx, hroot] at h
    have hp : affine x (if root.isOdd = odd then root else 0 - root) = p := Except.ok.inj h
    have hcurve : (affine x root).onCurve = true := onCurve_affine_iff.mpr (sqrt?_eq_some hroot)
    exact ⟨x, _, hp.symm, hp ▸ onCurve_choose hcurve odd, ofInt?_eq_some.mp hx,
      isOdd_choose (y_ne_zero hcurve) odd⟩
  · rintro ⟨x, y, rfl, hcurve, hv, hodd⟩
    have hsquare := onCurve_affine_iff.mp hcurve
    rcases exists_sqrt? y with ⟨root, hroot⟩
    rw [hsquare] at hroot
    have hfound : (affine x root).onCurve = true := onCurve_affine_iff.mpr (sqrt?_eq_some hroot)
    simp only [ofInt?_eq_some.mpr hv, hroot]
    -- Whichever root is found, the one that is chosen has the parity of the point.
    have hchosen := isOdd_choose (y_ne_zero hfound) odd
    rw [eq_of_parity (onCurve_choose hfound odd) hcurve (hchosen.trans hodd.symm)]
    rfl

end Point

end Bitcoin
