import Bitcoin.Proofs.Curve.Root
import Bitcoin.Proofs.Result

/-!
# Every Square Has Its Root Found

The search for a square root takes one power and looks whether its square is what was
asked for. That the answer is sound is seen at once. That no root is missed depends on the
exponent, on the field prime and on this prime being 3 modulo 4: the power of a square is
one of its two roots, as `exists_sqrt?` shows.

Integers of any size and sign stand for residues, so squares are stated as congruences of
integers here.

## Theorems

* `FieldElem.exists_sqrt?_iff`: A root is found for squares only, and for all of them.
* `FieldElem.power_of_sqrt?`: The root is a power of the integer.
* `FieldElem.sqrt?_exact`: All of this for integers, and no point of the curve is refused.
-/

namespace Bitcoin

namespace FieldElem

open Curve

variable {a y : FieldElem} {v : Int}

/-- A root is found exactly for the squares. -/
theorem exists_sqrt?_iff : (∃ y, a.sqrt? = some y) ↔ ∃ y, y * y = a := by
  constructor
  · rintro ⟨y, hy⟩
    exact ⟨y, sqrt?_eq_some hy⟩
  · rintro ⟨y, rfl⟩
    exact exists_sqrt? y

/-- The root is a power of the integer that it is a root of. -/
theorem power_of_sqrt? (h : (ofInt v).sqrt? = some y) :
    Modular.power v ((fieldPrime + 1) / 4 : Nat) fieldPrime = .ok y.val := by
  rw [sqrt?] at h
  split at h
  · rw [Modular.power_natCast fieldPrime_pos, ← val_ofInt, ← Option.some.inj h]
    rfl
  · cases h

/-- A square root of an integer is found exactly if the integer is a square modulo the field
    prime. It is then a power of the integer, reduced, and its square is congruent to the
    integer. So each finite point of the curve is found from its first coordinate and the
    parity of its second one. -/
theorem sqrt?_exact :
    (∀ v : Int,
      ((∃ y, (ofInt v).sqrt? = some y) ↔ ∃ w : Int, w ^ 2 ≡ v [ZMOD fieldPrime]) ∧
      ∀ y, (ofInt v).sqrt? = some y →
        Modular.power v ((fieldPrime + 1) / 4 : Nat) fieldPrime = .ok y.val ∧
        0 ≤ (y.val : Int) ∧ (y.val : Int) < fieldPrime ∧
        (y.val : Int) ^ 2 ≡ v [ZMOD fieldPrime]) ∧
    ∀ x y : FieldElem, (Point.affine x y).onCurve = true →
      Point.decompress x.val y.isOdd = .ok (.affine x y) := by
  refine ⟨fun v => ⟨exists_sqrt?_iff.trans (exists_mul_self_iff (residue_ofInt v)),
    fun y hy => ?_⟩, fun x y hcurve => ?_⟩
  · -- Between residues the equation is one of elements, which is what has been checked.
    have hsquare : residue y * residue y = v := by
      rw [← residue_mul, sqrt?_eq_some hy, residue_ofInt]
    refine ⟨power_of_sqrt? hy, Int.natCast_nonneg _, Int.ofNat_lt.mpr y.isLt, ?_⟩
    rw [← ZMod.intCast_eq_intCast_iff, Int.cast_pow, Int.cast_natCast, pow_two]
    exact hsquare
  · exact Point.decompress_eq_ok.mpr ⟨x, y, rfl, hcurve, rfl, rfl⟩

/-- Nine has the root that is found, and one less than zero has none. -/
theorem sqrt?_exact_nine :
    (ofInt 9).sqrt? = some (0 - 3) ∧
      (((0 - 3 : FieldElem).val : Nat) : Int) ^ 2 ≡ 9 [ZMOD fieldPrime] ∧
      ¬∃ w : Int, w ^ 2 ≡ -1 [ZMOD fieldPrime] := by
  have hroot : (ofInt 9).sqrt? = some (0 - 3) := by decide +kernel
  have hnone : (ofInt (-1)).sqrt? = none := by decide +kernel
  refine ⟨hroot, ((sqrt?_exact.1 9).2 _ hroot).2.2.2, fun hsquare => ?_⟩
  rcases (sqrt?_exact.1 (-1)).1.mpr hsquare with ⟨y, hy⟩
  rw [hnone] at hy
  cases hy

-- The exponent that is written out as a number of its own.
example : (fieldPrime + 1) / 4 =
    0x3fffffffffffffffffffffffffffffffffffffffffffffffffffffffbfffff0c := by
  decide

end FieldElem

end Bitcoin
