import Bitcoin.Curve.Sec1
import Bitcoin.Proofs.Bytes
import Bitcoin.Proofs.Curve.Root
import Mathlib.Data.Int.ModEq

/-!
# Written Points Are Read Exactly

A finite point of the curve has two written forms, and each of them is read as that point.
Nothing else is read as a point. The full form says both coordinates, so there is little
to be seen but that coordinates that are not reduced, or not those of a point, are
refused. The compressed form says one of them and a parity, and stands or falls with the
search for the other one: it has to be found whenever it exists, and the parity has to
tell the two candidates apart.

So a number and a parity are taken for a point exactly if the number is a coordinate, not
one that has still to be reduced, and the right-hand side of the equation is a square.

## Main definitions

* `Point.LiesAt`: What a first coordinate and a parity say of a point.

## Theorems

* `FieldElem.exists_root_iff`: Roots of the right-hand side, as residues of integers.
* `Point.LiesAt.unique`: There is at most one such point.
* `Point.exists_decompress_iff`: When there is one.
* `Point.ofSec1_compressed`, `Point.ofSec1_uncompressed`: Both forms are read.
* `Point.ofSec1_eq_ok`: No other form is.
* `Point.sec1_exact`: All of this together.
-/

namespace Bitcoin

namespace FieldElem

open Curve

theorem toNatBE_toBytes (x : FieldElem) : Bytes.toNatBE x.toBytes = x.val :=
  Bytes.toNatBE_fixedBE (Nat.lt_trans x.isLt (by decide))

/-- Bytes that stand for a coordinate are its form. -/
theorem eq_toBytes {x : FieldElem} {bytes : Bytes} (hlength : bytes.length = 32)
    (h : (Bytes.toNatBE bytes : Int) = x.val) : bytes = x.toBytes := by
  rw [toBytes, ← Int.ofNat.inj h, ← hlength, Bytes.fixedBE_toNatBE]

/-- The equation can be solved for coordinates if it can be for integers. -/
theorem exists_root_iff {x : FieldElem} :
    (∃ y, y * y = x.rhs) ↔ ∃ w : Int, w ^ 2 ≡ (x.val : Int) ^ 3 + 7 [ZMOD fieldPrime] := by
  refine exists_mul_self_iff ?_
  rw [residue_rhs, residue]
  push_cast
  rfl

end FieldElem

namespace Point

open Curve FieldElem

variable {p q : Point} {v : Int} {odd : Bool} {x y : FieldElem} {bytes : Bytes}

/-- A point of the curve with a given first coordinate, whose second one has a given
    parity. -/
def LiesAt (p : Point) (v : Int) (odd : Bool) : Prop :=
  ∃ x y, p = affine x y ∧ p.onCurve = true ∧ v = x.val ∧ y.isOdd = odd

/-- A point is the only one that lies where it does. -/
theorem LiesAt.unique (hp : p.LiesAt v odd) (hq : q.LiesAt v odd) : q = p := by
  have hfound : decompress v odd = .ok p := decompress_eq_ok.mpr hp
  rw [decompress_eq_ok.mpr hq] at hfound
  exact Except.ok.inj hfound

/-- Decompression finds a point for each reduced number for which the equation can be
    solved. -/
theorem exists_decompress_iff : (∃ p, decompress v odd = .ok p) ↔
    0 ≤ v ∧ v < fieldPrime ∧ ∃ w : Int, w ^ 2 ≡ v ^ 3 + 7 [ZMOD fieldPrime] := by
  constructor
  · rintro ⟨p, hp⟩
    rcases decompress_eq_ok.mp hp with ⟨x, y, rfl, hcurve, rfl, -⟩
    exact ⟨Int.natCast_nonneg _, Int.ofNat_lt.mpr x.isLt,
      exists_root_iff.mp ⟨y, onCurve_affine_iff.mp hcurve⟩⟩
  · rintro ⟨hnonneg, hlt, hsquare⟩
    lift v to Nat using hnonneg
    obtain ⟨x, rfl⟩ : ∃ x : FieldElem, v = x.val := ⟨⟨v, Int.ofNat_lt.mp hlt⟩, rfl⟩
    rcases exists_root_iff.mpr hsquare with ⟨y, hy⟩
    have hcurve : (affine x y).onCurve = true := onCurve_affine_iff.mpr hy
    -- The root or its opposite has the parity.
    exact ⟨_, decompress_eq_ok.mpr ⟨x, _, rfl, onCurve_choose hcurve odd, rfl,
      isOdd_choose (y_ne_zero hcurve) odd⟩⟩

/-- A point is read back from its first coordinate and its parity. -/
theorem ofSec1_compressed (hcurve : (affine x y).onCurve = true) :
    ofSec1 (Sec1.compressed x y) = .ok (affine x y) := by
  have htag : ((if y.isOdd = true then 3 else 2 : UInt8) = 2 ∨
      (if y.isOdd = true then 3 else 2 : UInt8) = 3) ∧
      decide ((if y.isOdd = true then 3 else 2 : UInt8) = 3) = y.isOdd := by
    cases y.isOdd with
    | false => decide
    | true => decide
  rw [Sec1.compressed, ofSec1, if_pos ⟨htag.1, x.length_toBytes⟩, toNatBE_toBytes, htag.2]
  exact decompress_eq_ok.mpr ⟨x, y, rfl, hcurve, rfl, rfl⟩

/-- A point is read back from both coordinates. -/
theorem ofSec1_uncompressed (hcurve : (affine x y).onCurve = true) :
    ofSec1 (Sec1.uncompressed x y) = .ok (affine x y) := by
  have hlength : (x.toBytes ++ y.toBytes).length = 64 := by
    rw [List.length_append, length_toBytes, length_toBytes]
  have hfull : ¬(((4 : UInt8) = 2 ∨ (4 : UInt8) = 3) ∧
      (x.toBytes ++ y.toBytes).length = 32) := by
    rw [hlength]
    decide
  rw [Sec1.uncompressed, List.cons_append, ofSec1, if_neg hfull, if_pos ⟨rfl, hlength⟩,
    List.take_left' x.length_toBytes, List.drop_left' x.length_toBytes, toNatBE_toBytes,
    toNatBE_toBytes]
  exact ofCoordinates_eq_ok.mpr ⟨x, y, rfl, hcurve, rfl, rfl⟩

/-- What is read as a point is one of its two forms, and the point lies on the curve. -/
theorem ofSec1_eq_ok : ofSec1 bytes = .ok p ↔
    ∃ x y, p = affine x y ∧ p.onCurve = true ∧
      (bytes = Sec1.compressed x y ∨ bytes = Sec1.uncompressed x y) := by
  constructor
  · intro h
    rcases bytes with _ | ⟨first, rest⟩
    · cases h
    rw [ofSec1] at h
    split at h
    · next hform =>
        rcases decompress_eq_ok.mp h with ⟨x, y, rfl, hcurve, hx, hodd⟩
        refine ⟨x, y, rfl, hcurve, .inl ?_⟩
        -- The tag says the parity that the point was picked by.
        have htag : first = if y.isOdd then 3 else 2 := by
          rcases hform.1 with rfl | rfl
          · rw [hodd]
            rfl
          · rw [hodd]
            rfl
        rw [Sec1.compressed, ← htag, ← eq_toBytes hform.2 hx]
    · split at h
      · next hform =>
          rcases ofCoordinates_eq_ok.mp h with ⟨x, y, rfl, hcurve, hx, hy⟩
          refine ⟨x, y, rfl, hcurve, .inr ?_⟩
          -- Both halves have the width of a coordinate, so each is the bytes of one.
          have hxbytes := eq_toBytes (by rw [List.length_take, hform.2]; rfl) hx
          have hybytes := eq_toBytes (by rw [List.length_drop, hform.2]) hy
          rw [Sec1.uncompressed, ← hxbytes, ← hybytes, hform.1, List.cons_append,
            List.take_append_drop]
      · cases h
  · rintro ⟨x, y, rfl, hcurve, rfl | rfl⟩
    · exact ofSec1_compressed hcurve
    · exact ofSec1_uncompressed hcurve

/-- Each finite point of the curve is read from both of its forms, and whatever is read as
    a point is one of these forms. A number and a parity are those of a point exactly if
    the number is reduced and its cube plus seven is a square modulo the field prime, and
    the point that is found is the only one. -/
theorem sec1_exact :
    (∀ p : Point, p.onCurve = true → p ≠ infinity → ∃ short full,
      p.toCompressed = .ok short ∧ ofSec1 short = .ok p ∧
      p.toUncompressed = .ok full ∧ ofSec1 full = .ok p) ∧
    (∀ bytes p, ofSec1 bytes = .ok p → p.onCurve = true ∧
      (p.toCompressed = .ok bytes ∧ bytes.length = 33 ∨
        p.toUncompressed = .ok bytes ∧ bytes.length = 65)) ∧
    ∀ (v : Int) (odd : Bool),
      ((∃ p, decompress v odd = .ok p) ↔
        0 ≤ v ∧ v < fieldPrime ∧ ∃ w : Int, w ^ 2 ≡ v ^ 3 + 7 [ZMOD fieldPrime]) ∧
      ∀ p, decompress v odd = .ok p → p.LiesAt v odd ∧ ∀ q, q.LiesAt v odd → q = p := by
  refine ⟨fun p hcurve hfinite => ?_, fun bytes p h => ?_, fun v odd => ?_⟩
  · -- Only infinity has no bytes.
    cases p with
    | infinity => exact absurd rfl hfinite
    | affine x y =>
        exact ⟨_, _, rfl, ofSec1_compressed hcurve, rfl, ofSec1_uncompressed hcurve⟩
  · rcases ofSec1_eq_ok.mp h with ⟨x, y, rfl, hcurve, rfl | rfl⟩
    · refine ⟨hcurve, .inl ⟨rfl, ?_⟩⟩
      rw [Sec1.compressed, List.length_cons, length_toBytes]
    · refine ⟨hcurve, .inr ⟨rfl, ?_⟩⟩
      rw [Sec1.uncompressed, List.length_append, List.length_cons, length_toBytes,
        length_toBytes]
  · refine ⟨exists_decompress_iff, fun p h => ?_⟩
    have hp : p.LiesAt v odd := decompress_eq_ok.mp h
    exact ⟨hp, fun q hq => hp.unique hq⟩

/-- The generator is read from both of its forms. -/
theorem sec1_exact_generator : generator.onCurve = true ∧ generator ≠ infinity ∧
    ∃ short full, generator.toCompressed = .ok short ∧ ofSec1 short = .ok generator ∧
      generator.toUncompressed = .ok full ∧ ofSec1 full = .ok generator := by
  have hcurve : generator.onCurve = true := by decide +kernel
  have hfinite : generator ≠ infinity := nofun
  exact ⟨hcurve, hfinite, sec1_exact.1 generator hcurve hfinite⟩

end Point

end Bitcoin
