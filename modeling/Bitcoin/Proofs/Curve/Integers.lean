import Bitcoin.Curve.Jacobian
import Bitcoin.Curve.Sec1
import Bitcoin.Ecdsa.Signing
import Bitcoin.Proofs.Curve.Root

/-!
# Points with Integer Coordinates

The coordinates of a `Point` are residues by their type, so whatever a formula makes of them
is in range. Where coordinates are integers of any size and sign the type says nothing of
the kind. A result is in range because each sum, difference, product and power is reduced,
and two points are compared as pairs of integers, not as pairs of residues.

Here the formulas are written with such integers, and with no check of what they lead to.
They are the formulas on residues term by term: a residue is also an integer, and every
operation on residues is the operation on these integers. Nothing is assumed of the
integers that come in from outside; what is read is checked to be in range, and refused
otherwise, as it is for points of residues.

## Main definitions

* `FieldInt`: An integer used as a coordinate.
* `IntPoint`, `IntTriple`: Points with such coordinates, two or three of them.
* `FieldElem.toFieldInt`, `Point.toIntPoint`, `Jacobian.toIntTriple`: Residues as integers.

## Theorems

* `FieldElem.toFieldInt_add`, `FieldElem.toFieldInt_sub`, `FieldElem.toFieldInt_mul`,
  `FieldElem.toFieldInt_inv`, `FieldElem.map_sqrt?`: The operations on coordinates.
* `Point.toIntPoint_add`, `Point.toIntPoint_double`, `Point.toIntPoint_negate`,
  `Point.toIntPoint_mul`: The group law.
* `Point.map_ofCoordinates`, `Point.map_decompress`, `Point.map_ofSec1`,
  `Ecdsa.map_recover`: What comes in from outside.
-/

namespace Bitcoin

open Curve

/-- An integer used as a coordinate. -/
structure FieldInt where
  val : Int
deriving DecidableEq

namespace FieldInt

/-- The remainder of an integer. -/
def reduced (v : Int) : FieldInt := ⟨v % fieldPrime⟩

-- The results are reduced, the operands need not be.
instance : Add FieldInt := ⟨fun a b => reduced (a.val + b.val)⟩
instance : Sub FieldInt := ⟨fun a b => reduced (a.val - b.val)⟩
instance : Mul FieldInt := ⟨fun a b => reduced (a.val * b.val)⟩

/-- Whether an integer is a coordinate without being reduced. -/
def InRange (a : FieldInt) : Prop := 0 ≤ a.val ∧ a.val < fieldPrime

instance (a : FieldInt) : Decidable a.InRange :=
  inferInstanceAs (Decidable (0 ≤ a.val ∧ a.val < fieldPrime))

/-- The power of an integer. -/
def pow (a : FieldInt) (exponent : Nat) : FieldInt :=
  ⟨Modular.powMod (a.val % fieldPrime).toNat exponent fieldPrime⟩

/-- The inverse of an integer, with zero for the multiples of the field prime. -/
def inv (a : FieldInt) : FieldInt := a.pow (fieldPrime - 2)

/-- A square root of an integer, if it has one. -/
def sqrt? (a : FieldInt) : Option FieldInt :=
  let root := (reduced a.val).pow ((fieldPrime + 1) / 4)
  if root * root = reduced a.val then some root else none

/-- The value `x³ + 7`. -/
def rhs (x : FieldInt) : FieldInt := x * x * x + ⟨coefficient⟩

/-- Whether the integer is odd. -/
def isOdd (a : FieldInt) : Bool := a.val % 2 == 1

end FieldInt

/-- Infinity or a pair of integers. -/
inductive IntPoint where
  | infinity
  | affine (x y : FieldInt)
deriving DecidableEq

/-- A point with three integers for coordinates. -/
structure IntTriple where
  x : FieldInt
  y : FieldInt
  z : FieldInt

namespace IntPoint

/-- Whether the coordinates are in range and satisfy the equation. -/
def onCurve : IntPoint → Bool
  | infinity => true
  | affine x y => x.InRange ∧ y.InRange ∧ y * y = x.rhs

/-- The point with the given coordinates, if it is one. -/
def ofCoordinates (x y : Int) : Except Error IntPoint :=
  if ¬FieldInt.InRange ⟨x⟩ ∨ ¬FieldInt.InRange ⟨y⟩ then throw .pointNotOnCurve
  else if (⟨y⟩ * ⟨y⟩ : FieldInt) ≠ FieldInt.rhs ⟨x⟩ then throw .pointNotOnCurve
  else return affine ⟨x⟩ ⟨y⟩

/-- The generator of the group. -/
def generator : IntPoint := affine ⟨generatorX⟩ ⟨generatorY⟩

/-- The point with the opposite second coordinate. -/
def negate : IntPoint → IntPoint
  | infinity => infinity
  | affine x y => affine x (⟨0⟩ - y)

/-- The sum of a point with itself. -/
def double : IntPoint → IntPoint
  | infinity => infinity
  | affine x y =>
    if y = ⟨0⟩ then infinity
    else
      let slope := ⟨3⟩ * (x * x) * (y + y).inv
      let x3 := slope * slope - (x + x)
      affine x3 (slope * (x - x3) - y)

/-- The sum of two points. -/
def add : IntPoint → IntPoint → IntPoint
  | infinity, q => q
  | p, infinity => p
  | affine x1 y1, affine x2 y2 =>
    if x1 = x2 then
      if y1 = y2 then double (affine x1 y1) else infinity
    else
      let slope := (y2 - y1) * (x2 - x1).inv
      let x3 := slope * slope - x1 - x2
      affine x3 (slope * (x1 - x3) - y1)

/-- The point with the given first coordinate whose second one has the given parity. -/
def decompress (x : Int) (odd : Bool) : Except Error IntPoint :=
  if ¬FieldInt.InRange ⟨x⟩ then throw .pointNotOnCurve
  else
    match (FieldInt.rhs ⟨x⟩).sqrt? with
    | none => throw .pointNotOnCurve
    | some y => return affine ⟨x⟩ (if y.isOdd = odd then y else ⟨0⟩ - y)

/-- The point a written form stands for. -/
def ofSec1 : Bytes → Except Error IntPoint
  | [] => throw (.invalidPublicKey .emptyPoint)
  | first :: rest =>
    if (first = 2 ∨ first = 3) ∧ rest.length = 32 then
      decompress (Bytes.toNatBE rest) (first = 3)
    else if first = 4 ∧ rest.length = 64 then
      ofCoordinates (Bytes.toNatBE (rest.take 32)) (Bytes.toNatBE (rest.drop 32))
    else throw (.invalidPublicKey (.unsupported first (rest.length + 1)))

end IntPoint

namespace IntTriple

/-- The point at infinity. -/
def infinity : IntTriple := ⟨⟨1⟩, ⟨1⟩, ⟨0⟩⟩

/-- The triple of a pair of coordinates. -/
def ofAffine (x y : FieldInt) : IntTriple := ⟨x, y, ⟨1⟩⟩

/-- The point a triple stands for. -/
def toPoint (p : IntTriple) : IntPoint :=
  if p.z = ⟨0⟩ then .infinity
  else
    let i := p.z.inv
    let i2 := i * i
    .affine (p.x * i2) (p.y * (i2 * i))

/-- The sum of a point with itself. -/
def double (p : IntTriple) : IntTriple :=
  if p.z = ⟨0⟩ ∨ p.y = ⟨0⟩ then infinity
  else
    let a := p.x * p.x
    let b := p.y * p.y
    let c := b * b
    let half := (p.x + b) * (p.x + b) - a - c
    let d := half + half
    let e := a + a + a
    let x3 := e * e - (d + d)
    let yz := p.y * p.z
    ⟨x3, e * (d - x3) - ⟨8⟩ * c, yz + yz⟩

/-- The sum of two points. -/
def add (p q : IntTriple) : IntTriple :=
  if p.z = ⟨0⟩ then q
  else if q.z = ⟨0⟩ then p
  else
    let zp := p.z * p.z
    let zq := q.z * q.z
    let u1 := p.x * zq
    let u2 := q.x * zp
    let s1 := p.y * q.z * zq
    let s2 := q.y * p.z * zp
    if u1 = u2 then
      if s1 = s2 then p.double else infinity
    else
      let h := u2 - u1
      let r := s2 - s1
      let h2 := h * h
      let h3 := h2 * h
      let v := u1 * h2
      let x3 := r * r - h3 - (v + v)
      ⟨x3, r * (v - x3) - s1 * h3, h * p.z * q.z⟩

/-- The multiple of a point by the lowest `bits` bits of a number, and the one after it. -/
def ladder (base : IntTriple) : Nat → Nat → IntTriple × IntTriple
  | 0, _ => (infinity, base)
  | bits + 1, k =>
    let (low, high) := ladder base bits (k / 2)
    if k % 2 = 0 then (low.double, low.add high) else (low.add high, high.double)

/-- One more bit of the ladder, doubling one of the pair and adding them up. -/
theorem ladder_succ (base : IntTriple) (bits k : Nat) :
    ladder base (bits + 1) k =
      if k % 2 = 0 then
        ((ladder base bits (k / 2)).1.double,
          (ladder base bits (k / 2)).1.add (ladder base bits (k / 2)).2)
      else
        ((ladder base bits (k / 2)).1.add (ladder base bits (k / 2)).2,
          (ladder base bits (k / 2)).2.double) := rfl

end IntTriple

namespace IntPoint

/-- The multiple of a point by an integer. -/
def mul (k : Int) : IntPoint → IntPoint
  | infinity => infinity
  | affine x y => (IntTriple.ladder (.ofAffine x y) 256 (k % order).toNat).1.toPoint

/-- The multiple of the generator by an integer. -/
def mulBase (k : Int) : IntPoint := generator.mul k

/-- The key that a signature belongs to, given its recovery id. -/
def recover (digest : Hash256) (sig : Signature) (id : RecoveryId) : Except Error IntPoint := do
  let r := sig.r.val
  let x := if id.xReduced then r + order else r
  if fieldPrime ≤ x then throw (.invalidSignature .xOutOfField)
  let noncePoint ← decompress x id.yOdd
  let w := Scalar.inv r
  let u1 : Int := -(w * digest.toNatBE : Nat) % order
  let u2 := w * sig.s.val % order
  match (mulBase u1).add (noncePoint.mul u2) with
  | .infinity => throw .pointAtInfinity
  | key => return key

end IntPoint

namespace FieldElem

/-- A residue as an integer. -/
def toFieldInt (a : FieldElem) : FieldInt := ⟨a.val⟩

variable {a b : FieldElem}

/-- Elements are known by their integers. -/
theorem toFieldInt_inj : a.toFieldInt = b.toFieldInt ↔ a = b := by
  rw [toFieldInt, toFieldInt, FieldInt.mk.injEq, Int.ofNat_inj, Fin.ext_iff]

theorem emod_val (a : FieldElem) : (a.val : Int) % fieldPrime = a.val :=
  Int.emod_eq_of_lt (Int.natCast_nonneg _) (Int.ofNat_lt.mpr a.isLt)

theorem toFieldInt_add (a b : FieldElem) :
    (a + b).toFieldInt = a.toFieldInt + b.toFieldInt := by
  change FieldInt.mk ((a + b).val : Nat) = FieldInt.reduced (a.val + b.val)
  rw [Fin.val_add, FieldInt.reduced]
  push_cast
  rfl

theorem toFieldInt_mul (a b : FieldElem) :
    (a * b).toFieldInt = a.toFieldInt * b.toFieldInt := by
  change FieldInt.mk ((a * b).val : Nat) = FieldInt.reduced (a.val * b.val)
  rw [Fin.val_mul, FieldInt.reduced]
  push_cast
  rfl

/-- The difference of integers may be negative before it is reduced. -/
theorem toFieldInt_sub (a b : FieldElem) :
    (a - b).toFieldInt = a.toFieldInt - b.toFieldInt := by
  change FieldInt.mk ((a - b).val : Nat) = FieldInt.reduced (a.val - b.val)
  have hb : b.val ≤ fieldPrime := b.isLt.le
  rw [Fin.val_sub, FieldInt.reduced]
  push_cast [hb]
  rw [show (fieldPrime : Int) - b.val + a.val = a.val - b.val + fieldPrime by ring,
    Int.add_emod_right]

theorem toFieldInt_pow (a : FieldElem) (exponent : Nat) :
    (a.pow exponent).toFieldInt = a.toFieldInt.pow exponent := by
  rw [FieldInt.pow, toFieldInt, toFieldInt, emod_val, Int.toNat_natCast]
  rfl

theorem toFieldInt_inv (a : FieldElem) : a.inv.toFieldInt = a.toFieldInt.inv :=
  toFieldInt_pow a (fieldPrime - 2)

theorem toFieldInt_rhs (x : FieldElem) : x.rhs.toFieldInt = x.toFieldInt.rhs := by
  rw [rhs, toFieldInt_add, toFieldInt_mul, toFieldInt_mul]
  rfl

theorem toFieldInt_eq_zero : a.toFieldInt = ⟨0⟩ ↔ a = 0 :=
  toFieldInt_inj (b := 0)

theorem isOdd_toFieldInt (a : FieldElem) : a.toFieldInt.isOdd = a.isOdd := by
  have hparity (n : Nat) : (n : Int) % 2 = 1 ↔ n % 2 = 1 := by omega
  rw [isOdd, FieldInt.isOdd, Bool.eq_iff_iff, beq_iff_eq, beq_iff_eq]
  exact hparity a.val

/-- The integer of an element is reduced. -/
theorem inRange_toFieldInt (a : FieldElem) : a.toFieldInt.InRange :=
  ⟨Int.natCast_nonneg _, Int.ofNat_lt.mpr a.isLt⟩

/-- An integer in range is a residue. -/
theorem exists_toFieldInt {v : FieldInt} (h : v.InRange) : ∃ a : FieldElem, v = a.toFieldInt := by
  rcases v with ⟨v⟩
  rcases h with ⟨hnonneg, hlt⟩
  lift v to Nat using hnonneg
  exact ⟨⟨v, Int.ofNat_lt.mp hlt⟩, rfl⟩

/-- The same root is found for residues and for integers. -/
theorem map_sqrt? (a : FieldElem) : a.sqrt?.map toFieldInt = a.toFieldInt.sqrt? := by
  have hreduced : FieldInt.reduced a.toFieldInt.val = a.toFieldInt :=
    congrArg FieldInt.mk (emod_val a)
  rw [sqrt?, FieldInt.sqrt?, hreduced, ← toFieldInt_pow, ← toFieldInt_mul]
  by_cases hroot : a.pow ((fieldPrime + 1) / 4) * a.pow ((fieldPrime + 1) / 4) = a
  · rw [if_pos hroot, if_pos (toFieldInt_inj.mpr hroot)]
    rfl
  · rw [if_neg hroot, if_neg (mt toFieldInt_inj.mp hroot)]
    rfl

end FieldElem

namespace Point

open FieldElem

/-- A point with the residues as integers. -/
def toIntPoint : Point → IntPoint
  | infinity => .infinity
  | affine x y => .affine x.toFieldInt y.toFieldInt

@[simp] theorem toIntPoint_infinity : infinity.toIntPoint = .infinity := rfl

@[simp] theorem toIntPoint_affine (x y : FieldElem) :
    (affine x y).toIntPoint = .affine x.toFieldInt y.toFieldInt := rfl

/-- Points are known by their integers. -/
theorem toIntPoint_inj {p q : Point} : p.toIntPoint = q.toIntPoint ↔ p = q := by
  refine ⟨fun h => ?_, fun h => h ▸ rfl⟩
  cases p with
  | infinity =>
      cases q with
      | infinity => rfl
      | affine => cases h
  | affine x1 y1 =>
      cases q with
      | infinity => cases h
      | affine x2 y2 =>
          rcases IntPoint.affine.inj h with ⟨hx, hy⟩
          rw [toFieldInt_inj.mp hx, toFieldInt_inj.mp hy]

theorem toIntPoint_negate (p : Point) : p.negate.toIntPoint = p.toIntPoint.negate := by
  cases p with
  | infinity => rfl
  | affine x y =>
      rw [negate, toIntPoint, toFieldInt_sub]
      rfl

-- In the formulas below the integers are put together again to the residues that they are.
theorem toIntPoint_double (p : Point) : p.double.toIntPoint = p.toIntPoint.double := by
  cases p with
  | infinity => rfl
  | affine x y =>
      have hthree : (⟨3⟩ : FieldInt) = toFieldInt 3 := rfl
      simp only [double, IntPoint.double, toIntPoint_affine, toIntPoint_infinity, hthree,
        toFieldInt_eq_zero, ← toFieldInt_add, ← toFieldInt_sub, ← toFieldInt_mul,
        ← toFieldInt_inv, apply_ite toIntPoint]

/-- Both additions take the same case, since they compare the same coordinates. -/
theorem toIntPoint_add (p q : Point) : (p.add q).toIntPoint = p.toIntPoint.add q.toIntPoint := by
  cases p with
  | infinity => rfl
  | affine x1 y1 =>
      cases q with
      | infinity => rfl
      | affine x2 y2 =>
          have hdouble := toIntPoint_double (affine x1 y1)
          rw [toIntPoint_affine] at hdouble
          simp only [add, IntPoint.add, toIntPoint_affine, toIntPoint_infinity, toFieldInt_inj,
            ← hdouble, ← toFieldInt_sub, ← toFieldInt_mul, ← toFieldInt_inv,
            apply_ite toIntPoint]

end Point

namespace Jacobian

open FieldElem

/-- A triple with the residues as integers. -/
def toIntTriple (p : Jacobian) : IntTriple :=
  ⟨p.x.toFieldInt, p.y.toFieldInt, p.z.toFieldInt⟩

@[simp] theorem toIntTriple_x (p : Jacobian) : p.toIntTriple.x = p.x.toFieldInt := rfl

@[simp] theorem toIntTriple_y (p : Jacobian) : p.toIntTriple.y = p.y.toFieldInt := rfl

@[simp] theorem toIntTriple_z (p : Jacobian) : p.toIntTriple.z = p.z.toFieldInt := rfl

theorem toIntPoint_toPoint (p : Jacobian) : p.toPoint.toIntPoint = p.toIntTriple.toPoint := by
  simp only [toPoint, IntTriple.toPoint, toIntTriple_x, toIntTriple_y, toIntTriple_z,
    Point.toIntPoint_infinity, Point.toIntPoint_affine, toFieldInt_eq_zero, ← toFieldInt_mul,
    ← toFieldInt_inv, apply_ite Point.toIntPoint]

theorem toIntTriple_double (p : Jacobian) : p.double.toIntTriple = p.toIntTriple.double := by
  have height : (⟨8⟩ : FieldInt) = toFieldInt 8 := rfl
  simp only [double, IntTriple.double, toIntTriple_x, toIntTriple_y, toIntTriple_z, height,
    toFieldInt_eq_zero, ← toFieldInt_add, ← toFieldInt_sub, ← toFieldInt_mul,
    apply_ite toIntTriple]
  rfl

theorem toIntTriple_add (p q : Jacobian) :
    (p.add q).toIntTriple = p.toIntTriple.add q.toIntTriple := by
  simp only [add, IntTriple.add, toIntTriple_x, toIntTriple_y, toIntTriple_z,
    toFieldInt_eq_zero, toFieldInt_inj, ← toIntTriple_double, ← toFieldInt_add,
    ← toFieldInt_sub, ← toFieldInt_mul, apply_ite toIntTriple]
  rfl

/-- The ladder climbs the same steps. The induction is on the bits that are read. -/
theorem toIntTriple_ladder (base : Jacobian) (bits k : Nat) :
    (ladder base bits k).1.toIntTriple = (IntTriple.ladder base.toIntTriple bits k).1 ∧
      (ladder base bits k).2.toIntTriple = (IntTriple.ladder base.toIntTriple bits k).2 := by
  induction bits generalizing k with
  | zero =>
      rw [ladder_zero]
      exact ⟨rfl, rfl⟩
  | succ bits ih =>
      rcases ih (k / 2) with ⟨hlow, hhigh⟩
      rw [ladder_succ, IntTriple.ladder_succ]
      -- The bit decides for both ladders which of the pair is doubled.
      by_cases hbit : k % 2 = 0
      · rw [if_pos hbit, if_pos hbit, toIntTriple_double, toIntTriple_add, hlow, hhigh]
        exact ⟨rfl, rfl⟩
      · rw [if_neg hbit, if_neg hbit, toIntTriple_double, toIntTriple_add, hlow, hhigh]
        exact ⟨rfl, rfl⟩

end Jacobian

namespace Point

open FieldElem

/-- So multiples are the same point. -/
theorem toIntPoint_mul (p : Point) (k : Int) : (p.mul k).toIntPoint = p.toIntPoint.mul k := by
  cases p with
  | infinity => rfl
  | affine x y =>
      rw [mul, Jacobian.toIntPoint_toPoint, (Jacobian.toIntTriple_ladder _ _ _).1]
      rfl

theorem toIntPoint_mulBase (k : Int) : (mulBase k).toIntPoint = IntPoint.mulBase k := by
  rw [mulBase, toIntPoint_mul]
  rfl

/-- The check of a point adds nothing for integers that are reduced. -/
theorem onCurve_toIntPoint (p : Point) : p.toIntPoint.onCurve = p.onCurve := by
  cases p with
  | infinity => rfl
  | affine x y =>
      rw [toIntPoint_affine, IntPoint.onCurve, onCurve, Bool.eq_iff_iff, decide_eq_true_iff,
        beq_iff_eq, ← toFieldInt_mul, ← toFieldInt_rhs, toFieldInt_inj]
      exact ⟨fun h => h.2.2, fun h => ⟨x.inRange_toFieldInt, y.inRange_toFieldInt, h⟩⟩

/-- An integer out of range is no residue, and one in range is one. -/
theorem ofInt?_eq (v : Int) : ofInt? v = none ∧ ¬FieldInt.InRange ⟨v⟩ ∨
    ∃ x, ofInt? v = some x ∧ (⟨v⟩ : FieldInt) = x.toFieldInt := by
  by_cases hrange : FieldInt.InRange ⟨v⟩
  · rcases exists_toFieldInt hrange with ⟨x, hx⟩
    exact .inr ⟨x, ofInt?_eq_some.mpr (FieldInt.mk.inj hx), hx⟩
  · refine .inl ⟨?_, hrange⟩
    rw [Option.eq_none_iff_forall_ne_some]
    intro x hx
    rw [ofInt?_eq_some.mp hx] at hrange
    exact hrange x.inRange_toFieldInt

/-- Coordinates are refused or read alike. What is out of range is refused first, and then what is
    off the curve. -/
theorem map_ofCoordinates (v w : Int) :
    (ofCoordinates v w).map toIntPoint = IntPoint.ofCoordinates v w := by
  rw [ofCoordinates, IntPoint.ofCoordinates]
  rcases ofInt?_eq v with ⟨hx, hv⟩ | ⟨x, hx, hv⟩
  · rw [if_pos (.inl hv), hx]
    rfl
  rcases ofInt?_eq w with ⟨hy, hw⟩ | ⟨y, hy, hw⟩
  · rw [if_pos (.inr hw), hx, hy]
    rfl
  have hrange : ¬(¬FieldInt.InRange ⟨v⟩ ∨ ¬FieldInt.InRange ⟨w⟩) := by
    rw [hv, hw, not_or, not_not, not_not]
    exact ⟨x.inRange_toFieldInt, y.inRange_toFieldInt⟩
  -- Both are reduced from here on, so the equation is one of residues.
  have hsquare : (⟨w⟩ * ⟨w⟩ : FieldInt) = FieldInt.rhs ⟨v⟩ ↔ y * y = x.rhs := by
    rw [hv, hw, ← toFieldInt_mul, ← toFieldInt_rhs, toFieldInt_inj]
  rw [if_neg hrange, hx, hy]
  by_cases hcurve : y * y = x.rhs
  · rw [if_neg (not_not.mpr (hsquare.mpr hcurve)), hv, hw]
    dsimp only
    rw [if_pos hcurve]
    rfl
  · rw [if_pos (mt hsquare.mp hcurve)]
    dsimp only
    rw [if_neg hcurve]
    rfl

/-- A point is found alike from its first coordinate and a parity. -/
theorem map_decompress (v : Int) (odd : Bool) :
    (decompress v odd).map toIntPoint = IntPoint.decompress v odd := by
  rw [decompress, IntPoint.decompress]
  rcases ofInt?_eq v with ⟨hx, hv⟩ | ⟨x, hx, hv⟩
  · rw [if_pos hv, hx]
    rfl
  rw [if_neg (not_not.mpr (hv ▸ x.inRange_toFieldInt)), hx, hv, ← toFieldInt_rhs, ← map_sqrt?]
  dsimp only
  rcases x.rhs.sqrt? with _ | y
  · rfl
  · -- Of the two roots the parity picks the same one.
    change Except.ok (toIntPoint (affine x (if y.isOdd = odd then y else 0 - y))) = _
    rw [toIntPoint_affine, apply_ite toFieldInt, toFieldInt_sub]
    change _ = Except.ok (IntPoint.affine _ (if y.toFieldInt.isOdd = odd then _ else _))
    rw [isOdd_toFieldInt]
    rfl

theorem map_ofSec1 (bytes : Bytes) : (ofSec1 bytes).map toIntPoint = IntPoint.ofSec1 bytes := by
  rcases bytes with _ | ⟨first, rest⟩
  · rfl
  rw [ofSec1, IntPoint.ofSec1]
  split
  · exact map_decompress _ _
  · split
    · exact map_ofCoordinates _ _
    · rfl

end Point

namespace Ecdsa

open Point

-- A change of the value may be made after the first part of a sequence or after both.
theorem map_bind {x : Except Error Point} {f : Point → Except Error Point}
    {g : IntPoint → Except Error IntPoint}
    (h : ∀ p, (f p).map toIntPoint = g p.toIntPoint) :
    (x >>= f).map toIntPoint = x.map toIntPoint >>= g := by
  rcases x with error | p
  · rfl
  · exact h p

-- The last step of recovery, which gives back any point but infinity.
theorem map_finite (p : Point) :
    Except.map toIntPoint ((match p with
      | .infinity => throw .pointAtInfinity
      | found => return found) : Except Error Point) =
    ((match p.toIntPoint with
      | .infinity => throw .pointAtInfinity
      | found => return found) : Except Error IntPoint) := by
  cases p with
  | infinity => rfl
  | affine => rfl

/-- So a recovered point is the same. -/
theorem map_recover (digest : Hash256) (sig : Signature) (id : RecoveryId) :
    (recover digest sig id).map toIntPoint = IntPoint.recover digest sig id := by
  rw [recover, IntPoint.recover]
  dsimp only
  by_cases hx : fieldPrime ≤ if id.xReduced = true then sig.r.val + order else sig.r.val
  · rw [if_pos hx, if_pos hx]
    rfl
  rw [if_neg hx, if_neg hx, ← map_decompress]
  refine map_bind fun noncePoint => ?_
  rw [← toIntPoint_mulBase, ← toIntPoint_mul, ← toIntPoint_add]
  exact map_finite _

end Ecdsa

end Bitcoin
