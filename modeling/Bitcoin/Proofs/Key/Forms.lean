import Bitcoin.Proofs.Curve.Sec1
import Bitcoin.Proofs.Machine.Form
import Bitcoin.Transaction.Checking

/-!
# The Three Forms of a Key

A signature check reads a key in any of three forms. Two of them are the written forms of
a point, and the third one is the full form with another byte in front, which says the
parity of the second coordinate besides the coordinate itself. It is read by way of the
full form, and the parity must fit.

So what is read as a key is one of the three forms of that key, and the forms are told
apart by their first bytes. Whatever else begins with one of these bytes, because it has
another length, coordinates that are not reduced or not those of a point, or the wrong
parity, is not read at all. A signature check asks for nothing but the key that has been
read, so its answer does not depend on the form.

The rule on standard keys looks at the first byte and the length only. Under it the third
form is kept out, and the other two are let through.

## Main definitions

* `PublicKey.hybrid`: The third form of a key.

## Theorems

* `PublicKey.ofBytes_eq_ok`: The forms that are read everywhere.
* `PublicKey.ofAnyForm?_eq_some`: The forms that a signature check reads.
* `KeyForm.isStandard_cons`: What the rule on standard keys looks at.
* `PublicKey.forms_exact`: All of this together.
-/

namespace Bitcoin

namespace KeyForm

/-- The rule on standard keys looks at the first byte and at the length. -/
theorem isStandard_cons {tag : UInt8} {rest : Bytes} : isStandard (tag :: rest) = true ↔
    rest.length = 32 ∧ (tag = 0x02 ∨ tag = 0x03) ∨ rest.length = 64 ∧ tag = 0x04 := by
  rw [isStandard, decide_eq_true_iff, List.length_cons, Nat.succ_inj, Nat.succ_inj]

/-- Under strict encoding a key needs one of the two standard forms. -/
theorem check_eq_ok_of_strict {rules : Rules} {bytes : Bytes}
    (h : rules.has .strictEncoding = true) :
    check rules bytes = .ok () ↔ isStandard bytes = true := by
  rw [check_eq_ok, not_and, not_not, forall_prop_of_true h]

end KeyForm

-- Of the bytes of a key a signature check uses only what is read from them.
theorem Transaction.verifySignature_congr {tx : Transaction} {sig first second : Bytes}
    {code : Script} {index : Nat}
    (h : PublicKey.ofAnyForm? first = PublicKey.ofAnyForm? second) :
    tx.verifySignature sig first code index = tx.verifySignature sig second code index := by
  rw [verifySignature, verifySignature, h]

namespace PublicKey

variable {key : PublicKey} {bytes : Bytes}

/-- The third form: the full form with the parity of the second coordinate in front. -/
def hybrid (key : PublicKey) : Bytes :=
  key.uncompressed.set 0 (if key.y.isOdd then 0x07 else 0x06)

theorem length_compressed (key : PublicKey) : key.compressed.length = 33 := by
  rw [compressed, Sec1.compressed, List.length_cons, FieldElem.length_toBytes]

theorem length_coordinates (key : PublicKey) : (key.x.toBytes ++ key.y.toBytes).length = 64 := by
  rw [List.length_append, FieldElem.length_toBytes, FieldElem.length_toBytes]

/-- A key is a point that is not infinity. -/
theorem ofPoint_eq_ok {p : Point} : ofPoint p = .ok key ↔ p = key.toPoint := by
  rcases p with _ | ⟨x, y⟩
  · exact ⟨nofun, fun h => absurd h.symm Point.affine_ne_infinity⟩
  · rw [toPoint, Point.affine.injEq]
    constructor
    · intro h
      cases h
      exact ⟨rfl, rfl⟩
    · rintro ⟨rfl, rfl⟩
      rfl

/-- A key is read from the written forms of its point, and it lies on the curve. -/
theorem ofBytes_eq_ok : ofBytes bytes = .ok key ↔
    key.toPoint.onCurve = true ∧ (bytes = key.compressed ∨ bytes = key.uncompressed) := by
  refine Result.refuse_eq_ok.trans ?_
  rw [Result.bind_eq_ok]
  constructor
  · rintro ⟨-, p, hp, hkey⟩
    rcases Point.ofSec1_eq_ok.mp hp with ⟨x, y, rfl, hcurve, hform⟩
    cases ofPoint_eq_ok.mp hkey
    exact ⟨hcurve, hform⟩
  · rintro ⟨hcurve, hform⟩
    refine ⟨?_, key.toPoint, Point.ofSec1_eq_ok.mpr ⟨_, _, rfl, hcurve, hform⟩,
      ofPoint_eq_ok.mpr rfl⟩
    -- No form is empty.
    rcases hform with rfl | rfl
    · exact Bool.false_ne_true
    · exact Bool.false_ne_true

section
variable {tag : UInt8} {rest : Bytes}

/-- The first byte of a compressed key tells the parity. -/
theorem tag_of_compressed (h : tag :: rest = key.compressed) : tag = 0x02 ∨ tag = 0x03 := by
  rw [(List.cons.inj h).1]
  cases key.y.isOdd with
  | false => exact .inl rfl
  | true => exact .inr rfl

theorem tag_of_uncompressed (h : tag :: rest = key.uncompressed) : tag = 0x04 :=
  (List.cons.inj h).1

theorem hybrid_eq_cons : tag :: rest = key.hybrid ↔
    tag = hybridTag key.y.isOdd ∧ rest = key.x.toBytes ++ key.y.toBytes :=
  List.cons_eq_cons

/-- A hybrid key is as long as an uncompressed one. -/
theorem shape_of_hybrid (h : tag :: rest = key.hybrid) :
    (tag = 0x06 ∨ tag = 0x07) ∧ rest.length = 64 := by
  rcases hybrid_eq_cons.mp h with ⟨rfl, rfl⟩
  refine ⟨?_, key.length_coordinates⟩
  cases key.y.isOdd with
  | false => exact .inl rfl
  | true => exact .inr rfl

-- Behind the byte of the full form there are only the coordinates to be read.
theorem ofBytes_full_eq_ok : ofBytes (0x04 :: rest) = .ok key ↔
    key.toPoint.onCurve = true ∧ rest = key.x.toBytes ++ key.y.toBytes := by
  have hshort : 0x04 :: rest ≠ key.compressed := fun h => by
    rcases tag_of_compressed h with htag | htag
    · exact absurd htag (by decide)
    · exact absurd htag (by decide)
  refine ofBytes_eq_ok.trans (and_congr_right fun _ => ?_)
  rw [or_iff_right hshort]
  exact List.cons_inj_right 0x04

/-- A hybrid form is read where the point is on the curve and its tag tells the parity. -/
theorem ofHybrid?_eq_some : ofHybrid? tag rest = some key ↔
    key.toPoint.onCurve = true ∧ tag :: rest = key.hybrid := by
  rw [hybrid_eq_cons, and_comm (a := tag = _), ← and_assoc, ← ofBytes_full_eq_ok, ofHybrid?]
  rcases ofBytes (0x04 :: rest) with fault | found
  · exact ⟨nofun, nofun⟩
  · rw [Except.ok.injEq, Option.ite_none_right_eq_some, Option.some.injEq]
    constructor
    · rintro ⟨htag, rfl⟩
      exact ⟨rfl, htag⟩
    · rintro ⟨rfl, htag⟩
      exact ⟨htag, rfl⟩

end

/-- A signature check reads a key from each of its three forms, and from nothing else. -/
theorem ofAnyForm?_eq_some : ofAnyForm? bytes = some key ↔ key.toPoint.onCurve = true ∧
    (bytes = key.compressed ∨ bytes = key.uncompressed ∨ bytes = key.hybrid) := by
  rcases bytes with _ | ⟨tag, rest⟩
  · refine ⟨nofun, ?_⟩
    rintro ⟨-, h | h | h⟩
    · exact nomatch h
    · exact nomatch h
    · exact nomatch h
  rw [ofAnyForm?]
  by_cases hshape : (tag = 0x06 ∨ tag = 0x07) ∧ rest.length = 64
  · -- The first byte is that of the third form.
    have hshort : tag :: rest ≠ key.compressed := fun h => by
      rcases tag_of_compressed h with rfl | rfl
      · exact absurd hshape.1 (by decide)
      · exact absurd hshape.1 (by decide)
    have hfull : tag :: rest ≠ key.uncompressed := fun h => by
      cases tag_of_uncompressed h
      exact absurd hshape.1 (by decide)
    rw [if_pos hshape, ofHybrid?_eq_some, or_iff_right hshort, or_iff_right hfull]
  · have hhybrid : tag :: rest ≠ key.hybrid := mt shape_of_hybrid hshape
    rw [if_neg hshape, Result.toOption_eq_some, ofBytes_eq_ok, or_iff_left hhybrid]

theorem ofAnyForm?_compressed (hcurve : key.toPoint.onCurve = true) :
    ofAnyForm? key.compressed = some key :=
  ofAnyForm?_eq_some.mpr ⟨hcurve, .inl rfl⟩

theorem isStandard_compressed (key : PublicKey) : KeyForm.isStandard key.compressed = true :=
  KeyForm.isStandard_cons.mpr (.inl ⟨key.x.length_toBytes, tag_of_compressed rfl⟩)

theorem isStandard_uncompressed (key : PublicKey) :
    KeyForm.isStandard key.uncompressed = true :=
  KeyForm.isStandard_cons.mpr (.inr ⟨key.length_coordinates, rfl⟩)

/-- The first byte of a standard key is not one of those of the third form. -/
theorem head?_of_isStandard (h : KeyForm.isStandard bytes = true) :
    bytes.head? ≠ some 0x06 ∧ bytes.head? ≠ some 0x07 := by
  rcases bytes with _ | ⟨tag, rest⟩
  · exact ⟨nofun, nofun⟩
  · rw [List.head?_cons, Ne, Ne, Option.some.injEq, Option.some.injEq]
    rcases KeyForm.isStandard_cons.mp h with ⟨-, rfl | rfl⟩ | ⟨-, rfl⟩
    · decide
    · decide
    · decide

/-- No hybrid form is standard. -/
theorem ne_hybrid_of_isStandard (h : KeyForm.isStandard bytes = true) : bytes ≠ key.hybrid := by
  rintro rfl
  have hhead := head?_of_isStandard h
  cases hodd : key.y.isOdd with
  | false => exact hhead.1 (by rw [hybrid, hodd]; rfl)
  | true => exact hhead.2 (by rw [hybrid, hodd]; rfl)

/-- What a signature check reads as a key is one of the three forms of that key, which lies
    on the curve, and each of these forms is read. So the check gives the same answer for
    all forms of a key. The rule on standard keys lets through nothing that begins like
    the third form, and of what is read as a key it lets through the other two. -/
theorem forms_exact :
    (∀ (bytes : Bytes) (key : PublicKey), ofAnyForm? bytes = some key ↔
      key.toPoint.onCurve = true ∧
        (bytes = key.compressed ∨ bytes = key.uncompressed ∨ bytes = key.hybrid)) ∧
    (∀ key : PublicKey, key.toPoint.onCurve = true →
      ∀ (tx : Transaction) (sig : Bytes) (code : Script) (index : Nat),
        tx.verifySignature sig key.uncompressed code index
            = tx.verifySignature sig key.compressed code index ∧
          tx.verifySignature sig key.hybrid code index
            = tx.verifySignature sig key.compressed code index) ∧
    ∀ rules : Rules, rules.has .strictEncoding = true →
      (∀ bytes, KeyForm.check rules bytes = .ok () →
        (bytes.head? ≠ some 0x06 ∧ bytes.head? ≠ some 0x07) ∧
          ∀ key : PublicKey, bytes ≠ key.hybrid) ∧
      ∀ (bytes : Bytes) (key : PublicKey),
        KeyForm.check rules bytes = .ok () ∧ ofAnyForm? bytes = some key ↔
          key.toPoint.onCurve = true ∧ (bytes = key.compressed ∨ bytes = key.uncompressed) := by
  refine ⟨fun bytes key => ofAnyForm?_eq_some, fun key hcurve tx sig code index => ?_,
    fun rules hstrict => ⟨fun bytes hcheck => ?_, fun bytes key => ?_⟩⟩
  · -- All three forms are read as one key, and a signature is verified by the key that is read.
    have hshort := ofAnyForm?_compressed hcurve
    have hfull : ofAnyForm? key.uncompressed = some key :=
      ofAnyForm?_eq_some.mpr ⟨hcurve, .inr (.inl rfl)⟩
    have hhybrid : ofAnyForm? key.hybrid = some key :=
      ofAnyForm?_eq_some.mpr ⟨hcurve, .inr (.inr rfl)⟩
    exact ⟨Transaction.verifySignature_congr (hfull.trans hshort.symm),
      Transaction.verifySignature_congr (hhybrid.trans hshort.symm)⟩
  · have hstandard := (KeyForm.check_eq_ok_of_strict hstrict).mp hcheck
    exact ⟨head?_of_isStandard hstandard, fun key => ne_hybrid_of_isStandard hstandard⟩
  · rw [KeyForm.check_eq_ok_of_strict hstrict, ofAnyForm?_eq_some]
    constructor
    · rintro ⟨hstandard, hcurve, hform⟩
      exact ⟨hcurve, hform.imp_right fun h => h.resolve_right (ne_hybrid_of_isStandard hstandard)⟩
    · rintro ⟨hcurve, rfl | rfl⟩
      · exact ⟨key.isStandard_compressed, hcurve, .inl rfl⟩
      · exact ⟨key.isStandard_uncompressed, hcurve, .inr (.inl rfl)⟩

/-- The key opposite to the generator has an odd second coordinate. Its third form is read
    as that key, and kept out by the rule on standard keys. -/
theorem forms_exact_odd :
    let key : PublicKey := ⟨Fin.ofNat _ Curve.generatorX, 0 - Fin.ofNat _ Curve.generatorY⟩
    let rules : Rules := { flags := .strictEncoding }
    key.toPoint.onCurve = true ∧ key.hybrid.head? = some 0x07 ∧ ofAnyForm? key.hybrid = some key ∧
      Transaction.verifySignature {} [0x30, 0x01] key.hybrid .empty 0
        = Transaction.verifySignature {} [0x30, 0x01] key.compressed .empty 0 ∧
      rules.has .strictEncoding = true ∧ KeyForm.check rules key.uncompressed = .ok () ∧
      key.uncompressed ≠ key.hybrid := by
  intro key rules
  have hcurve : key.toPoint.onCurve = true := by decide
  have hstrict : rules.has .strictEncoding = true := by decide
  -- The hybrid form is read, but the rules let the uncompressed one pass only.
  have hform : ofAnyForm? key.hybrid = some key :=
    (forms_exact.1 key.hybrid key).mpr ⟨hcurve, .inr (.inr rfl)⟩
  have hcheck : KeyForm.check rules key.uncompressed = .ok () :=
    (KeyForm.check_eq_ok_of_strict hstrict).mpr key.isStandard_uncompressed
  exact ⟨hcurve, by decide, hform, (forms_exact.2.1 key hcurve {} [0x30, 0x01] .empty 0).2, hstrict,
    hcheck, ((forms_exact.2.2 rules hstrict).1 key.uncompressed hcheck).2 key⟩

end PublicKey

end Bitcoin
