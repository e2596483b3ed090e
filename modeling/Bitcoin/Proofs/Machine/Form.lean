import Bitcoin.Machine.SignatureForm
import Bitcoin.Proofs.Result

/-!
# What the Rules on Forms Let Through

Operands, signatures and keys are held to forms by rules that may or may not be in
force. For each of them it is stated here what has been checked of one that is
let through, with the rules as conditions.

## Theorems

* `NumberRule.read_eq_ok`: An element that is read as a number.
* `SignatureForm.checkDer_eq_ok`, `SignatureForm.check_eq_ok`: A signature that is let
  through.
* `KeyForm.check_eq_ok`: A key that is let through.
-/

namespace Bitcoin

variable {rules : Rules}

/-- An element that is read as a number. -/
theorem NumberRule.read_eq_ok {rule : NumberRule} {element : Bytes} {n : Int} :
    rule.read element = .ok n ↔ ¬rule.maxLength < element.length ∧
      ¬(rule.minimal = true ∧ ¬Number.isMinimal element = true) ∧ Number.decode element = n := by
  refine Result.refuse_eq_ok.trans (and_congr_right fun _ => ?_)
  refine Result.refuse_eq_ok.trans (and_congr_right fun _ => ?_)
  exact ⟨Except.ok.inj, congrArg Except.ok⟩

namespace SignatureForm

/-- The bytes before the hash type. Any of three rules asks for their shape, and one of
    the three looks at the second integer too. -/
theorem checkDer_eq_ok {der : Bytes} :
    checkDer rules der = .ok () ↔
      (rules.flags.hasAny [.strictDer, .lowS, .strictEncoding] = true →
        ∃ s, shape der = .ok s ∧
          ¬(rules.has .lowS = true ∧ Curve.halfOrder < Bytes.toNatBE s)) := by
  rw [checkDer]
  -- Any of three rules lets the shape be checked, and one of them asks for more.
  by_cases hany : rules.flags.hasAny [.strictDer, .lowS, .strictEncoding] = true
  · rw [if_pos hany, Result.bind_eq_ok]
    constructor
    · rintro ⟨s, hs, hlow⟩ _
      exact ⟨s, Result.mapError_eq_ok.mp hs, (Result.refuse_eq_ok.mp hlow).1⟩
    · intro h
      rcases h hany with ⟨s, hs, hlow⟩
      exact ⟨s, Result.mapError_eq_ok.mpr hs, Result.refuse_eq_ok.mpr ⟨hlow, rfl⟩⟩
  · rw [if_neg hany]
    exact ⟨fun _ h => absurd h hany, fun _ => rfl⟩

/-- A signature that is let through. An empty one always is. -/
theorem check_eq_ok {sig : Bytes} :
    check rules sig = .ok () ↔ ∀ hashType, sig.getLast? = some hashType →
      checkDer rules sig.dropLast = .ok () ∧
      ¬(rules.has .strictEncoding = true ∧ ¬isKnown hashType = true) := by
  rw [check]
  rcases sig.getLast? with _ | hashType
  · -- The empty signature passes every check.
    exact ⟨nofun, fun _ => rfl⟩
  · refine (Result.check_eq_ok.trans (and_congr_right fun _ =>
      Result.refuse_eq_ok.trans (and_iff_left rfl))).trans ?_
    constructor
    · intro h other hother
      rw [← Option.some.inj hother]
      exact h
    · intro h
      exact h hashType rfl

end SignatureForm

/-- A key that is let through. -/
theorem KeyForm.check_eq_ok {key : Bytes} :
    check rules key = .ok () ↔ ¬(rules.has .strictEncoding = true ∧ ¬isStandard key = true) :=
  Result.refuse_eq_ok.trans (and_iff_left rfl)

end Bitcoin
