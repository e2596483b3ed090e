/-!
# Results and Computations Taken Apart

Parsers and checks give results that may be errors. One that is built from several
parts is no error only if none of its parts is, and a value is then at hand for
each of them. Computations with a state are sequences in the same way, where the
state that one step leaves is the one in which the next begins.

## Theorems

* `Result.bind_eq_ok`, `Result.check_eq_ok`: A sequence of two parts.
* `Result.guard_eq_ok`, `Result.refuse_eq_ok`: A refusal in front of a part, and one
  at the end.
* `Result.bind_eq_error`, `Result.guard_eq_error`, `Result.refuse_eq_error`: The part that an
  error comes from.
* `Result.mapError_eq_ok`, `Result.toOption_eq_some`: A change of the error, and its loss.
* `Steps.bind_ok`, `Steps.bind_error`: A sequence whose first step is known.
* `Steps.bind_eq_ok`, `Steps.bind_eq_error`: The two steps of a sequence that succeeds, and the
  one with which a sequence fails.
* `Steps.throw_ne_ok`, `Steps.guard_eq_ok`, `Steps.refuse_eq_ok`: Refusals with a state.
-/

namespace Bitcoin

namespace Result

variable {ε α β : Type}

/-- A sequence is no error if both its parts are none. -/
theorem bind_eq_ok {x : Except ε α} {f : α → Except ε β} {b : β} :
    x >>= f = .ok b ↔ ∃ a, x = .ok a ∧ f a = .ok b := by
  rcases x with e | a
  · exact ⟨nofun, nofun⟩
  · refine ⟨fun h => ⟨a, rfl, h⟩, ?_⟩
    rintro ⟨_, hfirst, hrest⟩
    rw [← Except.ok.inj hfirst] at hrest
    exact hrest

-- The same where the first part is a check, which has no value to speak of.
theorem check_eq_ok {x : Except ε Unit} {f : Unit → Except ε β} {b : β} :
    x >>= f = .ok b ↔ x = .ok () ∧ f () = .ok b := by
  rw [bind_eq_ok]
  exact ⟨fun ⟨(), h⟩ => h, fun h => ⟨(), h⟩⟩

/-- What comes after a refusal is no error if the refusal is not met and it is none
    itself. -/
theorem guard_eq_ok {c : Prop} [Decidable c] {e : ε} {k : α → Except ε β} {x : Except ε β}
    {b : β} : (if c then throw e >>= k else x) = .ok b ↔ ¬c ∧ x = .ok b := by
  by_cases hc : c
  · rw [if_pos hc]
    exact ⟨nofun, fun h => absurd hc h.1⟩
  · rw [if_neg hc]
    exact ⟨fun h => ⟨hc, h⟩, fun h => h.2⟩

-- A refusal at the end has nothing behind it that could be skipped.
theorem refuse_eq_ok {c : Prop} [Decidable c] {e : ε} {x : Except ε β} {b : β} :
    (if c then throw e else x) = .ok b ↔ ¬c ∧ x = .ok b := by
  by_cases hc : c
  · rw [if_pos hc]
    exact ⟨nofun, fun h => absurd hc h.1⟩
  · rw [if_neg hc]
    exact ⟨fun h => ⟨hc, h⟩, fun h => h.2⟩

/-- The error of a sequence is that of its first part, or that of the second one behind a
    value. -/
theorem bind_eq_error {x : Except ε α} {f : α → Except ε β} {e : ε} :
    x >>= f = .error e ↔ x = .error e ∨ ∃ a, x = .ok a ∧ f a = .error e := by
  rcases x with e' | a
  · constructor
    · intro h
      cases h
      exact .inl rfl
    · rintro (h | ⟨_, h, _⟩)
      · cases h
        rfl
      · cases h
  · constructor
    · exact fun h => .inr ⟨a, rfl, h⟩
    · rintro (h | ⟨_, ha, h⟩)
      · cases h
      · cases ha
        exact h

/-- A guarded computation fails with the guard's error, or with its own behind it. -/
theorem guard_eq_error {c : Prop} [Decidable c] {e e' : ε} {k : α → Except ε β}
    {x : Except ε β} :
    (if c then throw e >>= k else x) = .error e' ↔ c ∧ e = e' ∨ ¬c ∧ x = .error e' := by
  by_cases hc : c
  · rw [if_pos hc]
    constructor
    · exact fun h => .inl ⟨hc, Except.error.inj h⟩
    · rintro (⟨_, rfl⟩ | ⟨hnot, _⟩)
      · rfl
      · exact absurd hc hnot
  · rw [if_neg hc]
    constructor
    · exact fun h => .inr ⟨hc, h⟩
    · rintro (⟨hyes, _⟩ | ⟨_, h⟩)
      · exact absurd hyes hc
      · exact h

-- The refusal at the end is the one in front of a part that gives back what it is given.
theorem refuse_eq_error {c : Prop} [Decidable c] {e e' : ε} {x : Except ε β} :
    (if c then throw e else x) = .error e' ↔ c ∧ e = e' ∨ ¬c ∧ x = .error e' :=
  guard_eq_error (k := (.ok · : β → Except ε β))

-- Errors may be dressed up on the way, values are not.
theorem mapError_eq_ok {ε' : Type} {f : ε → ε'} {x : Except ε β} {b : β} :
    x.mapError f = .ok b ↔ x = .ok b := by
  rcases x with e | found
  · exact ⟨nofun, nofun⟩
  · exact ⟨fun h => congrArg Except.ok (Except.ok.inj h),
      fun h => congrArg Except.ok (Except.ok.inj h)⟩

theorem toOption_eq_some {x : Except ε β} {b : β} : x.toOption = some b ↔ x = .ok b := by
  rcases x with e | found
  · exact ⟨nofun, nofun⟩
  · exact ⟨fun h => congrArg Except.ok (Option.some.inj h),
      fun h => congrArg some (Except.ok.inj h)⟩

end Result

namespace Steps

variable {ε σ α β : Type} {s s' : σ}

/-- After a step that succeeds comes the rest. -/
theorem bind_ok {x : EStateM ε σ α} {f : α → EStateM ε σ β} {a : α}
    (h : x s = .ok a s') : (x >>= f) s = f a s' := by
  simp only [bind, EStateM.bind, h]

/-- After a step that fails comes nothing. -/
theorem bind_error {x : EStateM ε σ α} {f : α → EStateM ε σ β} {e : ε}
    (h : x s = .error e s') : (x >>= f) s = .error e s' := by
  simp only [bind, EStateM.bind, h]

theorem throw_ne_ok (e : ε) (a : α) : (throw e : EStateM ε σ α) s ≠ .ok a s' :=
  nofun

/-- A sequence succeeds if both its steps do. -/
theorem bind_eq_ok {x : EStateM ε σ α} {f : α → EStateM ε σ β} {b : β} :
    (x >>= f) s = .ok b s' ↔ ∃ a between, x s = .ok a between ∧ f a between = .ok b s' := by
  rcases hx : x s with ⟨a, between⟩ | ⟨e, between⟩
  · rw [bind_ok hx]
    refine ⟨fun h => ⟨a, between, rfl, h⟩, ?_⟩
    rintro ⟨_, _, hfirst, hrest⟩
    cases hfirst
    exact hrest
  · rw [bind_error hx]
    refine ⟨fun h => absurd h (by simp only [reduceCtorEq, not_false_eq_true]), ?_⟩
    rintro ⟨_, _, hfirst, _⟩
    exact absurd hfirst (by simp only [reduceCtorEq, not_false_eq_true])

/-- A sequence fails with its first step, or with the second one after that. -/
theorem bind_eq_error {x : EStateM ε σ α} {f : α → EStateM ε σ β} {e : ε} :
    (x >>= f) s = .error e s' ↔
      x s = .error e s' ∨ ∃ a between, x s = .ok a between ∧ f a between = .error e s' := by
  -- A failure of the first part is one of the whole, so the cases are those of its outcome.
  rcases hx : x s with ⟨a, between⟩ | ⟨e', between⟩
  · rw [bind_ok hx]
    refine ⟨fun h => .inr ⟨a, between, rfl, h⟩, ?_⟩
    rintro (hfirst | ⟨_, _, hfirst, hrest⟩)
    · cases hfirst
    · cases hfirst
      exact hrest
  · rw [bind_error hx]
    constructor
    · intro h
      cases h
      exact .inl rfl
    · rintro (hfirst | ⟨_, _, hfirst, _⟩)
      · cases hfirst
        rfl
      · cases hfirst

-- The two refusals again, for computations with a state.
theorem guard_eq_ok {c : Prop} [Decidable c] {e : ε} {k : α → EStateM ε σ β}
    {x : EStateM ε σ β} {b : β} :
    (if c then throw e >>= k else x) s = .ok b s' ↔ ¬c ∧ x s = .ok b s' := by
  by_cases hc : c
  · rw [if_pos hc]
    refine ⟨fun h => ?_, fun h => absurd hc h.1⟩
    rcases bind_eq_ok.mp h with ⟨a, between, hthrow, _⟩
    exact absurd hthrow (throw_ne_ok e a)
  · rw [if_neg hc]
    exact ⟨fun h => ⟨hc, h⟩, fun h => h.2⟩

theorem refuse_eq_ok {c : Prop} [Decidable c] {e : ε} {x : EStateM ε σ β} {b : β} :
    (if c then throw e else x) s = .ok b s' ↔ ¬c ∧ x s = .ok b s' := by
  by_cases hc : c
  · rw [if_pos hc]
    exact ⟨fun h => absurd h (throw_ne_ok e b), fun h => absurd hc h.1⟩
  · rw [if_neg hc]
    exact ⟨fun h => ⟨hc, h⟩, fun h => h.2⟩

end Steps

end Bitcoin
