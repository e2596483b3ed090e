import Bitcoin.Proofs.Result

/-!
# What Computations Ensure

Of a computation with a state it is often enough to know what holds afterwards, given
what holds before, if it succeeds. Where it fails nothing is claimed. Such knowledge of
the steps of a sequence makes up that of the whole: what one step ensures is what the
next one may rely on.

Most steps are known by an invariant of the state and a property of the value that they
give. The invariant goes into the next step as it is, the property as a fact on the
value.

## Main definitions

* `Steps.Ensures`: What holds after a computation that succeeds.

## Theorems

* `Steps.Ensures.bind`, `Steps.Ensures.next`: Sequences.
* `Steps.Ensures.guard`, `Steps.Ensures.ite`: Refusals and conditions.
* `Steps.Ensures.read`, `Steps.Ensures.update`: Steps on the state itself.
-/

namespace Bitcoin.Steps

/-- Where the first property holds of the state and the computation succeeds, the second
    one holds of its value and of the state that it leaves. -/
def Ensures {ε σ α : Type} (before : σ → Prop) (x : EStateM ε σ α)
    (after : α → σ → Prop) : Prop :=
  ∀ s a s', before s → x s = .ok a s' → after a s'

namespace Ensures

variable {ε σ α β : Type} {P : σ → Prop} {Q : α → σ → Prop} {R : β → σ → Prop}

theorem pure {a : α} (h : ∀ s, P s → Q a s) : Ensures P (Pure.pure a : EStateM ε σ α) Q := by
  intro s b s' hbefore hrun
  cases hrun
  exact h s hbefore

theorem throw (e : ε) : Ensures P (MonadExcept.throw e : EStateM ε σ α) Q :=
  fun _ a _ _ hrun => absurd hrun (throw_ne_ok e a)

/-- What the first computation ensures is what the second one starts from. -/
theorem bind {x : EStateM ε σ α} {f : α → EStateM ε σ β} (hx : Ensures P x Q)
    (hf : ∀ a, Ensures (Q a) (f a) R) : Ensures P (x >>= f) R := by
  intro s b s' hbefore hrun
  rcases bind_eq_ok.mp hrun with ⟨a, between, hfirst, hrest⟩
  exact hf a _ _ _ (hx _ _ _ hbefore hfirst) hrest

/-- A step that keeps an invariant, and what may be known of its value in the next one. -/
theorem next {V : α → Prop} {x : EStateM ε σ α} {f : α → EStateM ε σ β}
    (hx : Ensures P x fun a s => V a ∧ P s) (hf : ∀ a, V a → Ensures P (f a) R) :
    Ensures P (x >>= f) R :=
  hx.bind fun a _ _ _ hbefore hrun => hf a hbefore.1 _ _ _ hbefore.2 hrun

/-- Both branches ensure the same. -/
theorem ite {x y : EStateM ε σ α} {c : Prop} [Decidable c] (hx : Ensures P x Q)
    (hy : Ensures P y Q) : Ensures P (if c then x else y) Q := by
  by_cases hc : c
  · rw [if_pos hc]
    exact hx
  · rw [if_neg hc]
    exact hy

-- Whatever goes on behind a refusal goes on because it was not met.
theorem guard {x : EStateM ε σ α} {k : β → EStateM ε σ α} {c : Prop} [Decidable c] {e : ε}
    (hx : ¬c → Ensures P x Q) : Ensures P (if c then MonadExcept.throw e >>= k else x) Q := by
  intro s a s' hbefore hrun
  rcases guard_eq_ok.mp hrun with ⟨hc, hrest⟩
  exact hx hc _ _ _ hbefore hrest

/-- The state that is read is one that satisfies the condition. -/
theorem read {f : σ → EStateM ε σ α} (hf : ∀ s, P s → Ensures P (f s) Q) :
    Ensures P (get >>= f) Q :=
  fun s _ _ hbefore hrun => hf s hbefore _ _ _ hbefore hrun

theorem update {g : σ → σ} {after : Unit → σ → Prop} (h : ∀ s, P s → after () (g s)) :
    Ensures P (modify g : EStateM ε σ Unit) after := by
  intro s _ s' hbefore hrun
  cases hrun
  exact h s hbefore

/-- More may be known before. -/
theorem strengthen {P' : σ → Prop} {x : EStateM ε σ α} (h : ∀ s, P' s → P s)
    (hx : Ensures P x Q) : Ensures P' x Q :=
  fun _ _ _ hbefore hrun => hx _ _ _ (h _ hbefore) hrun

/-- Less may be wanted afterwards. -/
theorem weaken {Q' : α → σ → Prop} {x : EStateM ε σ α} (hx : Ensures P x Q)
    (h : ∀ a s, Q a s → Q' a s) : Ensures P x Q' :=
  fun _ _ _ hbefore hrun => h _ _ (hx _ _ _ hbefore hrun)

end Ensures

end Bitcoin.Steps
