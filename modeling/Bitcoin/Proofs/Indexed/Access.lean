import Bitcoin.Proofs.Ensures
import Mathlib.Algebra.Group.Nat.Defs

/-!
# Accesses That May Be Out of Range

A program that works on positions asks for the element at a position, for the part of a
list between two positions, for the difference of two counts. Each of these may not be
there. Where a computation makes all its accesses in this way, it has one more way to
stop, and that it never does stop so is a property to be proved.

The way to prove it is to go through such a computation side by side with one that takes
lists apart and has no positions in it. Both work on states of their own, of which the
second can be seen in the first. If at every point both do the same, then no access is
out of range, as the second one makes none.

## Main definitions

* `Stop`: Why a computation stops.
* `Access.subtract?`, `Access.multiply?`, `Access.from?`, `Access.slice?`: What may not be
  there.
* `Access.need`: An access in a computation.
* `Access.Agrees`, `Access.Mirrors`: Computations side by side, without a state and with one.
* `Access.Alike`: The same for values that are not equal.

## Theorems

* `Access.Agrees.bind`, `Access.Mirrors.bind`: Sequences.
* `Access.Mirrors.bind_of`: Sequences in which something is known of the value between.
* `Access.Mirrors.read`, `Access.Mirrors.update`: Steps on the state itself.
-/

namespace Bitcoin

/-- Why a computation stops before its end. -/
inductive Stop (ε : Type) where
  /-- It has asked for something that is not there. -/
  | outOfRange
  /-- It has found a fault. -/
  | fault (found : ε)

/-- A stop for the same reason, where a fault is told in another way. -/
def Stop.map {ε ε' : Type} (f : ε → ε') : Stop ε → Stop ε'
  | .outOfRange => .outOfRange
  | .fault found => .fault (f found)

namespace Access

/-- The difference of two counts, if the second is not the larger one. -/
def subtract? (a b : Nat) : Option Nat :=
  if b ≤ a then some (a - b) else none

/-- The product of two words, if it fits into a word. -/
def multiply? (a b : UInt64) : Option Nat :=
  if a.toNat * b.toNat < 2 ^ 64 then some (a.toNat * b.toNat) else none

/-- What stands in a list from a position on, if the list gets so far. -/
def from? {α : Type} (xs : List α) (start : Nat) : Option (List α) :=
  if start ≤ xs.length then some (xs.drop start) else none

/-- What stands in a list between two positions, if the list gets so far. -/
def slice? {α : Type} (xs : List α) (start stop : Nat) : Option (List α) :=
  if start ≤ stop ∧ stop ≤ xs.length then some ((xs.drop start).take (stop - start)) else none

/-- Something that must be there. -/
def need {m : Type → Type} {ε α : Type} [Monad m] [MonadExcept (Stop ε) m] : Option α → m α
  | some a => return a
  | none => throw .outOfRange

theorem subtract?_of_le {a b : Nat} (h : b ≤ a) : subtract? a b = some (a - b) :=
  if_pos h

theorem multiply?_of_lt {a b : UInt64} (h : a.toNat * b.toNat < 2 ^ 64) :
    multiply? a b = some (a.toNat * b.toNat) :=
  if_pos h

theorem from?_of_le {α : Type} {xs : List α} {start : Nat} (h : start ≤ xs.length) :
    from? xs start = some (xs.drop start) :=
  if_pos h

variable {ε α β : Type}

/-- The first computation does what the second one does, so it asks for nothing that is not
    there. -/
def Agrees (x : Except (Stop ε) α) (y : Except ε α) : Prop :=
  x = y.mapError .fault

namespace Agrees

theorem pure (a : α) : Agrees (Pure.pure a : Except (Stop ε) α) (Pure.pure a) :=
  rfl

theorem throw (e : ε) : Agrees (MonadExcept.throw (Stop.fault e) : Except (Stop ε) α)
    (MonadExcept.throw e) :=
  rfl

theorem bind {x : Except (Stop ε) α} {y : Except ε α} {f : α → Except (Stop ε) β}
    {g : α → Except ε β} (hx : Agrees x y) (hf : ∀ a, Agrees (f a) (g a)) :
    Agrees (x >>= f) (y >>= g) := by
  obtain rfl : x = y.mapError .fault := hx
  rcases y with e | a
  · rfl
  · exact hf a

theorem ite {x x' : Except (Stop ε) α} {y y' : Except ε α} {c : Prop} [Decidable c]
    (hx : c → Agrees x y) (hx' : ¬c → Agrees x' y') :
    Agrees (if c then x else x') (if c then y else y') := by
  by_cases h : c
  · rw [if_pos h, if_pos h]
    exact hx h
  · rw [if_neg h, if_neg h]
    exact hx' h

-- What stands behind a refusal is not reached where the refusal is met.
theorem guard {x : Except (Stop ε) α} {y : Except ε α} {k : β → Except (Stop ε) α}
    {k' : β → Except ε α} {c : Prop} [Decidable c] {e : ε} (hx : ¬c → Agrees x y) :
    Agrees (if c then MonadExcept.throw (Stop.fault e) >>= k else x)
      (if c then MonadExcept.throw e >>= k' else y) :=
  .ite (fun _ => rfl) hx

theorem mapError {ε' : Type} {x : Except (Stop ε) α} {y : Except ε α} (hx : Agrees x y)
    (f : ε → ε') : Agrees (x.mapError (Stop.map f)) (y.mapError f) := by
  obtain rfl : x = y.mapError .fault := hx
  rcases y with e | a
  · rfl
  · rfl

/-- An access that finds something. -/
theorem need {f : α → Except (Stop ε) β} {y : Except ε β} {found : Option α} {a : α}
    (h : found = some a) (hf : Agrees (f a) y) : Agrees (Access.need found >>= f) y := by
  rw [h]
  exact hf

end Agrees

/-- Both computations find the same fault, or else they give values that stand in a
    relation. -/
inductive Alike {α β : Type} (R : α → β → Prop) : Except (Stop ε) α → Except ε β → Prop where
  | ok {a : α} {b : β} (related : R a b) : Alike R (.ok a) (.ok b)
  | fault (e : ε) : Alike R (.error (.fault e)) (.error e)

namespace Alike

variable {γ : Type} {R : α → β → Prop}

theorem fault_or_ok {x : Except (Stop ε) α} {y : Except ε β} (h : Alike R x y) :
    (∃ e, x = .error (.fault e) ∧ y = .error e) ∨ ∃ a b, x = .ok a ∧ y = .ok b ∧ R a b := by
  cases h with
  | ok related => exact .inr ⟨_, _, rfl, rfl, related⟩
  | fault e => exact .inl ⟨e, rfl, rfl⟩

theorem bind {x : Except (Stop ε) γ} {y : Except ε γ} {f : γ → Except (Stop ε) α}
    {g : γ → Except ε β} (hx : Agrees x y) (hf : ∀ c, Alike R (f c) (g c)) :
    Alike R (x >>= f) (y >>= g) := by
  obtain rfl : x = y.mapError .fault := hx
  rcases y with e | c
  · exact .fault e
  · exact hf c

theorem guard {x : Except (Stop ε) α} {y : Except ε β} {k : γ → Except (Stop ε) α}
    {k' : γ → Except ε β} {c : Prop} [Decidable c] {e : ε} (hx : ¬c → Alike R x y) :
    Alike R (if c then MonadExcept.throw (Stop.fault e) >>= k else x)
      (if c then MonadExcept.throw e >>= k' else y) := by
  by_cases h : c
  · rw [if_pos h, if_pos h]
    exact .fault e
  · rw [if_neg h, if_neg h]
    exact hx h

theorem need {f : γ → Except (Stop ε) α} {y : Except ε β} {found : Option γ} {c : γ}
    (h : found = some c) (hf : Alike R (f c) y) : Alike R (Access.need found >>= f) y := by
  rw [h]
  exact hf

end Alike

variable {σ τ : Type} {see : σ → τ}

/-- How a computation has ended, as it is seen, if it has not asked for something that is
    not there. -/
def seen (see : σ → τ) : EStateM.Result (Stop ε) σ α → Option (EStateM.Result ε τ α)
  | .ok a s => some (.ok a (see s))
  | .error (.fault e) s => some (.error e (see s))
  | .error .outOfRange _ => none

/-- The first computation does on its states what the second one does on the states that
    are seen in them, so it asks for nothing that is not there. -/
def Mirrors (see : σ → τ) (x : EStateM (Stop ε) σ α) (y : EStateM ε τ α) : Prop :=
  ∀ s, seen see (x s) = some (y (see s))

namespace Mirrors

theorem pure (a : α) : Mirrors see (Pure.pure a : EStateM (Stop ε) σ α) (Pure.pure a) :=
  fun _ => rfl

theorem throw (e : ε) : Mirrors see (MonadExcept.throw (Stop.fault e) : EStateM (Stop ε) σ α)
    (MonadExcept.throw e) :=
  fun _ => rfl

/-- A sequence, where something is known of the value that its first step gives. -/
theorem bind_of {V : α → Prop} {x : EStateM (Stop ε) σ α} {y : EStateM ε τ α}
    {f : α → EStateM (Stop ε) σ β} {g : α → EStateM ε τ β} (hx : Mirrors see x y)
    (hvalue : Steps.Ensures (fun _ => True) x fun a _ => V a)
    (hf : ∀ a, V a → Mirrors see (f a) (g a)) : Mirrors see (x >>= f) (y >>= g) := by
  intro s
  have hfirst := hx s
  -- An access that fails is excluded, so what is left is a value or a fault, and each is the same.
  rcases hresult : x s with ⟨a, between⟩ | ⟨_ | e, between⟩
  · rw [hresult] at hfirst
    rw [Steps.bind_ok hresult, Steps.bind_ok (Option.some.inj hfirst).symm]
    exact hf a (hvalue _ _ _ trivial hresult) between
  · rw [hresult] at hfirst
    cases hfirst
  · rw [hresult] at hfirst
    rw [Steps.bind_error hresult, Steps.bind_error (Option.some.inj hfirst).symm]
    rfl

theorem bind {x : EStateM (Stop ε) σ α} {y : EStateM ε τ α} {f : α → EStateM (Stop ε) σ β}
    {g : α → EStateM ε τ β} (hx : Mirrors see x y) (hf : ∀ a, Mirrors see (f a) (g a)) :
    Mirrors see (x >>= f) (y >>= g) :=
  hx.bind_of (fun _ _ _ _ _ => trivial) fun a _ => hf a

theorem ite {x x' : EStateM (Stop ε) σ α} {y y' : EStateM ε τ α} {c : Prop} [Decidable c]
    (hx : c → Mirrors see x y) (hx' : ¬c → Mirrors see x' y') :
    Mirrors see (if c then x else x') (if c then y else y') := by
  by_cases h : c
  · rw [if_pos h, if_pos h]
    exact hx h
  · rw [if_neg h, if_neg h]
    exact hx' h

theorem guard {x : EStateM (Stop ε) σ α} {y : EStateM ε τ α} {k : β → EStateM (Stop ε) σ α}
    {k' : β → EStateM ε τ α} {c : Prop} [Decidable c] {e : ε} (hx : ¬c → Mirrors see x y) :
    Mirrors see (if c then MonadExcept.throw (Stop.fault e) >>= k else x)
      (if c then MonadExcept.throw e >>= k' else y) :=
  .ite (fun _ _ => rfl) hx

theorem need {f : α → EStateM (Stop ε) σ β} {y : EStateM ε τ β} {found : Option α} {a : α}
    (h : found = some a) (hf : Mirrors see (f a) y) : Mirrors see (Access.need found >>= f) y := by
  rw [h]
  exact hf

theorem found {found : Option α} {a : α} (h : found = some a) :
    Mirrors see (Access.need found : EStateM (Stop ε) σ α) (Pure.pure a) := by
  rw [h]
  exact .pure a

theorem read {f : σ → EStateM (Stop ε) σ α} {g : τ → EStateM ε τ α}
    (hf : ∀ s, Mirrors see (f s) (g (see s))) : Mirrors see (get >>= f) (get >>= g) :=
  fun s => hf s s

theorem update {h : σ → σ} {k : τ → τ} (hsee : ∀ s, see (h s) = k (see s)) :
    Mirrors see (modify h : EStateM (Stop ε) σ Unit) (modify k) :=
  fun s => congrArg (fun t => some (EStateM.Result.ok () t)) (hsee s)

end Mirrors

end Access

end Bitcoin
