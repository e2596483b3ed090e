import Bitcoin.Curve.Params
import Bitcoin.Proofs.Modular
import Mathlib.Tactic.NormNum.Prime

/-!
# The Two Primes of the Curve

Both the modulus of the coordinates and the order of the group are prime. The
first fact makes the coordinates a field, the second makes every scalar other
than zero invertible, and neither the group law nor a signature makes sense
without them.

Each prime is tested with one or two large prime factors of its predecessor.
These are tested in the same way, down to numbers that trial division settles.
Two is a base that works throughout.

## Theorems

* `Curve.fieldPrime_prime`: The modulus of the coordinates is prime.
* `Curve.order_prime`: The order of the group is prime.
-/

namespace Bitcoin

namespace Curve

/-- The large prime factor of the predecessor of `fieldPrime`. -/
theorem prime_factor_fieldPrime :
    Nat.Prime 205115282021455665897114700593932402728804164701536103180137503955397371 := by
  have h : Nat.Prime 255515944373312847190720520512484175977 :=
    Modular.prime_of_test 2 [96557, 41201, 4423, 2657, 1627] (by norm_num) (by decide +kernel)
  exact Modular.prime_of_test 2 [255515944373312847190720520512484175977]
    (List.forall_mem_singleton.mpr h) (by decide +kernel)

/-- The modulus of the coordinates is prime. -/
theorem fieldPrime_prime : fieldPrime.Prime :=
  Modular.prime_of_test 2
    [205115282021455665897114700593932402728804164701536103180137503955397371]
    (List.forall_mem_singleton.mpr prime_factor_fieldPrime) (by decide +kernel)

/-- The largest prime factor of the predecessor of `order`. -/
theorem prime_factor_order : Nat.Prime 341948486974166000522343609283189 := by
  have h1 : Nat.Prime 297159362677 :=
    Modular.prime_of_test 2 [1627771] (by norm_num) (by decide +kernel)
  have h2 : Nat.Prime 29047611873442575647497758179 :=
    Modular.prime_of_test 2 [297159362677, 305873]
      (List.forall_mem_cons.mpr ⟨h1, by norm_num⟩) (by decide +kernel)
  exact Modular.prime_of_test 2 [29047611873442575647497758179]
    (List.forall_mem_singleton.mpr h2) (by decide +kernel)

/-- The second largest prime factor of the predecessor of `order`. -/
theorem prime_second_factor_order : Nat.Prime 174723607534414371449 :=
  Modular.prime_of_test 2 [120233, 4051, 59] (by norm_num) (by decide +kernel)

/-- The order of the group is prime. -/
theorem order_prime : order.Prime :=
  Modular.prime_of_test 2 [341948486974166000522343609283189, 174723607534414371449]
    (List.forall_mem_cons.mpr
      ⟨prime_factor_order, List.forall_mem_singleton.mpr prime_second_factor_order⟩)
    (by decide +kernel)

/-- Residues of coordinates form a field. -/
instance fact_fieldPrime : Fact fieldPrime.Prime := ⟨fieldPrime_prime⟩

/-- Residues of scalars form a field. -/
instance fact_order : Fact order.Prime := ⟨order_prime⟩

end Curve

end Bitcoin
