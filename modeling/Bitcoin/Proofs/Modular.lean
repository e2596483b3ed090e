import Bitcoin.Modular
import Bitcoin.Proofs.Result
import Mathlib.FieldTheory.Finite.Basic

/-!
# Powers and Primes

Repeated squaring computes the power that it is meant to compute. Read in the
ring of residues this is what turns the inverses of the curve code, which are
powers with the exponent `p - 2`, into inverses of a field.

That the two moduli of the curve are prime is checked with such powers too. A
number `n` is prime as soon as enough of `n - 1` is factored: if some `a` has
`a ^ (n - 1) = 1` modulo `n`, and `a ^ ((n - 1) / q) - 1` is coprime to `n` for
each prime `q` of the factored part `f`, then modulo any prime divisor of `n`
the order of `a ^ ((n - 1) / f)` is `f`, so that divisor exceeds `f`. Once `f * f`
exceeds `n` there is room for one prime divisor only.

The condition is a computation on numbers, so it is stated as a Boolean test,
and the primes of the factored part are certified before it.

## Main definitions

* `Modular.testPrime`: The test of a number, given part of its predecessor.

## Theorems

* `Modular.powMod_eq`: Repeated squaring computes a power.
* `Modular.power_natCast`: The power of an integer of any size and sign.
* `Modular.cast_powMod`: The same in the ring of residues.
* `Modular.cast_powMod_inv`: The power with exponent `p - 2` is the inverse.
* `Modular.lt_of_prime_dvd`: The prime divisors of a tested number are large.
* `Modular.prime_of_test`: A number that passes the test is prime.
-/

namespace Bitcoin

namespace Modular

/-- Repeated squaring computes the power it stands for. -/
theorem powMod_eq (base exponent m : Nat) : powMod base exponent m = base ^ exponent % m := by
  fun_induction powMod base exponent m with
  | case1 => rw [Nat.pow_zero]
  | case2 base exponent _ square hodd ih =>
      have hsquare : square = base ^ (2 * (exponent / 2)) % m := by
        rw [show square = _ from ih, ← Nat.pow_mod, Nat.pow_mul, Nat.pow_two]
      rw [hsquare, Nat.mul_mod_mod, ← Nat.pow_succ', Nat.succ_eq_add_one,
        show 2 * (exponent / 2) + 1 = exponent by omega]
  | case3 base exponent _ square heven ih =>
      rw [show square = _ from ih, ← Nat.pow_mod, ← Nat.pow_two, ← Nat.pow_mul,
        show 2 * (exponent / 2) = exponent by omega]

theorem modulus_of_pos {m : Nat} (hm : 0 < m) : modulus m = .ok m := by
  rw [modulus, if_neg (by omega), if_neg (by omega), Int.toNat_natCast]
  rfl

/-- For a modulus and an exponent that are let through, the power of an integer is that of
    its remainder. -/
theorem power_natCast {m : Nat} (hm : 0 < m) (a : Int) (exponent : Nat) :
    power a exponent m = .ok (powMod (a % m).toNat exponent m) := by
  have hexponent : ¬(exponent : Int) < 0 := Int.not_lt.mpr (Int.natCast_nonneg exponent)
  rw [power, modulus_of_pos hm]
  exact Result.bind_eq_ok.mpr ⟨m, rfl, Result.guard_eq_ok.mpr ⟨hexponent, rfl⟩⟩

/-- Repeated squaring computes the power of a residue. -/
theorem cast_powMod (base exponent m : Nat) :
    ((powMod base exponent m : Nat) : ZMod m) = (base : ZMod m) ^ exponent := by
  rw [powMod_eq, ZMod.natCast_mod, Nat.cast_pow]

/-- The power with exponent `p - 2` is the inverse, with zero for zero. -/
theorem cast_powMod_inv (base p : Nat) [hp : Fact p.Prime] (h2 : 2 < p) :
    ((powMod base (p - 2) p : Nat) : ZMod p) = (base : ZMod p)⁻¹ := by
  rw [cast_powMod]
  rcases eq_or_ne (base : ZMod p) 0 with hzero | hne
  · rw [hzero, zero_pow (by omega), inv_zero]
  · -- One more factor makes the exponent of the little theorem.
    have hsplit : (base : ZMod p) ^ (p - 2) * base = (base : ZMod p) ^ (p - 1) := by
      rw [← pow_succ]
      congr 1
      omega
    rw [ZMod.pow_card_sub_one_eq_one hne] at hsplit
    exact eq_inv_of_mul_eq_one_left hsplit

/-- Tests a number `n` with the base `a`, given prime factors of `n - 1` whose product
    squared exceeds `n`. -/
def testPrime (n a : Nat) (factors : List Nat) : Bool :=
  1 < n && n < factors.prod * factors.prod && (n - 1) % factors.prod == 0 &&
    powMod a (n - 1) n == 1 &&
    factors.all fun q => (powMod a ((n - 1) / q) n + (n - 1)).gcd n == 1

/-- A power that is one modulo a divisor of `n` spoils the test. -/
theorem cast_pow_ne_one {n a e r : Nat} [Fact r.Prime] (hn : 0 < n) (hdvd : r ∣ n)
    (hgcd : (powMod a e n + (n - 1)).gcd n = 1) : ((a : ZMod r)) ^ e ≠ 1 := by
  intro hone
  -- Modulo the divisor the power is one, so it is a common divisor that should not be there.
  have hpow : ((powMod a e n : Nat) : ZMod r) = 1 := by
    rw [powMod_eq, ← hone, ← Nat.cast_pow, ZMod.natCast_eq_natCast_iff']
    exact Nat.mod_mod_of_dvd _ hdvd
  have hzero : ((powMod a e n + (n - 1) : Nat) : ZMod r) = 0 := by
    rw [Nat.cast_add, hpow, Nat.cast_sub hn, (ZMod.natCast_eq_zero_iff n r).mpr hdvd]
    ring
  have hcommon : r ∣ (powMod a e n + (n - 1)).gcd n :=
    Nat.dvd_gcd ((ZMod.natCast_eq_zero_iff _ _).mp hzero) hdvd
  rw [hgcd, Nat.dvd_one] at hcommon
  exact (Fact.out : r.Prime).one_lt.ne' hcommon

/-- Modulo a prime divisor of a tested number, the factored part is the order of some
    residue, so the divisor is larger. -/
theorem lt_of_prime_dvd {n a r : Nat} {factors : List Nat} (hfactors : ∀ q ∈ factors, q.Prime)
    (hprod : factors.prod ∣ n - 1) (hn : 1 < n) (hpow : powMod a (n - 1) n = 1)
    (hgcd : ∀ q ∈ factors, (powMod a ((n - 1) / q) n + (n - 1)).gcd n = 1)
    (hr : r.Prime) (hdvd : r ∣ n) : factors.prod < r := by
  have : Fact r.Prime := ⟨hr⟩
  rcases hprod with ⟨c, hc⟩
  have hpos : 0 < factors.prod := Nat.pos_of_ne_zero fun h => by rw [h, Nat.zero_mul] at hc; omega
  have hone : ((a : ZMod r)) ^ (n - 1) = 1 := by
    have hmod : a ^ (n - 1) % n = 1 % n := by
      rw [← powMod_eq, hpow, Nat.mod_eq_of_lt hn]
    rw [← Nat.cast_pow, ← Nat.cast_one (R := ZMod r), ZMod.natCast_eq_natCast_iff']
    exact Nat.ModEq.of_dvd hdvd hmod
  have hne : (a : ZMod r) ^ c ≠ 0 := by
    intro hzero
    rw [hc, Nat.mul_comm, pow_mul, hzero, zero_pow hpos.ne'] at hone
    exact zero_ne_one hone
  have horder : orderOf ((a : ZMod r) ^ c) = factors.prod := by
    refine orderOf_eq_of_pow_and_pow_div_prime hpos ?_ ?_
    · rw [← pow_mul, Nat.mul_comm, ← hc, hone]
    · intro q hq hqdvd
      -- A prime divisor of the product is one of the given factors.
      rcases (Prime.dvd_prod_iff hq.prime).mp hqdvd with ⟨q', hmem, hdvd'⟩
      have hqq : q = q' := (Nat.prime_dvd_prime_iff_eq hq (hfactors q' hmem)).mp hdvd'
      rcases hqdvd with ⟨d, hd⟩
      rw [← pow_mul, show c * (factors.prod / q) = (n - 1) / q by
        rw [hc, hd, Nat.mul_div_cancel_left d hq.pos, Nat.mul_assoc,
          Nat.mul_div_cancel_left _ hq.pos, Nat.mul_comm]]
      exact cast_pow_ne_one (by omega) hdvd (hgcd q (hqq ▸ hmem))
  have hle : factors.prod ∣ r - 1 := horder ▸ ZMod.orderOf_dvd_card_sub_one hne
  have := Nat.le_of_dvd (by have := hr.one_lt; omega) hle
  have := hr.one_lt
  omega

/-- A number that passes the test is prime. -/
theorem prime_of_test {n : Nat} (a : Nat) (factors : List Nat)
    (hfactors : ∀ q ∈ factors, q.Prime) (h : testPrime n a factors = true) : n.Prime := by
  simp only [testPrime, Bool.and_eq_true, decide_eq_true_eq, beq_iff_eq, List.all_eq_true] at h
  rcases h with ⟨⟨⟨⟨hn, hlarge⟩, hprod⟩, hpow⟩, hgcd⟩
  by_contra hcomposite
  -- The least prime divisor would be at most the root, and is larger than that.
  have hmin := lt_of_prime_dvd hfactors (Nat.dvd_of_mod_eq_zero hprod) hn hpow hgcd
    (Nat.minFac_prime hn.ne') (Nat.minFac_dvd n)
  have hsq := Nat.minFac_sq_le_self (by omega) hcomposite
  have hmul := Nat.mul_lt_mul'' hmin hmin
  rw [Nat.pow_two] at hsq
  omega

end Modular

end Bitcoin
