import Bitcoin.Hash
import Bitcoin.Curve.Params

/-!
# Deterministic Nonces

A nonce is drawn from a generator that is seeded with the secret and the digest,
so that the same two always give the same signature and no random source is
needed. The generator is a pair of digests. Seeding and drawing are chains of
keyed digests as RFC 6979 lays them down, and a drawn number counts only if it
is a scalar; otherwise the next one is drawn.

The first attempt at a signature seeds with nothing else. A later one adds its
number, four bytes, so that it draws from a sequence of its own.

A drawn number misses the range about once in 2¹²⁸ draws. The search stops after
a fixed number of draws and then gives zero, which is no scalar and which a
signer discards like any other unusable nonce.

## Main definitions

* `Nonce.Generator`: The state of the generator.
* `Nonce.derive`: The nonce of an attempt.
-/

namespace Bitcoin.Nonce

/-- The state of the generator: a key and the last value. -/
structure Generator where
  key : Bytes
  value : Bytes

namespace Generator

/-- Mixes a marker and a seed into the state. -/
def mix (g : Generator) (marker : UInt8) (seed : Bytes) : Generator :=
  let key := (Hash.hmacSha256 g.key (g.value ++ marker :: seed)).bytes
  ⟨key, (Hash.hmacSha256 key g.value).bytes⟩

/-- The generator for a seed. -/
def ofSeed (seed : Bytes) : Generator :=
  ((Generator.mk (List.replicate 32 0) (List.replicate 32 1)).mix 0 seed).mix 1 seed

/-- The next thirty-two bytes as a number, and the state behind them. -/
def draw (g : Generator) : Nat × Generator :=
  let value := (Hash.hmacSha256 g.key g.value).bytes
  (value.toNatBE, (Generator.mk g.key value).mix 0 [])

end Generator

/-- The first number among the next `draws` that is a scalar, or zero. -/
def firstScalar : Nat → Generator → Nat
  | 0, _ => 0
  | draws + 1, g =>
    let (k, g) := g.draw
    if 0 < k ∧ k < Curve.order then k else firstScalar draws g

/-- How many numbers are drawn for one nonce. -/
def maxDraws : Nat := 0x100000000

/-- The nonce of an attempt at a signature. The digest enters reduced modulo the
    group order. -/
def derive (secret : Nat) (digest : Hash256) (attempt : Nat) : Nat :=
  let seed := Bytes.fixedBE 32 secret ++ Bytes.fixedBE 32 (digest.toNatBE % Curve.order)
  let counter := if attempt = 0 then [] else Bytes.fixedBE 4 attempt
  firstScalar maxDraws (.ofSeed (seed ++ counter))

end Bitcoin.Nonce
