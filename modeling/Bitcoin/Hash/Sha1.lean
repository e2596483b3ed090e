import Bitcoin.Hash.Padding

/-!
# SHA-1

Reached by one script opcode alone. The frame is that of its successor with a
state of five words and eighty rounds in four phases of twenty, each phase with
a Boolean function and a constant of its own.

## Main definitions

* `Hash.sha1`: The digest of a message.
* `Hash.Sha1.compress`: One block folded into the state.
-/

namespace Bitcoin.Hash.Sha1

/-- The five words carried from block to block. -/
structure State where
  a : UInt32
  b : UInt32
  c : UInt32
  d : UInt32
  e : UInt32

/-- The state before the first block. -/
def initial : State :=
  ⟨0x67452301, 0xefcdab89, 0x98badcfe, 0x10325476, 0xc3d2e1f0⟩

/-- The schedule with `count` more words, newest word first. -/
def stretch : Nat → List UInt32 → List UInt32
  | 0, newest => newest
  | count + 1, newest =>
    let x := newest.getD 2 0 ^^^ newest.getD 7 0 ^^^ newest.getD 13 0 ^^^ newest.getD 15 0
    stretch count (rotateLeft x 1 :: newest)

/-- What a phase mixes into its rounds: a Boolean function of three words and a
    constant. -/
structure Phase where
  mix : UInt32 → UInt32 → UInt32 → UInt32
  constant : UInt32

/-- The bits of the second word where the first has ones, of the third elsewhere. -/
def choice (x y z : UInt32) : UInt32 := (x &&& y) ||| (~~~x &&& z)

/-- The bits in which an odd number of words have ones. -/
def parity (x y z : UInt32) : UInt32 := x ^^^ y ^^^ z

/-- The bits in which two words or more have ones. -/
def majority (x y z : UInt32) : UInt32 := (x &&& y) ||| (x &&& z) ||| (y &&& z)

/-- The four phases, twenty rounds each. -/
def phases : List Phase :=
  [⟨choice, 0x5a827999⟩, ⟨parity, 0x6ed9eba1⟩, ⟨majority, 0x8f1bbcdc⟩, ⟨parity, 0xca62c1d6⟩]

/-- One round, driven by its phase and a word of the schedule. -/
def round (s : State) (phase : Phase) (word : UInt32) : State :=
  let mixed := phase.mix s.b s.c s.d
  ⟨rotateLeft s.a 5 + mixed + s.e + phase.constant + word, s.a, rotateLeft s.b 30, s.c, s.d⟩

/-- One block of sixteen words folded into the state. -/
def compress (s : State) (block : List UInt32) : State :=
  let schedule := (stretch 64 block.reverse).reverse
  let rounds := phases.flatMap (List.replicate 20)
  let t := (rounds.zip schedule).foldl (fun t (phase, w) => round t phase w) s
  ⟨s.a + t.a, s.b + t.b, s.c + t.c, s.d + t.d, s.e + t.e⟩

/-- The words of a state, in order. -/
def State.words (s : State) : List UInt32 :=
  [s.a, s.b, s.c, s.d, s.e]

end Sha1

/-- The SHA-1 digest of a message. -/
def sha1 (message : Bytes) : ByteVec 20 :=
  let state := (blocks .big message).foldl Sha1.compress Sha1.initial
  ⟨state.words.flatMap fun w => Bytes.fixedBE 4 w.toNat, by simp [Sha1.State.words]⟩

end Bitcoin.Hash
