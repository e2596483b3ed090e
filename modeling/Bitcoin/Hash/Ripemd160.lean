import Bitcoin.Hash.Padding

/-!
# RIPEMD-160

The outer digest of key and script hashes. Words are little-endian here. Two
lines of eighty rounds run side by side over the same block, each reading the
words in an order of its own and rotating by amounts of its own, in five phases
of sixteen rounds; the second line takes the Boolean functions in the opposite
order. Both results are then added crosswise to the old state.

## Main definitions

* `Hash.ripemd160`: The digest of a message.
* `Hash.Ripemd160.compress`: One block folded into the state.
-/

namespace Bitcoin.Hash.Ripemd160

/-- The five words carried from block to block. -/
structure State where
  a : UInt32
  b : UInt32
  c : UInt32
  d : UInt32
  e : UInt32

/-- The state before the first block. -/
def initial : State :=
  ⟨0x67452301, 0xefcdab89, 0x98badcfe, 0x10325476, 0xc3d2e1f0⟩

/-- The Boolean functions of the five phases, in the order of the first line. -/
def mixes : List (UInt32 → UInt32 → UInt32 → UInt32) :=
  [fun x y z => x ^^^ y ^^^ z,
    fun x y z => (x &&& y) ||| (~~~x &&& z),
    fun x y z => (x ||| ~~~y) ^^^ z,
    fun x y z => (x &&& z) ||| (y &&& ~~~z),
    fun x y z => x ^^^ (y ||| ~~~z)]

/-- What drives one round: a Boolean function, a constant, the position of the
    word it reads and the amount it rotates by. -/
structure Round where
  mix : UInt32 → UInt32 → UInt32 → UInt32
  constant : UInt32
  position : Nat
  amount : UInt32

/-- The rounds of a line, from its functions, constants, positions and amounts. -/
def line (fs : List (UInt32 → UInt32 → UInt32 → UInt32)) (constants : List UInt32)
    (positions : List Nat) (amounts : List UInt32) : List Round :=
  let phases := (fs.zip constants).flatMap (List.replicate 16)
  (phases.zip (positions.zip amounts)).map fun ((f, k), position, amount) =>
    ⟨f, k, position, amount⟩

/-- The rounds of the first line. -/
def leftLine : List Round :=
  line mixes [0x00000000, 0x5a827999, 0x6ed9eba1, 0x8f1bbcdc, 0xa953fd4e]
    [0, 1, 2, 3, 4, 5, 6, 7, 8, 9, 10, 11, 12, 13, 14, 15,
      7, 4, 13, 1, 10, 6, 15, 3, 12, 0, 9, 5, 2, 14, 11, 8,
      3, 10, 14, 4, 9, 15, 8, 1, 2, 7, 0, 6, 13, 11, 5, 12,
      1, 9, 11, 10, 0, 8, 12, 4, 13, 3, 7, 15, 14, 5, 6, 2,
      4, 0, 5, 9, 7, 12, 2, 10, 14, 1, 3, 8, 11, 6, 15, 13]
    [11, 14, 15, 12, 5, 8, 7, 9, 11, 13, 14, 15, 6, 7, 9, 8,
      7, 6, 8, 13, 11, 9, 7, 15, 7, 12, 15, 9, 11, 7, 13, 12,
      11, 13, 6, 7, 14, 9, 13, 15, 14, 8, 13, 6, 5, 12, 7, 5,
      11, 12, 14, 15, 14, 15, 9, 8, 9, 14, 5, 6, 8, 6, 5, 12,
      9, 15, 5, 11, 6, 8, 13, 12, 5, 12, 13, 14, 11, 8, 5, 6]

/-- The rounds of the second line. -/
def rightLine : List Round :=
  line mixes.reverse [0x50a28be6, 0x5c4dd124, 0x6d703ef3, 0x7a6d76e9, 0x00000000]
    [5, 14, 7, 0, 9, 2, 11, 4, 13, 6, 15, 8, 1, 10, 3, 12,
      6, 11, 3, 7, 0, 13, 5, 10, 14, 15, 8, 12, 4, 9, 1, 2,
      15, 5, 1, 3, 7, 14, 6, 9, 11, 8, 12, 2, 10, 0, 4, 13,
      8, 6, 4, 1, 3, 11, 15, 0, 5, 12, 2, 13, 9, 7, 10, 14,
      12, 15, 10, 4, 1, 5, 8, 7, 6, 2, 13, 14, 0, 3, 9, 11]
    [8, 9, 9, 11, 13, 15, 15, 5, 7, 7, 8, 11, 14, 14, 12, 6,
      9, 13, 15, 7, 12, 8, 9, 11, 7, 7, 12, 7, 6, 15, 13, 11,
      9, 7, 15, 11, 8, 6, 6, 14, 12, 13, 5, 14, 13, 13, 7, 5,
      15, 5, 8, 11, 14, 14, 6, 14, 6, 9, 12, 9, 12, 5, 15, 8,
      8, 5, 12, 9, 12, 5, 14, 6, 8, 13, 6, 5, 15, 13, 11, 11]

/-- One round over the words of a block. -/
def round (block : Array UInt32) (s : State) (r : Round) : State :=
  let sum := s.a + r.mix s.b s.c s.d + block.getD r.position 0 + r.constant
  ⟨s.e, rotateLeft sum r.amount + s.e, s.b, rotateLeft s.c 10, s.d⟩

/-- One block of sixteen words folded into the state. -/
def compress (s : State) (block : List UInt32) : State :=
  let words := block.toArray
  let l := leftLine.foldl (round words) s
  let r := rightLine.foldl (round words) s
  ⟨s.b + l.c + r.d, s.c + l.d + r.e, s.d + l.e + r.a, s.e + l.a + r.b, s.a + l.b + r.c⟩

/-- The words of a state, in order. -/
def State.words (s : State) : List UInt32 :=
  [s.a, s.b, s.c, s.d, s.e]

end Ripemd160

/-- The RIPEMD-160 digest of a message. -/
def ripemd160 (message : Bytes) : ByteVec 20 :=
  let state := (blocks .little message).foldl Ripemd160.compress Ripemd160.initial
  ⟨state.words.flatMap fun w => Bytes.fixedLE 4 w.toNat, by simp [Ripemd160.State.words]⟩

end Bitcoin.Hash
