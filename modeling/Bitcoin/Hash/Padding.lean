import Bitcoin.Bytes

/-!
# Blocks of a Padded Message

The three digest functions share one frame. A message is closed with the byte
`0x80`, filled with zeros and ended by its length in bits, so that the whole is a
row of sixty-four byte blocks, and a compression function folds the blocks, each
read as sixteen words, into a small state. They differ in the byte order of words
and length, which is a parameter here.

## Main definitions

* `Hash.ByteOrder`: Most or least significant byte first.
* `Hash.pad`: A message with its padding.
* `Hash.blocks`: The words of the padded message, sixteen at a time.
* `Hash.rotateLeft`: Rotation of a word.
-/

namespace Bitcoin.Hash

/-- The order in which the bytes of a word stand. -/
inductive ByteOrder where
  | big
  | little

/-- The `width` bytes of a number in the given order. -/
def ByteOrder.write (order : ByteOrder) (width n : Nat) : Bytes :=
  match order with
  | .big => Bytes.fixedBE width n
  | .little => Bytes.fixedLE width n

/-- The number that bytes in the given order stand for. -/
def ByteOrder.read (order : ByteOrder) (bytes : Bytes) : Nat :=
  match order with
  | .big => bytes.toNatBE
  | .little => bytes.toNatLE

/-- A message with its padding: a closing bit, zeros up to eight bytes before the
    end of a block, and the length of the message in bits. -/
def pad (order : ByteOrder) (message : Bytes) : Bytes :=
  let length := message.length
  let zeros := (119 - length % 64) % 64
  message ++ 0x80 :: List.replicate zeros 0 ++ order.write 8 (8 * length)

/-- Bytes four at a time, each four read as a word. What does not fill a word is
    dropped. -/
def words (order : ByteOrder) (done : List UInt32) : Bytes → List UInt32
  | a :: b :: c :: d :: rest =>
    words order (UInt32.ofNat (order.read [a, b, c, d]) :: done) rest
  | _ => done.reverse

/-- Words sixteen at a time, of which there are as many as `count` says. -/
def split : Nat → List UInt32 → List (List UInt32)
  | 0, _ => []
  | count + 1, ws => ws.take 16 :: split count (ws.drop 16)

/-- The blocks of a padded message as rows of sixteen words. -/
def blocks (order : ByteOrder) (message : Bytes) : List (List UInt32) :=
  let ws := words order [] (pad order message)
  split (ws.length / 16) ws

/-- A word with its bits moved up by `n` places, the top ones coming in below.
    The amount lies between one and thirty-one. -/
def rotateLeft (x n : UInt32) : UInt32 :=
  (x <<< n) ||| (x >>> (32 - n))

/-- A word with its bits moved down by `n` places, the low ones coming in on
    top. -/
def rotateRight (x n : UInt32) : UInt32 :=
  (x >>> n) ||| (x <<< (32 - n))

end Bitcoin.Hash
