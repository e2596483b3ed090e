/-!
# Byte Strings

Scripts, keys, signatures and transactions all travel as finite strings of
bytes, and numbers are read out of them in either byte order. A byte string is
a list here, because every format below is taken apart from the front, and what
a parser leaves over is then simply a suffix of what it was given.

A natural number has two kinds of written form. The minimal one has no zero
byte at its most significant end and is empty for zero. The fixed one has a
given width and drops whatever does not fit into it, which is what a machine
word does; callers that must not lose digits compare the minimal length with
the width first.

## Main definitions

* `Bytes`: A finite string of bytes.
* `Bytes.toNatLE`, `Bytes.toNatBE`: The number a string stands for.
* `Bytes.ofNatLE`, `Bytes.ofNatBE`: The minimal form of a number.
* `Bytes.fixedLE`, `Bytes.fixedBE`: The form of a given width.
* `ByteVec`: A byte string whose length is part of its type.

## Theorems

* `Bytes.length_fixedLE`, `Bytes.length_fixedBE`: A fixed form has its width.
* `Bytes.toNatLE_ofNatLE`, `Bytes.toNatBE_ofNatBE`: A minimal form reads back.
-/

namespace Bitcoin

/-- A finite string of bytes. -/
abbrev Bytes := List UInt8

namespace Bytes

/-- The number whose base 256 digits are given, least significant first. -/
def toNatLE : Bytes → Nat
  | [] => 0
  | digit :: rest => digit.toNat + 256 * toNatLE rest

/-- The number whose base 256 digits are given, most significant first. -/
def toNatBE (bytes : Bytes) : Nat :=
  toNatLE bytes.reverse

/-- The base 256 digits of a number, least significant first, with no zero at
    the end. Zero has none. -/
def ofNatLE (n : Nat) : Bytes :=
  if n = 0 then [] else UInt8.ofNat n :: ofNatLE (n / 256)
termination_by n

/-- The base 256 digits of a number, most significant first, with no zero at
    the front. Zero has none. -/
def ofNatBE (n : Nat) : Bytes :=
  (ofNatLE n).reverse

/-- The lowest `width` base 256 digits of a number, least significant first. -/
def fixedLE : Nat → Nat → Bytes
  | 0, _ => []
  | width + 1, n => UInt8.ofNat n :: fixedLE width (n / 256)

/-- The lowest `width` base 256 digits of a number, most significant first. -/
def fixedBE (width n : Nat) : Bytes :=
  (fixedLE width n).reverse

@[simp] theorem length_fixedLE (width n : Nat) : (fixedLE width n).length = width := by
  induction width generalizing n with
  | zero => rfl
  | succ width ih => simp [fixedLE, ih]

@[simp] theorem length_fixedBE (width n : Nat) : (fixedBE width n).length = width := by
  simp [fixedBE]

/-- A number is read back from its minimal little-endian form. -/
@[simp] theorem toNatLE_ofNatLE (n : Nat) : toNatLE (ofNatLE n) = n := by
  fun_induction ofNatLE n with
  | case1 => rfl
  | case2 n _ ih => simp [toNatLE, ih]; omega

/-- A number is read back from its minimal big-endian form. -/
@[simp] theorem toNatBE_ofNatBE (n : Nat) : toNatBE (ofNatBE n) = n := by
  simp [toNatBE, ofNatBE]

end Bytes

/-- A byte string of exactly `size` bytes. -/
structure ByteVec (size : Nat) where
  /-- The bytes, in order. -/
  bytes : Bytes
  /-- There are as many as the type says. -/
  length_bytes : bytes.length = size
deriving DecidableEq

namespace ByteVec

/-- The given bytes, if there are exactly `size` of them. -/
def ofBytes? (size : Nat) (bytes : Bytes) : Option (ByteVec size) :=
  if h : bytes.length = size then some ⟨bytes, h⟩ else none

/-- The lowest `size` base 256 digits of a number, most significant first. -/
def ofNatBE (size n : Nat) : ByteVec size :=
  ⟨Bytes.fixedBE size n, Bytes.length_fixedBE size n⟩

/-- The number whose digits are given, most significant first. -/
def toNatBE {size : Nat} (vec : ByteVec size) : Nat :=
  vec.bytes.toNatBE

/-- The bytes in the opposite order. -/
def reverse {size : Nat} (vec : ByteVec size) : ByteVec size :=
  ⟨vec.bytes.reverse, by simp [vec.length_bytes]⟩

/-- A vector of zero bytes. -/
def zero (size : Nat) : ByteVec size :=
  ⟨List.replicate size 0, List.length_replicate⟩

end ByteVec

end Bitcoin
