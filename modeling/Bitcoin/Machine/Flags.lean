import Bitcoin.Json

/-!
# Verification Flags

Rules came into force over time, so which of them hold is told to the machine by
a word of flags, one bit a rule. Bits without a rule are kept and mean nothing.

## Main definitions

* `Flags`: A word of flags.
* `Flags.has`: Whether all of some flags are set.
* `Flags.standard`: The usual rules for relaying transactions.
-/

namespace Bitcoin

/-- A word of flags. -/
structure Flags where
  bits : UInt32
deriving DecidableEq

namespace Flags

/-- Redeem scripts are run. -/
def p2sh : Flags := ⟨1⟩

/-- Keys and signatures have a standard form and a known hash type. -/
def strictEncoding : Flags := ⟨2⟩

/-- Signatures are in strict DER form. -/
def strictDer : Flags := ⟨4⟩

/-- Signatures are low. -/
def lowS : Flags := ⟨8⟩

/-- The extra element of a multisignature is empty. -/
def nullDummy : Flags := ⟨16⟩

/-- Unlocking scripts only push. -/
def unlockingPushOnly : Flags := ⟨32⟩

/-- Pushes and numbers have their shortest form. -/
def minimalData : Flags := ⟨64⟩

/-- Operations without effect are left to later upgrades. -/
def discourageNops : Flags := ⟨128⟩

/-- Exactly one element is left at the end. -/
def cleanStack : Flags := ⟨256⟩

/-- The absolute lock time is checked. -/
def absoluteLock : Flags := ⟨512⟩

/-- The relative lock time is checked. -/
def relativeLock : Flags := ⟨1024⟩

/-- Conditions are empty or one. -/
def minimalIf : Flags := ⟨2048⟩

/-- A signature that fails is empty. -/
def nullFail : Flags := ⟨4096⟩

/-- No rule. -/
def none : Flags := ⟨0⟩

/-- The flags of both words. -/
def union (a b : Flags) : Flags :=
  ⟨a.bits ||| b.bits⟩

/-- The flags that two words share. -/
def inter (a b : Flags) : Flags :=
  ⟨a.bits &&& b.bits⟩

/-- Whether all the given flags are set. -/
def has (flags wanted : Flags) : Bool :=
  flags.bits &&& wanted.bits = wanted.bits

/-- Whether one of the given words is contained. -/
def hasAny (flags : Flags) (wanted : List Flags) : Bool :=
  wanted.any flags.has

/-- The usual rules for relaying transactions. -/
def standard : Flags :=
  [p2sh, strictEncoding, strictDer, lowS, nullDummy, minimalData, discourageNops, cleanStack,
    absoluteLock, relativeLock, nullFail].foldl union none

/-- The word as a JSON number. -/
def toJson (flags : Flags) : Json :=
  .ofNat flags.bits.toNat

end Flags

end Bitcoin
