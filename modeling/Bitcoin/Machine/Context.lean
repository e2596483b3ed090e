import Bitcoin.Machine.Flags
import Bitcoin.Machine.Limits
import Bitcoin.Machine.Stack
import Bitcoin.Script.Basic

/-!
# What a Run Is Given

Scripts are run to find out whether an input may spend an output, so some
operations ask about the spending transaction. The machine knows of it only what
these operations need, and it can do without one as long as none of them is met.

## Main definitions

* `Context`: The spending transaction, as scripts see it.
* `SignatureCheck`: A question put to a context.
* `Rules`: All that stays the same during a run.
-/

namespace Bitcoin

/-- The spending transaction, as scripts see it. -/
structure Context where
  /-- Whether a signature, with its hash type at the end, belongs to a key over a
      script code at an input. Whatever prevents the check is a no. -/
  verifySignature : (sig key : Bytes) → (code : Script) → (input : Nat) → Bool
  lockTime : UInt32
  version : UInt32
  /-- The sequence number of an input. -/
  sequence : (input : Nat) → UInt32

/-- A question put to a context. -/
structure SignatureCheck where
  sig : Bytes
  key : Bytes
  code : Script
  input : Nat
deriving DecidableEq

/-- All that stays the same during a run. -/
structure Rules where
  flags : Flags
  limits : Limits := {}
  context? : Option Context := none
  /-- The number of the input that is checked. -/
  input : Nat := 0

namespace Rules

/-- Whether a flag is set. -/
def has (rules : Rules) (flag : Flags) : Bool :=
  rules.flags.has flag

/-- Which elements are accepted as operands. -/
def numbers (rules : Rules) : NumberRule :=
  ⟨rules.limits.numberLength, rules.has .minimalData⟩

end Rules

end Bitcoin
