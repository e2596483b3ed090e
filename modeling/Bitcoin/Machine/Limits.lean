import Bitcoin.Json

/-!
# Limits

The sizes and counts that a run may not exceed have changed between versions of
the rules, so they are data. A document may leave some of them out, which then
have their usual values.

## Main definitions

* `Limits`: What a run may not exceed.
* `Limits.ofJson?`, `Limits.toJson`: Limits as documents.
-/

namespace Bitcoin

/-- What a run may not exceed. -/
structure Limits where
  /-- Operations in one script, not counting pushes. -/
  operations : Nat := 200
  /-- Bytes of one script. -/
  scriptSize : Nat := 10000
  /-- Bytes of one pushed element. -/
  elementSize : Nat := 520
  /-- Elements on both stacks together. -/
  stackDepth : Nat := 1000
  /-- Bytes of a numeric operand. -/
  numberLength : Nat := 4
  /-- Keys of one multisignature. -/
  multisigKeys : Nat := 20
deriving DecidableEq

namespace Limits

/-- The names of the limits in documents, in order. -/
def names : List String :=
  ["max_ops", "max_script_size", "max_element_size", "max_stack_size",
    "max_script_number_length", "max_pubkeys_per_multisig"]

/-- The limits in the order of their names. -/
def values (limits : Limits) : List Nat :=
  [limits.operations, limits.scriptSize, limits.elementSize, limits.stackDepth,
    limits.numberLength, limits.multisigKeys]

/-- The limits with the given values in order. -/
def ofValues? : List Nat → Option Limits
  | [operations, scriptSize, elementSize, stackDepth, numberLength, multisigKeys] =>
    some ⟨operations, scriptSize, elementSize, stackDepth, numberLength, multisigKeys⟩
  | _ => none

/-- The value of a limit, which is the usual one if the document leaves it out. -/
def field? (usual : Nat) : Option Json → Option Nat
  | some value => value.natBelow? 0x10000000000000000
  | none => some usual

/-- The limits that a document gives. -/
def ofJson? (document : Json) : Option Limits := do
  let fields ← document.fields? names
  ofValues? (← (({} : Limits).values.zip fields).mapM fun (usual, field) => field? usual field)

/-- The limits as a document. -/
def toJson (limits : Limits) : Json :=
  .ofMembers (names.zip (limits.values.map .ofNat))

end Limits

end Bitcoin
