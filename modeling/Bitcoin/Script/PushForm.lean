import Bitcoin.Script.Push

/-!
# The Shortest Push

Several instructions push the same bytes. Some strings have an opcode of their
own and need no payload at all; for the others the header grows with the length.
The form named here is the shortest one, and a rule against malleability demands
that no other is used.

## Main definitions

* `PushForm`: The ways to push a string.
* `PushForm.shortest`: The shortest of them.
* `PushForm.admits`: Whether an opcode has a form.
-/

namespace Bitcoin

/-- A way to push a string. -/
inductive PushForm where
  /-- The opcode of the empty string. -/
  | zero
  /-- The opcode of a number from one to sixteen. -/
  | small (n : Nat)
  /-- The opcode of minus one. -/
  | negativeOne
  /-- The opcode is the length. -/
  | direct (length : Nat)
  /-- The length follows in one byte. -/
  | pushData1
  /-- The length follows in two bytes. -/
  | pushData2
  /-- The length follows in four bytes. -/
  | pushData4
deriving DecidableEq

namespace PushForm

/-- The form that the length alone asks for. -/
def ofLength (length : Nat) : PushForm :=
  if length = 0 then .zero
  else if length ≤ Opcode.maxDirect.toNat then .direct length
  else if length ≤ 0xff then .pushData1
  else if length ≤ 0xffff then .pushData2
  else .pushData4

/-- The shortest way to push a string. -/
def shortest (data : Bytes) : PushForm :=
  match data with
  | [byte] =>
    if 1 ≤ byte ∧ byte ≤ 16 then .small byte.toNat
    else if byte = 0x81 then .negativeOne
    else .direct 1
  | _ => ofLength data.length

/-- Whether an opcode that comes with a payload has this form. The opcodes of
    numbers have no payload, and the widest form is taken by whatever needs it. -/
def admits (form : PushForm) (op : UInt8) : Bool :=
  match form with
  | .zero => op = Opcode.zero
  | .small _ | .negativeOne => false
  | .direct length => op.toNat = length
  | .pushData1 => op = Opcode.pushData1
  | .pushData2 => op = Opcode.pushData2
  | .pushData4 => true

/-- The opcode's name for a form. -/
def name : PushForm → String
  | .zero => "OP_0"
  | .small n => s!"OP_{n}"
  | .negativeOne => "OP_1NEGATE"
  | .direct length => s!"OP_DATA_{length}"
  | .pushData1 => "OP_PUSHDATA1"
  | .pushData2 => "OP_PUSHDATA2"
  | .pushData4 => "OP_PUSHDATA4"

end PushForm

end Bitcoin
