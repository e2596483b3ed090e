import Bitcoin.Script.Opcode

/-!
# Names of Operations

In listings of a script an operation is named by what it does, within the family
it belongs to. Several opcodes may share such a name, as the pushes do.

## Main definitions

* `Operation.label`: The name of an operation.
-/

namespace Bitcoin

/-- The name of an operation on the flow. -/
def FlowOp.label : FlowOp → String
  | .nop => "Nop"
  | .ifTrue => "If"
  | .ifFalse => "NotIf"
  | .ifVersion => "VerIf"
  | .ifNotVersion => "VerNotIf"
  | .otherwise => "Else"
  | .endIf => "EndIf"
  | .verify => "Verify"
  | .earlyReturn => "Return"

/-- The name of an operation on the stack. -/
def StackOp.label : StackOp → String
  | .toAlt => "ToAltStack"
  | .fromAlt => "FromAltStack"
  | .drop2 => "TwoDrop"
  | .dup2 => "TwoDup"
  | .dup3 => "ThreeDup"
  | .over2 => "TwoOver"
  | .rot2 => "TwoRot"
  | .swap2 => "TwoSwap"
  | .dupIfTrue => "IfDup"
  | .depth => "Depth"
  | .drop => "Drop"
  | .dup => "Dup"
  | .nip => "Nip"
  | .over1 => "Over"
  | .pick => "Pick"
  | .roll => "Roll"
  | .rot => "Rot"
  | .swap => "Swap"
  | .tuck => "Tuck"

/-- The name of an arithmetic operation. -/
def ArithmeticOp.label : ArithmeticOp → String
  | .unary .increment => "OneAdd"
  | .unary .decrement => "OneSub"
  | .unary .negate => "Negate"
  | .unary .abs => "Abs"
  | .unary .not => "Not"
  | .unary .notZero => "ZeroNotEqual"
  | .binary .add => "Add"
  | .binary .sub => "Sub"
  | .binary .boolAnd => "BoolAnd"
  | .binary .boolOr => "BoolOr"
  | .binary .equal => "NumEqual"
  | .equalVerify => "NumEqualVerify"
  | .binary .notEqual => "NumNotEqual"
  | .binary .less => "LessThan"
  | .binary .greater => "GreaterThan"
  | .binary .atMost => "LessThanOrEqual"
  | .binary .atLeast => "GreaterThanOrEqual"
  | .binary .min => "Min"
  | .binary .max => "Max"
  | .within => "Within"

/-- The name of a digest or signature operation. -/
def CryptoOp.label : CryptoOp → String
  | .ripemd160 => "Ripemd160"
  | .sha1 => "Sha1"
  | .sha256 => "Sha256"
  | .hash160 => "Hash160"
  | .hash256 => "Hash256"
  | .codeSeparator => "CodeSeparator"
  | .checkSig => "CheckSig"
  | .checkSigVerify => "CheckSigVerify"
  | .checkMultiSig => "CheckMultiSig"
  | .checkMultiSigVerify => "CheckMultiSigVerify"

/-- The name of an operation, with that of its family around it. -/
def Operation.label : Operation → String
  | .pushData => "PushData"
  | .pushNumber n => s!"PushNumber({n})"
  | .flow op => "Flow(" ++ op.label ++ ")"
  | .stack op => "Stack(" ++ op.label ++ ")"
  | .size => "Splice(Size)"
  | .equal => "Bitwise(Equal)"
  | .equalVerify => "Bitwise(EqualVerify)"
  | .arithmetic op => "Arithmetic(" ++ op.label ++ ")"
  | .crypto op => "Crypto(" ++ op.label ++ ")"
  | .lockTime .absolute => "LockTime(CheckLockTimeVerify)"
  | .lockTime .relative => "LockTime(CheckSequenceVerify)"
  | .upgradableNop => "UpgradableNop"
  | .disabled => "Disabled"
  | .reserved => "Reserved"
  | .invalid => "Invalid"

end Bitcoin
