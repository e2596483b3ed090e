import Bitcoin.Bytes

/-!
# Opcodes

An opcode is one byte, and every byte has a meaning: it pushes something, it
operates on the stacks, or it makes a script fail. The bytes up to 0x4b push as
many bytes as they say, the bytes from 0xba on are unassigned, and the range
between is a table with a name and an operation for each byte.

A name stands for its byte in script assembly, except that opcodes which need a
payload cannot be named: the payload is written instead.

## Main definitions

* `Operation`: What an opcode does.
* `Opcode.table`: The assigned opcodes above the direct pushes.
* `Opcode.operation`, `Opcode.name`: The meaning and the name of a byte.
* `Opcode.ofName?`: The byte a name stands for.
-/

namespace Bitcoin

/-- Operations that decide which instructions take effect. -/
inductive FlowOp where
  | nop
  /-- Opens a block that runs if the top element is true. -/
  | ifTrue
  /-- Opens a block that runs if the top element is false. -/
  | ifFalse
  /-- Opens a block that depends on the software version. No block may. -/
  | ifVersion
  /-- Opens a block that depends on the software version. No block may. -/
  | ifNotVersion
  /-- Turns to the other half of the innermost block. -/
  | otherwise
  | endIf
  | verify
  | earlyReturn
deriving DecidableEq

/-- Operations that move elements about. -/
inductive StackOp where
  | toAlt
  | fromAlt
  | drop2
  | dup2
  | dup3
  | over2
  | rot2
  | swap2
  /-- Duplicates the top element if it is true. -/
  | dupIfTrue
  | depth
  | drop
  | dup
  | nip
  | over1
  | pick
  | roll
  | rot
  | swap
  | tuck
deriving DecidableEq

/-- Arithmetic on one number. -/
inductive UnaryOp where
  | increment
  | decrement
  | negate
  | abs
  | not
  | notZero
deriving DecidableEq

/-- Arithmetic on two numbers. -/
inductive BinaryOp where
  | add
  | sub
  | boolAnd
  | boolOr
  | equal
  | notEqual
  | less
  | greater
  | atMost
  | atLeast
  | min
  | max
deriving DecidableEq

/-- Arithmetic on the numbers at the top. -/
inductive ArithmeticOp where
  | unary (op : UnaryOp)
  | binary (op : BinaryOp)
  /-- Whether a number lies in a half-open interval. -/
  | within
  /-- Fails unless two numbers are equal. -/
  | equalVerify
deriving DecidableEq

/-- Digests and signatures. -/
inductive CryptoOp where
  | ripemd160
  | sha1
  | sha256
  | hash160
  | hash256
  /-- Marks where the script code of later signatures begins. -/
  | codeSeparator
  | checkSig
  | checkSigVerify
  | checkMultiSig
  | checkMultiSigVerify
deriving DecidableEq

/-- Conditions on the time of the spending transaction. -/
inductive LockTimeOp where
  /-- The absolute lock time. -/
  | absolute
  /-- The relative lock time of the input. -/
  | relative
deriving DecidableEq

/-- What an opcode does. -/
inductive Operation where
  /-- Pushes the bytes that follow. -/
  | pushData
  /-- Pushes a small number. -/
  | pushNumber (value : Int)
  | flow (op : FlowOp)
  | stack (op : StackOp)
  /-- Pushes the length of the top element. -/
  | size
  /-- Compares two elements byte by byte. -/
  | equal
  /-- Fails unless two elements are the same bytes. -/
  | equalVerify
  | arithmetic (op : ArithmeticOp)
  | crypto (op : CryptoOp)
  | lockTime (op : LockTimeOp)
  /-- Does nothing so far and may be given a meaning later. -/
  | upgradableNop
  /-- Fails wherever it stands, also where nothing takes effect. -/
  | disabled
  /-- Fails if it takes effect. -/
  | reserved
  /-- Unassigned. Fails if it takes effect. -/
  | invalid
deriving DecidableEq

/-- Whether an operation is looked at even where nothing takes effect, because it
    belongs to the structure of blocks. -/
def Operation.isConditional : Operation → Bool
  | .flow .ifTrue | .flow .ifFalse | .flow .ifVersion | .flow .ifNotVersion
  | .flow .otherwise | .flow .endIf => true
  | _ => false

namespace Opcode

/-- Pushes nothing but an empty element. -/
def zero : UInt8 := 0x00

/-- The largest opcode that is itself the number of bytes it pushes. -/
def maxDirect : UInt8 := 0x4b

/-- Pushes bytes whose number follows in one byte. -/
def pushData1 : UInt8 := 0x4c

/-- Pushes bytes whose number follows in two bytes. -/
def pushData2 : UInt8 := 0x4d

/-- Pushes bytes whose number follows in four bytes. -/
def pushData4 : UInt8 := 0x4e

/-- Pushes minus one. -/
def negativeOne : UInt8 := 0x4f

/-- Pushes a number from one to sixteen. -/
def small (n : Nat) : UInt8 := 0x50 + UInt8.ofNat n

/-- Pushes sixteen. The opcodes above it count as operations. -/
def sixteen : UInt8 := 0x60

/-- Marks where the script code of later signatures begins. -/
def codeSeparator : UInt8 := 0xab

/-- The opcodes from 0x4c to 0xb9 in order, each with its name and operation. -/
def table : List (String × Operation) :=
  [("OP_PUSHDATA1", .pushData),
    ("OP_PUSHDATA2", .pushData),
    ("OP_PUSHDATA4", .pushData),
    ("OP_1NEGATE", .pushNumber (-1)),
    ("OP_RESERVED", .reserved),
    ("OP_1", .pushNumber 1),
    ("OP_2", .pushNumber 2),
    ("OP_3", .pushNumber 3),
    ("OP_4", .pushNumber 4),
    ("OP_5", .pushNumber 5),
    ("OP_6", .pushNumber 6),
    ("OP_7", .pushNumber 7),
    ("OP_8", .pushNumber 8),
    ("OP_9", .pushNumber 9),
    ("OP_10", .pushNumber 10),
    ("OP_11", .pushNumber 11),
    ("OP_12", .pushNumber 12),
    ("OP_13", .pushNumber 13),
    ("OP_14", .pushNumber 14),
    ("OP_15", .pushNumber 15),
    ("OP_16", .pushNumber 16),
    ("OP_NOP", .flow .nop),
    ("OP_VER", .reserved),
    ("OP_IF", .flow .ifTrue),
    ("OP_NOTIF", .flow .ifFalse),
    ("OP_VERIF", .flow .ifVersion),
    ("OP_VERNOTIF", .flow .ifNotVersion),
    ("OP_ELSE", .flow .otherwise),
    ("OP_ENDIF", .flow .endIf),
    ("OP_VERIFY", .flow .verify),
    ("OP_RETURN", .flow .earlyReturn),
    ("OP_TOALTSTACK", .stack .toAlt),
    ("OP_FROMALTSTACK", .stack .fromAlt),
    ("OP_2DROP", .stack .drop2),
    ("OP_2DUP", .stack .dup2),
    ("OP_3DUP", .stack .dup3),
    ("OP_2OVER", .stack .over2),
    ("OP_2ROT", .stack .rot2),
    ("OP_2SWAP", .stack .swap2),
    ("OP_IFDUP", .stack .dupIfTrue),
    ("OP_DEPTH", .stack .depth),
    ("OP_DROP", .stack .drop),
    ("OP_DUP", .stack .dup),
    ("OP_NIP", .stack .nip),
    ("OP_OVER", .stack .over1),
    ("OP_PICK", .stack .pick),
    ("OP_ROLL", .stack .roll),
    ("OP_ROT", .stack .rot),
    ("OP_SWAP", .stack .swap),
    ("OP_TUCK", .stack .tuck),
    ("OP_CAT", .disabled),
    ("OP_SUBSTR", .disabled),
    ("OP_LEFT", .disabled),
    ("OP_RIGHT", .disabled),
    ("OP_SIZE", .size),
    ("OP_INVERT", .disabled),
    ("OP_AND", .disabled),
    ("OP_OR", .disabled),
    ("OP_XOR", .disabled),
    ("OP_EQUAL", .equal),
    ("OP_EQUALVERIFY", .equalVerify),
    ("OP_RESERVED1", .reserved),
    ("OP_RESERVED2", .reserved),
    ("OP_1ADD", .arithmetic (.unary .increment)),
    ("OP_1SUB", .arithmetic (.unary .decrement)),
    ("OP_2MUL", .disabled),
    ("OP_2DIV", .disabled),
    ("OP_NEGATE", .arithmetic (.unary .negate)),
    ("OP_ABS", .arithmetic (.unary .abs)),
    ("OP_NOT", .arithmetic (.unary .not)),
    ("OP_0NOTEQUAL", .arithmetic (.unary .notZero)),
    ("OP_ADD", .arithmetic (.binary .add)),
    ("OP_SUB", .arithmetic (.binary .sub)),
    ("OP_MUL", .disabled),
    ("OP_DIV", .disabled),
    ("OP_MOD", .disabled),
    ("OP_LSHIFT", .disabled),
    ("OP_RSHIFT", .disabled),
    ("OP_BOOLAND", .arithmetic (.binary .boolAnd)),
    ("OP_BOOLOR", .arithmetic (.binary .boolOr)),
    ("OP_NUMEQUAL", .arithmetic (.binary .equal)),
    ("OP_NUMEQUALVERIFY", .arithmetic .equalVerify),
    ("OP_NUMNOTEQUAL", .arithmetic (.binary .notEqual)),
    ("OP_LESSTHAN", .arithmetic (.binary .less)),
    ("OP_GREATERTHAN", .arithmetic (.binary .greater)),
    ("OP_LESSTHANOREQUAL", .arithmetic (.binary .atMost)),
    ("OP_GREATERTHANOREQUAL", .arithmetic (.binary .atLeast)),
    ("OP_MIN", .arithmetic (.binary .min)),
    ("OP_MAX", .arithmetic (.binary .max)),
    ("OP_WITHIN", .arithmetic .within),
    ("OP_RIPEMD160", .crypto .ripemd160),
    ("OP_SHA1", .crypto .sha1),
    ("OP_SHA256", .crypto .sha256),
    ("OP_HASH160", .crypto .hash160),
    ("OP_HASH256", .crypto .hash256),
    ("OP_CODESEPARATOR", .crypto .codeSeparator),
    ("OP_CHECKSIG", .crypto .checkSig),
    ("OP_CHECKSIGVERIFY", .crypto .checkSigVerify),
    ("OP_CHECKMULTISIG", .crypto .checkMultiSig),
    ("OP_CHECKMULTISIGVERIFY", .crypto .checkMultiSigVerify),
    ("OP_NOP1", .upgradableNop),
    ("OP_CHECKLOCKTIMEVERIFY", .lockTime .absolute),
    ("OP_CHECKSEQUENCEVERIFY", .lockTime .relative),
    ("OP_NOP4", .upgradableNop),
    ("OP_NOP5", .upgradableNop),
    ("OP_NOP6", .upgradableNop),
    ("OP_NOP7", .upgradableNop),
    ("OP_NOP8", .upgradableNop),
    ("OP_NOP9", .upgradableNop),
    ("OP_NOP10", .upgradableNop)]

/-- The table's entry for a byte, if it has one. -/
def assigned? (op : UInt8) : Option (String × Operation) :=
  if op ≤ maxDirect then none else table[op.toNat - pushData1.toNat]?

/-- What an opcode does. -/
def operation (op : UInt8) : Operation :=
  if op ≤ maxDirect then .pushData else ((assigned? op).map (·.2)).getD .invalid

/-- The name of an opcode. The direct pushes share one, since their payload is
    shown in their place, and so do the unassigned bytes but for the last. -/
def name (op : UInt8) : String :=
  if op = zero then "OP_0"
  else if op ≤ maxDirect then "OP_PUSHBYTES"
  else if op = 0xff then "OP_INVALIDOPCODE"
  else ((assigned? op).map (·.1)).getD "OP_UNKNOWN"

/-- Whether an opcode pushes bytes of its own choice: an empty element or the
    bytes that follow it. -/
def isPush (op : UInt8) : Bool :=
  op ≤ pushData4

/-- Names that stand for no byte: some need a payload, some are shared. -/
def unnamable : List String :=
  ["OP_PUSHBYTES", "OP_UNKNOWN", "OP_PUSHDATA1", "OP_PUSHDATA2", "OP_PUSHDATA4"]

/-- Second names. -/
def aliases : List (String × UInt8) :=
  [("OP_FALSE", 0x00), ("OP_TRUE", 0x51), ("OP_NOP2", 0xb1), ("OP_NOP3", 0xb2)]

/-- All bytes in order. -/
def all : List UInt8 :=
  (List.range 256).map UInt8.ofNat

/-- The opcode a name stands for. -/
def ofName? (text : String) : Option UInt8 :=
  match aliases.lookup text with
  | some op => some op
  | none => if text ∈ unnamable then none else all.find? (fun op => name op = text)

end Opcode

end Bitcoin
