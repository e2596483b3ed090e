import Bitcoin.Script.PushForm

/-!
# How a Run Fails

A run that does not succeed has violated a rule, and the rules are a fixed list.
Under one rule there may be several causes, worded differently; a cause carries
the numbers and bytes that its wording mentions.

Where an instruction is to blame, the failure is located by the script it stands
in and by its offset there. The first location given to a failure stays.

## Main definitions

* `Violation`, `Violation.name`, `Violation.category`: The rules, their names, and
  what they are about.
* `Fault`, `Fault.violation`, `Fault.message`: The causes of failure.
* `Role`: The scripts of a run.
* `Failure`, `Failure.locate`, `Failure.display`: A violation with its place.
-/

namespace Bitcoin

/-- The rules that a run can violate. -/
inductive Violation where
  | invalidFlags
  | noTransaction
  | emptyStack
  | evalFalse
  | cleanStack
  | notPushOnly
  | scriptTooBig
  | elementTooBig
  | tooManyOperations
  | stackOverflow
  | pubKeyCount
  | signatureCount
  | earlyReturn
  | disabledOpcode
  | reservedOpcode
  | badOpcode
  | malformedPush
  | stackOperation
  | altStackOperation
  | unbalancedConditional
  | discouragedNop
  | verify
  | equalVerify
  | numEqualVerify
  | checkSigVerify
  | checkMultiSigVerify
  | numberTooBig
  | minimalData
  | minimalIf
  | hashType
  | sigTooShort
  | sigTooLong
  | sigSequenceTag
  | sigDataLength
  | sigMissingSTag
  | sigMissingSLength
  | sigSLength
  | sigRTag
  | sigEmptyR
  | sigNegativeR
  | sigPaddedR
  | sigSTag
  | sigEmptyS
  | sigNegativeS
  | sigPaddedS
  | sigHighS
  | nullDummy
  | pubKeyType
  | nullFail
  | negativeLockTime
  | unsatisfiedLockTime
deriving DecidableEq

/-- What a rule is about. -/
inductive Category where
  /-- The script ran and rejected the spend. -/
  | script
  /-- Sizes and counts. -/
  | resource
  /-- The form of pushes, numbers, signatures and keys. -/
  | encoding
deriving DecidableEq

/-- What a rule is about. -/
def Violation.category : Violation → Category
  | .scriptTooBig | .tooManyOperations | .stackOverflow => .resource
  | .elementTooBig | .malformedPush | .numberTooBig | .minimalData | .minimalIf | .hashType
  | .sigTooShort | .sigTooLong | .sigSequenceTag | .sigDataLength | .sigMissingSTag
  | .sigMissingSLength | .sigSLength | .sigRTag | .sigEmptyR | .sigNegativeR | .sigPaddedR
  | .sigSTag | .sigEmptyS | .sigNegativeS | .sigPaddedS | .sigHighS | .pubKeyType => .encoding
  | _ => .script

/-- The names of the rules in reports. -/
def Violation.names : List (Violation × String) :=
  [(.invalidFlags, "InvalidFlags"), (.noTransaction, "NoTxContext"), (.emptyStack, "EmptyStack"),
    (.evalFalse, "EvalFalse"), (.cleanStack, "CleanStack"), (.notPushOnly, "NotPushOnly"),
    (.scriptTooBig, "ScriptTooBig"), (.elementTooBig, "ElementTooBig"),
    (.tooManyOperations, "TooManyOperations"), (.stackOverflow, "StackOverflow"),
    (.pubKeyCount, "InvalidPubKeyCount"), (.signatureCount, "InvalidSignatureCount"),
    (.earlyReturn, "EarlyReturn"), (.disabledOpcode, "DisabledOpcode"),
    (.reservedOpcode, "ReservedOpcode"), (.badOpcode, "BadOpcode"),
    (.malformedPush, "MalformedPush"), (.stackOperation, "InvalidStackOperation"),
    (.altStackOperation, "InvalidAltStackOperation"),
    (.unbalancedConditional, "UnbalancedConditional"),
    (.discouragedNop, "DiscourageUpgradableNOPs"), (.verify, "Verify"),
    (.equalVerify, "EqualVerify"), (.numEqualVerify, "NumEqualVerify"),
    (.checkSigVerify, "CheckSigVerify"), (.checkMultiSigVerify, "CheckMultiSigVerify"),
    (.numberTooBig, "NumberTooBig"), (.minimalData, "MinimalData"), (.minimalIf, "MinimalIf"),
    (.hashType, "InvalidSigHashType"), (.sigTooShort, "SigTooShort"), (.sigTooLong, "SigTooLong"),
    (.sigSequenceTag, "SigInvalidSeqID"), (.sigDataLength, "SigInvalidDataLen"),
    (.sigMissingSTag, "SigMissingSTypeID"), (.sigMissingSLength, "SigMissingSLen"),
    (.sigSLength, "SigInvalidSLen"), (.sigRTag, "SigInvalidRIntID"), (.sigEmptyR, "SigZeroRLen"),
    (.sigNegativeR, "SigNegativeR"), (.sigPaddedR, "SigTooMuchRPadding"),
    (.sigSTag, "SigInvalidSIntID"), (.sigEmptyS, "SigZeroSLen"), (.sigNegativeS, "SigNegativeS"),
    (.sigPaddedS, "SigTooMuchSPadding"), (.sigHighS, "SigHighS"), (.nullDummy, "SigNullDummy"),
    (.pubKeyType, "PubKeyType"), (.nullFail, "NullFail"),
    (.negativeLockTime, "NegativeLockTime"), (.unsatisfiedLockTime, "UnsatisfiedLockTime")]

/-- The name of a rule in reports. -/
def Violation.name (violation : Violation) : String :=
  (names.lookup violation).getD ""

/-- The name of a category. -/
def Category.name : Category → String
  | .script => "Script"
  | .resource => "ResourceExhaustion"
  | .encoding => "Encoding"

/-- The scripts of a run. -/
inductive Role where
  /-- The script of the spending input. -/
  | unlocking
  /-- The script of the spent output. -/
  | locking
  /-- The script whose hash the spent output pays to. -/
  | redeem
deriving DecidableEq

/-- The name of a role. -/
def Role.name : Role → String
  | .unlocking => "unlocking"
  | .locking => "locking"
  | .redeem => "redeem"

/-- What a transaction is wanted for. -/
inductive TransactionUse where
  | checkSig
  | checkMultiSig
  | absoluteLock
  | relativeLock
deriving DecidableEq

/-- The name of a use. -/
def TransactionUse.name : TransactionUse → String
  | .checkSig => "OP_CHECKSIG"
  | .checkMultiSig => "OP_CHECKMULTISIG"
  | .absoluteLock => "CheckLockTimeVerify"
  | .relativeLock => "CheckSequenceVerify"

/-- The operations that fail on a false element. -/
inductive Check where
  | verify
  | equal
  | numEqual
  | sig
  | multiSig
deriving DecidableEq

/-- The opcode of a check. -/
def Check.name : Check → String
  | .verify => "OP_VERIFY"
  | .equal => "OP_EQUALVERIFY"
  | .numEqual => "OP_NUMEQUALVERIFY"
  | .sig => "OP_CHECKSIGVERIFY"
  | .multiSig => "OP_CHECKMULTISIGVERIFY"

/-- The rule that a failed check violates. -/
def Check.violation : Check → Violation
  | .verify => .verify
  | .equal => .equalVerify
  | .numEqual => .numEqualVerify
  | .sig => .checkSigVerify
  | .multiSig => .checkMultiSigVerify

/-- How the bytes of a signature differ from the strict form. -/
inductive ShapeFault where
  | tooShort (length : Nat)
  | tooLong (length : Nat)
  | sequenceTag (found : UInt8)
  | dataLength (announced : UInt8) (found : Nat)
  | missingSTag
  | missingSLength
  | sLength
  | rTag (found : UInt8)
  | emptyR
  | negativeR
  | paddedR
  | sTag (found : UInt8)
  | emptyS
  | negativeS
  | paddedS
deriving DecidableEq

/-- Why a run fails. -/
inductive Fault where
  /-- The rule on clean stacks makes sense only where redeem scripts are run. -/
  | cleanStackAlone
  | noTransaction (use : TransactionUse)
  | scriptTooBig (role : Role) (size limit : Nat)
  | unlockingNotPushOnly
  | redeemNotPushOnly
  | truncatedPush
  | elementTooBig (size limit : Nat)
  | tooManyOperations (limit : Nat)
  | disabledOpcode (op : UInt8)
  | reservedOpcode (op : UInt8)
  /-- A block that depends on the software version. -/
  | versionBlock (op : UInt8)
  | invalidOpcode (op : UInt8)
  /-- The operation without effect that has this number. -/
  | discouragedNop (number : Nat)
  | stackTooDeep (depth limit : Nat)
  /-- The script ends inside a block. -/
  | openBlock (role : Role)
  | noRedeemScript
  | emptyResult
  | falseResult
  | uncleanResult (extra : Nat)
  /-- There is no block to continue, or nothing to decide a new one by. -/
  | noBlock (op : UInt8)
  | unclearCondition (op : UInt8) (element : Bytes)
  | earlyReturn
  | failedCheck (check : Check)
  | stackIndex (index depth : Nat)
  | negativeIndex (index : Int)
  | altStackEmpty
  | numberTooBig (element : Bytes) (limit : Nat)
  | numberNotMinimal (element : Bytes)
  | pushNotMinimal (length : Nat) (op : UInt8) (shortest : PushForm)
  | negativeLockTime (required : Int)
  | lockTimeKind (found required : Nat)
  | lockTimeAhead (found required : Nat)
  | finalInput
  | transactionVersion (version : UInt32)
  | sequenceDisabled (sequence : UInt32)
  | pubKeyCount (count : Int) (limit : Nat)
  | signatureCount (count : Int) (limit : Nat)
  | dummyNotEmpty (length : Nat)
  | signatureNotEmpty
  | signaturesNotEmpty
  | signatureShape (fault : ShapeFault)
  | highS
  | hashType (byte : UInt8)
  | pubKeyType
deriving DecidableEq

/-- The rule that a malformed signature violates. -/
def ShapeFault.violation : ShapeFault → Violation
  | .tooShort _ => .sigTooShort
  | .tooLong _ => .sigTooLong
  | .sequenceTag _ => .sigSequenceTag
  | .dataLength _ _ => .sigDataLength
  | .missingSTag => .sigMissingSTag
  | .missingSLength => .sigMissingSLength
  | .sLength => .sigSLength
  | .rTag _ => .sigRTag
  | .emptyR => .sigEmptyR
  | .negativeR => .sigNegativeR
  | .paddedR => .sigPaddedR
  | .sTag _ => .sigSTag
  | .emptyS => .sigEmptyS
  | .negativeS => .sigNegativeS
  | .paddedS => .sigPaddedS

/-- A byte as a number in hexadecimal. -/
def hexByte (byte : UInt8) : String :=
  "0x" ++ Hex.ofNat byte.toNat

/-- A byte string as a list of bytes in hexadecimal. -/
def hexList (bytes : Bytes) : String :=
  "[" ++ ", ".intercalate (bytes.map fun byte => Hex.encode [byte]) ++ "]"

/-- The wording of a malformed signature. -/
def ShapeFault.message : ShapeFault → String
  | .tooShort length => s!"too short: {length} < 8"
  | .tooLong length => s!"too long: {length} > 72"
  | .sequenceTag found => "wrong sequence tag: " ++ hexByte found
  | .dataLength announced found => s!"bad length: {announced} != {found}"
  | .missingSTag => "S type indicator missing"
  | .missingSLength => "S length missing"
  | .sLength => "invalid S length"
  | .rTag found => "R integer marker: " ++ hexByte found ++ " != 0x02"
  | .emptyR => "R length is zero"
  | .negativeR => "R is negative"
  | .paddedR => "R value has too much padding"
  | .sTag found => "S integer marker: " ++ hexByte found ++ " != 0x02"
  | .emptyS => "S length is zero"
  | .negativeS => "S is negative"
  | .paddedS => "S value has too much padding"

namespace Fault

/-- The rule that a cause violates. -/
def violation : Fault → Violation
  | .cleanStackAlone => .invalidFlags
  | .noTransaction _ => .noTransaction
  | .scriptTooBig .. => .scriptTooBig
  | .unlockingNotPushOnly | .redeemNotPushOnly => .notPushOnly
  | .truncatedPush => .malformedPush
  | .elementTooBig .. => .elementTooBig
  | .tooManyOperations _ => .tooManyOperations
  | .disabledOpcode _ => .disabledOpcode
  | .reservedOpcode _ => .reservedOpcode
  | .versionBlock _ | .invalidOpcode _ => .badOpcode
  | .discouragedNop _ => .discouragedNop
  | .stackTooDeep .. => .stackOverflow
  | .openBlock _ | .noBlock _ => .unbalancedConditional
  | .noRedeemScript | .emptyResult => .emptyStack
  | .falseResult => .evalFalse
  | .uncleanResult _ => .cleanStack
  | .unclearCondition .. => .minimalIf
  | .earlyReturn => .earlyReturn
  | .failedCheck check => check.violation
  | .stackIndex .. | .negativeIndex _ => .stackOperation
  | .altStackEmpty => .altStackOperation
  | .numberTooBig .. => .numberTooBig
  | .numberNotMinimal _ | .pushNotMinimal .. => .minimalData
  | .negativeLockTime _ => .negativeLockTime
  | .lockTimeKind .. | .lockTimeAhead .. | .finalInput | .transactionVersion _
  | .sequenceDisabled _ => .unsatisfiedLockTime
  | .pubKeyCount .. => .pubKeyCount
  | .signatureCount .. => .signatureCount
  | .dummyNotEmpty _ => .nullDummy
  | .signatureNotEmpty | .signaturesNotEmpty => .nullFail
  | .signatureShape fault => fault.violation
  | .highS => .sigHighS
  | .hashType _ => .hashType
  | .pubKeyType => .pubKeyType

/-- The wording of a cause. -/
def message : Fault → String
  | .cleanStackAlone => "CLEAN_STACK requires P2SH"
  | .noTransaction use => "a transaction is required to evaluate " ++ use.name
  | .scriptTooBig role size limit =>
    s!"{role.name} script size {size} is larger than the max allowed size {limit}"
  | .unlockingNotPushOnly => "signature script is not push only"
  | .redeemNotPushOnly => "pay to script hash is not push only"
  | .truncatedPush => "push data exceeds script length"
  | .elementTooBig size limit => s!"element size {size} exceeds max allowed size {limit}"
  | .tooManyOperations limit => s!"exceeded max operation limit of {limit}"
  | .disabledOpcode op => "attempt to execute disabled opcode " ++ Opcode.name op
  | .reservedOpcode op => "attempt to execute reserved opcode " ++ Opcode.name op
  | .versionBlock op => "attempt to execute reserved opcode " ++ Opcode.name op
  | .invalidOpcode op => "attempt to execute invalid opcode 0x" ++ Hex.encode [op]
  | .discouragedNop number => s!"OP_NOP{number} reserved for soft-fork upgrades"
  | .stackTooDeep depth limit => s!"combined stack size {depth} > max allowed {limit}"
  | .openBlock role => s!"end of {role.name} script reached in conditional execution"
  | .noRedeemScript => "no redeem script on the stack"
  | .emptyResult => "stack empty at end of script execution"
  | .falseResult => "false stack entry at end of script execution"
  | .uncleanResult extra => s!"stack contains {extra} unexpected items"
  | .noBlock op =>
    "encountered opcode " ++ Opcode.name op ++
      " with no matching opcode to begin conditional execution"
  | .unclearCondition op element =>
    Opcode.name op ++ " argument must be empty or 0x01, got " ++ hexList element
  | .earlyReturn => "script returned early"
  | .failedCheck check => check.name ++ " failed"
  | .stackIndex index depth => s!"index {index} is invalid for stack size {depth}"
  | .negativeIndex index => s!"stack index {index} is negative"
  | .altStackEmpty => "alt stack is empty"
  | .numberTooBig element limit =>
    "numeric value encoded as " ++ hexList element ++
      s!" is {element.length} bytes which exceeds the max allowed of {limit}"
  | .numberNotMinimal element =>
    "numeric value encoded as " ++ hexList element ++ " is not minimally encoded"
  | .pushNotMinimal length op shortest =>
    s!"data push of {length} bytes encoded with opcode " ++ Opcode.name op ++ " instead of " ++
      shortest.name
  | .negativeLockTime required => s!"negative lock time: {required}"
  | .lockTimeKind found required =>
    s!"mismatched locktime types -- tx locktime {found}, stack locktime {required}"
  | .lockTimeAhead found required =>
    "locktime requirement not satisfied -- locktime is greater than the transaction locktime: " ++
      s!"{required} > {found}"
  | .finalInput => "transaction input is finalized"
  | .transactionVersion version => s!"invalid transaction version: {version}"
  | .sequenceDisabled sequence =>
    "transaction sequence has sequence locktime disabled bit set: 0x" ++ Hex.ofNat sequence.toNat
  | .pubKeyCount count limit => s!"number of pubkeys {count} is outside [0, {limit}]"
  | .signatureCount count limit => s!"number of signatures {count} is outside [0, {limit}]"
  | .dummyNotEmpty length => s!"multisig dummy argument has length {length} instead of 0"
  | .signatureNotEmpty => "signature not empty on failed checksig"
  | .signaturesNotEmpty => "not all signatures empty on failed checkmultisig"
  | .signatureShape fault => "malformed signature: " ++ fault.message
  | .highS => "signature is not canonical due to unnecessarily high S value"
  | .hashType byte => "invalid hash type 0x" ++ Hex.encode [byte]
  | .pubKeyType => "unsupported public key type"

end Fault

/-- The place of an instruction. -/
structure Location where
  /-- The script it stands in. -/
  role : Role
  /-- How many bytes stand before it. -/
  offset : Nat
deriving DecidableEq

/-- A violated rule with its wording and, where one instruction is to blame, the
    place of that instruction. -/
structure Failure where
  violation : Violation
  description : String
  location? : Option Location
deriving DecidableEq

namespace Failure

/-- A failure from the given cause, at no place. -/
def of (fault : Fault) : Failure :=
  ⟨fault.violation, fault.message, none⟩

/-- Gives a failure a place unless it has one. -/
def locate (failure : Failure) (role : Role) (offset : Nat) : Failure :=
  { failure with location? := some (failure.location?.getD ⟨role, offset⟩) }

/-- The wording with the place. -/
def display (failure : Failure) : String :=
  match failure.location? with
  | some ⟨role, offset⟩ => failure.description ++ s!" ({role.name} script, offset {offset})"
  | none => failure.description

end Failure

end Bitcoin
