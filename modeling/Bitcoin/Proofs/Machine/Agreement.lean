import Bitcoin.Proofs.Machine.Evaluation

/-!
# Rules That Instructions Cannot Tell Apart

Three of the flags concern whole scripts: whether redeem scripts are run, whether the
unlocking script may only push, and how many elements may be left. The other ten are
all that instructions ask for. Rules that agree on these, and on everything that is no
flag, make every instruction do the same, whatever it is, so that scripts evaluate
alike.

An instruction hands its rules on to the operations that it consists of, and these to
theirs. The proof follows them down, one lemma an operation.

## Main definitions

* `Flags.without`: A word without some flags.
* `Flags.ofInstructions`: The flags that instructions ask for.
* `Rules.Agrees`: Rules that agree on these.

## Theorems

* `Rules.agrees_without_p2sh`: The flag for redeem scripts is none of these.
* `Rules.Agrees.execute`: An instruction under both rules.
* `Rules.Agrees.eval?`, `Rules.Agrees.eval?_script`: Programs and scripts under both.
-/

namespace Bitcoin

/-- The word without the given flags. -/
def Flags.without (flags unwanted : Flags) : Flags :=
  ⟨flags.bits &&& ~~~unwanted.bits⟩

/-- Flags that share no bit with those taken away stay. -/
theorem Flags.has_without {flags unwanted flag : Flags}
    (h : flag.bits &&& ~~~unwanted.bits = flag.bits) :
    (flags.without unwanted).has flag = flags.has flag := by
  have hbits : flags.bits &&& ~~~unwanted.bits &&& flag.bits = flags.bits &&& flag.bits := by
    rw [UInt32.and_assoc, UInt32.and_comm (~~~unwanted.bits), h]
  rw [has, has, without, hbits]

/-- A flag that is taken away is not set. -/
theorem Flags.has_without_self {flags flag : Flags} (h : flag.bits ≠ 0) :
    (flags.without flag).has flag = false := by
  have hbits : flags.bits &&& ~~~flag.bits &&& flag.bits = 0 := by
    rw [UInt32.and_assoc, UInt32.and_comm (~~~flag.bits), UInt32.and_not_self, UInt32.and_zero]
  rw [has, without, hbits]
  exact decide_eq_false (Ne.symm h)

/-- The flags that instructions look at. -/
def Flags.ofInstructions : List Flags :=
  [strictEncoding, strictDer, lowS, nullDummy, minimalData, discourageNops, absoluteLock,
    relativeLock, minimalIf, nullFail]

/-- Rules that differ at most in flags that no instruction looks at. -/
structure Rules.Agrees (rules rules' : Rules) : Prop where
  limits : rules.limits = rules'.limits
  context? : rules.context? = rules'.context?
  input : rules.input = rules'.input
  has : ∀ flag ∈ Flags.ofInstructions, rules.has flag = rules'.has flag

variable {rules rules' : Rules}

/-- No instruction asks whether redeem scripts are run. -/
theorem Rules.agrees_without_p2sh (rules : Rules) :
    Rules.Agrees { rules with flags := rules.flags.without .p2sh } rules := by
  refine ⟨rfl, rfl, rfl, fun flag hflag => Flags.has_without ?_⟩
  have hbits : ∀ flag ∈ Flags.ofInstructions, flag.bits &&& ~~~Flags.p2sh.bits = flag.bits := by
    decide
  exact hbits flag hflag

namespace Rules.Agrees

theorem numbers (h : rules.Agrees rules') : rules.numbers = rules'.numbers := by
  rw [Rules.numbers, Rules.numbers, h.limits, h.has .minimalData (by decide)]

theorem countOperations (h : rules.Agrees rules') (count : Nat) :
    Exec.countOperations rules count = Exec.countOperations rules' count := by
  simp only [Exec.countOperations, h.limits]

theorem context (h : rules.Agrees rules') (use : TransactionUse) :
    Exec.context rules use = Exec.context rules' use := by
  simp only [Exec.context, h.context?]

/-- The form of a signature is checked by the flags only. -/
theorem signatureForm (h : rules.Agrees rules') (sig : Bytes) :
    SignatureForm.check rules sig = SignatureForm.check rules' sig := by
  have hany : rules.flags.hasAny [.strictDer, .lowS, .strictEncoding] =
      rules'.flags.hasAny [.strictDer, .lowS, .strictEncoding] := by
    have hder : rules.flags.has .strictDer = rules'.flags.has .strictDer :=
      h.has .strictDer (by decide)
    have hlow : rules.flags.has .lowS = rules'.flags.has .lowS := h.has .lowS (by decide)
    have hstrict : rules.flags.has .strictEncoding = rules'.flags.has .strictEncoding :=
      h.has .strictEncoding (by decide)
    simp only [Flags.hasAny, List.any_cons, List.any_nil, hder, hlow, hstrict]
  simp only [SignatureForm.check, SignatureForm.checkDer, hany, h.has .lowS (by decide),
    h.has .strictEncoding (by decide)]

theorem checkForms (h : rules.Agrees rules') (sig key : Bytes) :
    Crypto.checkForms rules sig key = Crypto.checkForms rules' sig key := by
  simp only [Crypto.checkForms, h.signatureForm, KeyForm.check, h.has .strictEncoding (by decide)]

theorem ask (h : rules.Agrees rules') (context : Context) (code : Script) (sig key : Bytes) :
    Crypto.ask rules context code sig key = Crypto.ask rules' context code sig key := by
  simp only [Crypto.ask, h.input]

/-- The matching asks the same under both, so it goes on alike after each reply. -/
theorem matchKeys (h : rules.Agrees rules') (context : Context) (code : Script)
    (sigs keys : List Bytes) :
    Crypto.matchKeys rules context code sigs keys
      = Crypto.matchKeys rules' context code sigs keys := by
  induction keys generalizing sigs with
  | nil =>
      rcases sigs with _ | ⟨sig, sigs⟩
      · rfl
      · rfl
  | cons key keys ih =>
      rcases sigs with _ | ⟨sig, sigs⟩
      · rfl
      · simp only [Crypto.matchKeys, h.checkForms, h.ask, ih]

theorem popCount (h : rules.Agrees rules') (limit : Nat) (fault : Int → Nat → Fault) :
    Crypto.popCount rules limit fault = Crypto.popCount rules' limit fault := by
  simp only [Crypto.popCount, h.numbers]

theorem checkSig (h : rules.Agrees rules') : Crypto.checkSig rules = Crypto.checkSig rules' := by
  simp only [Crypto.checkSig, h.context, h.checkForms, h.ask, h.has .nullFail (by decide)]

theorem checkMultiSig (h : rules.Agrees rules') :
    Crypto.checkMultiSig rules = Crypto.checkMultiSig rules' := by
  simp only [Crypto.checkMultiSig, h.popCount, h.limits, h.countOperations, h.context,
    h.matchKeys, h.has .nullDummy (by decide), h.has .nullFail (by decide)]

/-- Signature operations have limits of their own, which are the same. -/
theorem crypto (h : rules.Agrees rules') (op : CryptoOp) :
    Crypto.execute rules op = Crypto.execute rules' op := by
  cases op with
  | checkSig => exact h.checkSig
  | checkSigVerify => simp only [Crypto.execute, h.checkSig]
  | checkMultiSig => exact h.checkMultiSig
  | checkMultiSigVerify => simp only [Crypto.execute, h.checkMultiSig]
  | _ => rfl

/-- Blocks are opened under the same rule for their conditions. -/
theorem flow (h : rules.Agrees rules') (byte : UInt8) (op : FlowOp) :
    Flow.execute rules byte op = Flow.execute rules' byte op := by
  have hcondition : Flow.popCondition rules byte = Flow.popCondition rules' byte := by
    simp only [Flow.popCondition, h.has .minimalIf (by decide)]
  have hblock (wanted : Bool) :
      Flow.openBlock rules byte wanted = Flow.openBlock rules' byte wanted := by
    simp only [Flow.openBlock, hcondition]
  cases op with
  | ifTrue => exact hblock true
  | ifFalse => exact hblock false
  | _ => rfl

theorem shuffle (h : rules.Agrees rules') (op : StackOp) :
    Shuffle.execute rules op = Shuffle.execute rules' op := by
  have hindex : Shuffle.popIndex rules = Shuffle.popIndex rules' := by
    simp only [Shuffle.popIndex, h.numbers]
  cases op with
  | pick => simp only [Shuffle.execute, hindex]
  | roll => simp only [Shuffle.execute, hindex]
  | _ => rfl

theorem arithmetic (h : rules.Agrees rules') (op : ArithmeticOp) :
    Arithmetic.execute rules op = Arithmetic.execute rules' op := by
  cases op <;> simp only [Arithmetic.execute, h.numbers]

/-- Lock times are read from the same context. -/
theorem lockTime (h : rules.Agrees rules') (op : LockTimeOp) :
    LockTime.execute rules op = LockTime.execute rules' op := by
  have hrequired : LockTime.required rules = LockTime.required rules' := by
    simp only [LockTime.required, h.has .minimalData (by decide)]
  have hcheck : LockTime.check rules op = LockTime.check rules' op := by
    cases op <;> simp only [LockTime.check, hrequired, h.context, h.input]
  have hflag : rules.has (LockTime.flag op) = rules'.has (LockTime.flag op) := by
    cases op with
    | absolute => exact h.has .absoluteLock (by decide)
    | relative => exact h.has .relativeLock (by decide)
  rw [LockTime.execute, LockTime.execute, hcheck, hflag, h.has .discourageNops (by decide)]

theorem perform (h : rules.Agrees rules') (instruction : Instruction) :
    instruction.perform rules = instruction.perform rules' := by
  simp only [Instruction.perform, Instruction.pushData, h.flow, h.shuffle, h.arithmetic, h.crypto,
    h.lockTime, h.has .minimalData (by decide), h.has .discourageNops (by decide)]

/-- An instruction does the same under both rules. -/
theorem execute (h : rules.Agrees rules') (instruction : Instruction) :
    instruction.execute rules = instruction.execute rules' := by
  simp only [Instruction.execute, h.limits, h.countOperations, h.perform]

theorem advance (h : rules.Agrees rules') (instruction : Instruction) (rest : Program) :
    instruction.advance rules rest = instruction.advance rules' rest := by
  simp only [Instruction.advance, h.execute, Machine.checkDepth, h.limits]

/-- A program runs alike, instruction by instruction. -/
theorem run (h : rules.Agrees rules') (program : Program) :
    program.run rules = program.run rules' := by
  induction program with
  | nil => rfl
  | cons instruction rest ih => simp only [Program.run, h.advance, ih]

/-- A program leaves the same stack under both rules. -/
theorem eval? (h : rules.Agrees rules') (program : Program) (stack : Stack) :
    program.eval? rules stack = program.eval? rules' stack := by
  simp only [Program.eval?, h.run]

/-- So a script leaves the same stack. -/
theorem eval?_script (h : rules.Agrees rules') (script : Script) (role : Role) (stack : Stack) :
    script.eval? rules role stack = script.eval? rules' role stack := by
  simp only [Script.eval?, h.eval?]

end Rules.Agrees

end Bitcoin
