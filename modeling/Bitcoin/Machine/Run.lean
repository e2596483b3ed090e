import Bitcoin.Machine.Execute

/-!
# Running Scripts

An input may spend an output if the two scripts, run one after the other on the
same stack, leave a true element on top. Where the output pays to the hash of a
script, that script follows: it was the top element after the unlocking script,
and it runs on what was below it.

The machine takes one instruction at a time. With the last instruction of a
script, or at once if there is none, the step also moves on to the next script
or, after the last one, judges the stack. A machine that has halted stays as it
is.

A script of so many instructions takes so many steps, or one if it is empty, so a
run is three rounds of a number of steps that is known when the round begins.

## Main definitions

* `Machine`, `Machine.start`: A run, and how it begins.
* `Machine.step`: One instruction.
* `Machine.runFor`, `Machine.finishScript`, `Machine.run`: Many steps.
* `Verdict`, `Machine.execute`: What comes of a run.
-/

namespace Bitcoin

/-- Where a run stands. -/
inductive Stage where
  /-- In the unlocking script, with the locking script to come. -/
  | unlocking (locking : Program)
  /-- In the locking script. Where a redeem script is to come, the stack on which it
      was left is kept. -/
  | locking (saved : Option Stack)
  /-- In the redeem script. -/
  | redeem
deriving DecidableEq

/-- The script that runs at a stage. -/
def Stage.role : Stage → Role
  | .unlocking _ => .unlocking
  | .locking _ => .locking
  | .redeem => .redeem

/-- Whether a machine still runs. -/
inductive Status where
  | running
  | succeeded
  | failed (failure : Failure)
deriving DecidableEq

/-- The name of a status. -/
def Status.name : Status → String
  | .running => "Running"
  | .succeeded => "HaltedSuccess"
  | .failed _ => "HaltedFailure"

/-- What comes of a run. -/
inductive Verdict where
  | success
  | failure (failure : Failure)
deriving DecidableEq

/-- Whether a run succeeded. -/
def Verdict.isSuccess : Verdict → Bool
  | .success => true
  | .failure _ => false

/-- A run of scripts. -/
structure Machine where
  rules : Rules
  /-- Whether a redeem script follows the locking script. -/
  redeems : Bool
  stage : Stage
  frame : Frame
  status : Status := .running

namespace Machine

/-- Refuses a script that is too long. -/
def checkSize (rules : Rules) (role : Role) (script : Script) : Except Failure Unit :=
  let limit := rules.limits.scriptSize
  if limit < script.length then throw (.of (.scriptTooBig role script.length limit)) else return ()

/-- The machine at the first instruction of the unlocking script. Scripts that cannot
    be run at all are refused here. -/
def start (rules : Rules) (unlocking locking : Script) : Except Failure Machine := do
  if rules.has .cleanStack ∧ ¬rules.has .p2sh then throw (.of .cleanStackAlone)
  checkSize rules .unlocking unlocking
  checkSize rules .locking locking
  if rules.has .unlockingPushOnly ∧ ¬unlocking.isPushOnly then throw (.of .unlockingNotPushOnly)
  let redeems := rules.has .p2sh && locking.isP2SH
  if redeems ∧ ¬unlocking.isPushOnly then throw (.of .redeemNotPushOnly)
  let first ← Program.parse .unlocking unlocking
  let second ← Program.parse .locking locking
  return { rules, redeems, stage := .unlocking second, frame := .start [] first [] }

/-- The machine halted by a failure. -/
def fail (m : Machine) (failure : Failure) : Machine :=
  { m with status := .failed failure }

/-- The machine at the first instruction of the next script. -/
def enter (m : Machine) (stage : Stage) (stack : Stack) (program : Program) : Machine :=
  { m with stage, frame := .start stack program m.frame.checks }

/-- Refuses a stack without a true element on top. -/
def requireTrue (stack : Stack) : Except Fault Unit :=
  match stack with
  | [] => throw .emptyResult
  | top :: _ => if Element.isTrue top then return () else throw .falseResult

/-- Refuses a stack that a run may not end with. -/
def judge (rules : Rules) (stack : Stack) : Except Fault Unit := do
  requireTrue stack
  if rules.has .cleanStack ∧ stack.length ≠ 1 then throw (.uncleanResult (stack.length - 1))

/-- The machine halted with the judgement of its stack. -/
def conclude (m : Machine) : Machine :=
  match judge m.rules m.frame.stack with
  | .ok _ => { m with status := .succeeded }
  | .error fault => m.fail (.of fault)

/-- The redeem script in the saved stack, and the stack it runs on. The locking
    script must have left a true element. -/
def redeemProgram (rules : Rules) (stack saved : Stack) : Except Failure (Program × Stack) := do
  (requireTrue stack).mapError .of
  match saved with
  | [] => throw (.of .noRedeemScript)
  | script :: rest =>
    checkSize rules .redeem ⟨script⟩
    return (← Program.parse .redeem ⟨script⟩, rest)

/-- The machine after the last instruction of a script. -/
def endScript (m : Machine) : Machine :=
  if m.frame.blocks ≠ [] then m.fail (.of (.openBlock m.stage.role))
  else
    match m.stage with
    | .unlocking locking =>
      let stack := m.frame.stack
      m.enter (.locking (if m.redeems then some stack else none)) stack locking
    | .locking (some saved) =>
      match redeemProgram m.rules m.frame.stack saved with
      | .ok (program, stack) => m.enter .redeem stack program
      | .error failure => m.fail failure
    | .locking none | .redeem => m.conclude

/-- Refuses stacks that are too deep. -/
def checkDepth (rules : Rules) (frame : Frame) : Except Fault Unit :=
  let limit := rules.limits.stackDepth
  if limit < frame.depth then throw (.stackTooDeep frame.depth limit) else return ()

/-- Executes an instruction, given what follows it. -/
def executeNext (m : Machine) (instruction : Instruction) (rest : Program) : Machine :=
  let locate (fault : Fault) := (Failure.of fault).locate m.stage.role instruction.offset
  match instruction.execute m.rules { m.frame with next := rest } with
  | .error fault frame => { m with frame }.fail (locate fault)
  | .ok _ frame =>
    match checkDepth m.rules frame with
    | .error fault => { m with frame }.fail (locate fault)
    | .ok _ => if rest.isEmpty then { m with frame }.endScript else { m with frame }

/-- The machine one step later. -/
def step (m : Machine) : Machine :=
  match m.status with
  | .succeeded | .failed _ => m
  | .running =>
    match m.frame.next with
    | [] => m.endScript
    | instruction :: rest => m.executeNext instruction rest

/-- The machine so many steps later. -/
def runFor : Nat → Machine → Machine
  | 0, m => m
  | count + 1, m => runFor count m.step

/-- How many steps the current script takes at most. -/
def scriptSteps (m : Machine) : Nat :=
  max 1 m.frame.next.length

/-- The machine at the end of the current script. -/
def finishScript (m : Machine) : Machine :=
  runFor m.scriptSteps m

/-- The machine at the end of its last script. -/
def run (m : Machine) : Machine :=
  m.finishScript.finishScript.finishScript

/-- What a machine that has halted says. -/
def verdict (m : Machine) : Verdict :=
  match m.status with
  | .failed failure => .failure failure
  | .running | .succeeded => .success

/-- Runs an unlocking script and a locking script. -/
def execute (rules : Rules) (unlocking locking : Script) : Verdict :=
  match start rules unlocking locking with
  | .ok m => m.run.verdict
  | .error failure => .failure failure

end Machine

end Bitcoin
