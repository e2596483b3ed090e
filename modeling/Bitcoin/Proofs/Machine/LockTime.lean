import Bitcoin.Proofs.Machine.Effect
import Bitcoin.Proofs.Machine.Form
import Bitcoin.Transaction.Checking
import Mathlib.Data.Nat.Bitwise

/-!
# What Lock Times Require

A lock time operation compares the integer on top of the main stack with the spending
transaction. A relative lock is compared as if it were an absolute one with another threshold,
after all but some bits of both sides have been masked. Here the outcome is stated bit by bit: the
mask leaves the bit of the kind, which is above the threshold exactly if it is set, and the
low sixteen bits, so that quantities of one kind are in the order of their low bits. Every
other bit of the integer is ignored but the one that disables the lock.

Neither operation changes anything. That holds of failures too, about which the equivalences
say nothing, so it is taken from what is known of computations however they end.

## Main definitions

* `LockTime.Operand`: The integer that is required.
* `LockTime.AbsoluteMet`, `LockTime.RelativeMet`: What it requires of the transaction.

## Theorems

* `LockTime.land_relativeMask`: What the mask leaves.
* `LockTime.compare_eq_ok`, `LockTime.checkAbsolute_eq_ok`, `LockTime.checkRelative_eq_ok`: The
  comparisons.
* `LockTime.check_absolute_eq_ok`, `LockTime.check_relative_eq_ok`: The operations.
* `Instruction.leaves_execute_lockTime`: What is left alone by an instruction.
* `Instruction.locks_exact`: Both operations, as instructions.
-/

namespace Bitcoin

namespace LockTime

variable {rules : Rules} {frame frame' : Frame} {context : Context} {input : Nat}

/-- The integer that is required: that of the top element, which has at most five bytes, and
    no superfluous one if the rules are such. -/
def Operand (rules : Rules) (stack : Stack) (v : Int) : Prop :=
  ∃ element below, stack = element :: below ∧ element.length ≤ 5 ∧
    (rules.has .minimalData = true → Number.isMinimal element = true) ∧ Number.decode element = v

/-- The lock time of the transaction is of the same kind as an integer and not below it, and
    the input is not final. -/
structure AbsoluteMet (context : Context) (input : Nat) (v : Int) : Prop where
  kind : v < 500000000 ↔ context.lockTime.toNat < 500000000
  reached : v ≤ context.lockTime.toNat
  notFinal : context.sequence input ≠ 0xffffffff

/-- The transaction is of a version that has relative locks, and the sequence number of the
    input is one of the same kind as an integer and not below it in its low bits. -/
structure RelativeMet (context : Context) (input : Nat) (v : Int) : Prop where
  version : 2 ≤ context.version
  enabled : (context.sequence input).toNat.testBit 31 = false
  kind : v.toNat.testBit 22 = (context.sequence input).toNat.testBit 22
  reached : v % 65536 ≤ (context.sequence input).toNat % 65536

/-- What is left of a relative lock is the bit of its kind and its low bits. -/
theorem land_relativeMask (n : Nat) :
    n &&& relativeMask = 2 ^ 22 * (n.testBit 22).toNat + n % 65536 := by
  have hlow : n % 2 ^ 16 < 2 ^ 22 := by omega
  have hmask : relativeMask = 2 ^ 22 ||| (2 ^ 16 - 1) := by decide
  calc n &&& relativeMask
      = n &&& 2 ^ 22 ||| n &&& (2 ^ 16 - 1) := by rw [hmask, Nat.and_or_distrib_left]
    _ = 2 ^ 22 * (n.testBit 22).toNat ||| n % 2 ^ 16 := by
        rw [Nat.and_two_pow, Nat.and_two_pow_sub_one_eq_mod, Nat.mul_comm]
    _ = 2 ^ 22 * (n.testBit 22).toNat + n % 65536 := (Nat.two_pow_add_eq_or_of_lt hlow _).symm

/-- Two lock times are compared if they are on the same side of the threshold. -/
theorem compare_eq_ok {threshold found required : Nat} :
    compare threshold found required = .ok () ↔
      (required < threshold ↔ found < threshold) ∧ required ≤ found := by
  refine Result.refuse_eq_ok.trans (and_congr ?_ (Result.refuse_eq_ok.trans ?_))
  · rw [ne_eq, not_not, eq_iff_iff]
    exact Iff.comm
  · exact (and_iff_left rfl).trans Nat.not_lt

/-- Masked quantities are compared as if they were absolute ones. -/
theorem compare_masked_eq_ok {found required : Nat} :
    compare timeFlag (found &&& relativeMask) (required &&& relativeMask) = .ok () ↔
      required.testBit 22 = found.testBit 22 ∧ required % 65536 ≤ found % 65536 := by
  have hthreshold : timeFlag = 2 ^ 22 := rfl
  rw [compare_eq_ok, land_relativeMask, land_relativeMask, hthreshold]
  -- Both sides are of one kind or another, and the low bits do not reach the threshold.
  have hrequired : required % 65536 < 65536 := Nat.mod_lt _ (by decide)
  have hfound : found % 65536 < 65536 := Nat.mod_lt _ (by decide)
  cases required.testBit 22 <;> cases found.testBit 22 <;>
    simp only [Bool.toNat_true, Bool.toNat_false, reduceCtorEq, true_and, false_and, iff_false] <;>
    omega

/-- The three conditions on the time of the transaction. -/
theorem checkAbsolute_eq_ok {n : Nat} :
    checkAbsolute context input n = .ok () ↔ AbsoluteMet context input n := by
  refine Result.check_eq_ok.trans ?_
  refine (and_congr compare_eq_ok (Result.refuse_eq_ok.trans (and_iff_left rfl))).trans ?_
  constructor
  · rintro ⟨⟨hkind, hreached⟩, hfinal⟩
    exact ⟨Int.ofNat_lt.trans hkind, Int.ofNat_le.mpr hreached, hfinal⟩
  · rintro ⟨hkind, hreached, hfinal⟩
    exact ⟨⟨Int.ofNat_lt.symm.trans hkind, Int.ofNat_le.mp hreached⟩, hfinal⟩

/-- The four conditions on the sequence number. -/
theorem checkRelative_eq_ok {n : Nat} :
    checkRelative context input n = .ok () ↔ RelativeMet context input n := by
  refine (Result.guard_eq_ok.trans (and_congr UInt32.not_lt
    (Result.guard_eq_ok.trans (and_congr Bool.eq_false_iff.symm compare_masked_eq_ok)))).trans ?_
  constructor
  · rintro ⟨hversion, henabled, hkind, hreached⟩
    exact ⟨hversion, henabled, hkind, Int.ofNat_le.mpr hreached⟩
  · rintro ⟨hversion, henabled, hkind, hreached⟩
    exact ⟨hversion, henabled, hkind, Int.ofNat_le.mp hreached⟩

/-- The operand is read from the top element. -/
theorem read_eq_ok {v : Int} :
    (Stack.peekNumber 0 ⟨maxLength, rules.has .minimalData⟩ : Exec Int) frame = .ok v frame' ↔
      Operand rules frame.stack v ∧ frame = frame' := by
  constructor
  · intro h
    rcases Exec.onStack_eq_ok.mp h with ⟨stack, hnumber, rfl⟩
    rcases Steps.bind_eq_ok.mp hnumber with ⟨element, _, hfound, hread⟩
    rcases Exec.peek_eq_ok.mp hfound with ⟨htop, rfl⟩
    rcases Exec.stackLift_eq_ok.mp hread with ⟨hvalue, rfl⟩
    rcases NumberRule.read_eq_ok.mp hvalue with ⟨hlength, hminimal, hdecode⟩
    -- The operand is the top of the stack, which stays there.
    rcases List.head?_eq_some_iff.mp (List.head?_eq_getElem?.trans htop) with ⟨below, hstack⟩
    exact ⟨⟨element, below, hstack, Nat.not_lt.mp hlength,
      fun h => by_contra fun hc => hminimal ⟨h, hc⟩, hdecode⟩, rfl⟩
  · rintro ⟨⟨element, below, hstack, hlength, hminimal, hdecode⟩, rfl⟩
    have htop : frame.stack[0]? = some element := by rw [hstack]; rfl
    have hvalue : NumberRule.read ⟨maxLength, rules.has .minimalData⟩ element = .ok v :=
      NumberRule.read_eq_ok.mpr ⟨Nat.not_lt.mpr hlength, fun h => h.2 (hminimal h.1), hdecode⟩
    refine Exec.onStack_eq_ok.mpr ⟨frame.stack, Steps.bind_eq_ok.mpr ?_, rfl⟩
    exact ⟨element, _, Exec.peek_eq_ok.mpr ⟨htop, rfl⟩, Exec.stackLift_eq_ok.mpr ⟨hvalue, rfl⟩⟩

/-- What is noted is the operand, which must not be negative. -/
theorem required_eq_ok {n : Nat} :
    required rules frame = .ok n frame' ↔ Operand rules frame.stack n ∧ frame = frame' := by
  constructor
  · intro h
    rcases Steps.bind_eq_ok.mp h with ⟨v, between, hread, hrest⟩
    rcases read_eq_ok.mp hread with ⟨hoperand, rfl⟩
    rcases Steps.guard_eq_ok.mp hrest with ⟨hsign, hreturn⟩
    cases hreturn
    rw [Int.toNat_of_nonneg (Int.not_lt.mp hsign)]
    exact ⟨hoperand, rfl⟩
  · rintro ⟨hoperand, rfl⟩
    refine Steps.bind_eq_ok.mpr ⟨n, frame, read_eq_ok.mpr ⟨hoperand, rfl⟩, ?_⟩
    exact Steps.guard_eq_ok.mpr ⟨Int.not_lt.mpr (Int.natCast_nonneg n), rfl⟩

/-- An absolute lock passes if the transaction meets it. -/
theorem check_absolute_eq_ok :
    check rules .absolute frame = .ok () frame ↔
      ∃ v, Operand rules frame.stack v ∧ 0 ≤ v ∧
        ∃ context, rules.context? = some context ∧ AbsoluteMet context rules.input v := by
  constructor
  · intro h
    rcases Steps.bind_eq_ok.mp h with ⟨n, _, hrequired, hrest⟩
    rcases required_eq_ok.mp hrequired with ⟨hoperand, rfl⟩
    rcases Steps.bind_eq_ok.mp hrest with ⟨context, _, hcontext, hcheck⟩
    rcases Exec.context_eq_ok.mp hcontext with ⟨hgiven, rfl⟩
    exact ⟨n, hoperand, Int.natCast_nonneg n, context, hgiven,
      checkAbsolute_eq_ok.mp (Exec.lift_eq_ok.mp hcheck).1⟩
  · rintro ⟨v, hoperand, hsign, context, hgiven, hmet⟩
    -- An operand that is not negative is a natural number.
    rcases Int.eq_ofNat_of_zero_le hsign with ⟨n, rfl⟩
    refine Steps.bind_eq_ok.mpr ⟨n, frame, required_eq_ok.mpr ⟨hoperand, rfl⟩, ?_⟩
    refine Steps.bind_eq_ok.mpr ⟨context, frame, Exec.context_eq_ok.mpr ⟨hgiven, rfl⟩, ?_⟩
    exact Exec.lift_eq_ok.mpr ⟨checkAbsolute_eq_ok.mpr hmet, rfl⟩

/-- A relative lock passes if it is disabled or if the transaction meets it. -/
theorem check_relative_eq_ok :
    check rules .relative frame = .ok () frame ↔
      ∃ v, Operand rules frame.stack v ∧ 0 ≤ v ∧ (v.toNat.testBit 31 = true ∨
        ∃ context, rules.context? = some context ∧ RelativeMet context rules.input v) := by
  constructor
  · intro h
    rcases Steps.bind_eq_ok.mp h with ⟨n, _, hrequired, hrest⟩
    rcases required_eq_ok.mp hrequired with ⟨hoperand, rfl⟩
    refine ⟨n, hoperand, Int.natCast_nonneg n, ?_⟩
    -- With this bit set, the operand asks for nothing, not even for a transaction.
    by_cases hdisabled : n.testBit disabledBit = true
    · exact .inl hdisabled
    · rw [if_pos (by rw [Bool.eq_false_iff.mpr hdisabled]; rfl)] at hrest
      rcases Steps.bind_eq_ok.mp hrest with ⟨context, _, hcontext, hcheck⟩
      rcases Exec.context_eq_ok.mp hcontext with ⟨hgiven, rfl⟩
      exact .inr ⟨context, hgiven, checkRelative_eq_ok.mp (Exec.lift_eq_ok.mp hcheck).1⟩
  · rintro ⟨v, hoperand, hsign, hmet⟩
    rcases Int.eq_ofNat_of_zero_le hsign with ⟨n, rfl⟩
    refine Steps.bind_eq_ok.mpr ⟨n, frame, required_eq_ok.mpr ⟨hoperand, rfl⟩, ?_⟩
    by_cases hdisabled : n.testBit disabledBit = true
    · rw [if_neg (by rw [hdisabled]; exact Bool.false_ne_true)]
      rfl
    · rcases hmet.resolve_left hdisabled with ⟨context, hgiven, hmet⟩
      rw [if_pos (by rw [Bool.eq_false_iff.mpr hdisabled]; rfl)]
      refine Steps.bind_eq_ok.mpr ⟨context, frame, Exec.context_eq_ok.mpr ⟨hgiven, rfl⟩, ?_⟩
      exact Exec.lift_eq_ok.mpr ⟨checkRelative_eq_ok.mpr hmet, rfl⟩

end LockTime

namespace Instruction

/-- As an instruction it is counted as well, and that is all. -/
theorem leaves_execute_lockTime {γ : Type} {look : Frame → γ} {instruction : Instruction}
    {op : LockTimeOp} (hoperation : instruction.operation = .lockTime op)
    (hlook : ∀ frame operations, look { frame with operations } = look frame) (rules : Rules) :
    Exec.Leaves look (instruction.execute rules) := by
  have hperform : Exec.Leaves look (instruction.perform rules) := by
    rw [perform, hoperation]
    exact LockTime.leaves_execute rules op
  have hcount : Exec.Leaves look (Exec.countOperations rules 1) :=
    .bind (.modify fun frame => hlook frame _) fun _ => .read fun _ => .ite (.throw _) (.pure _)
  have hlive : Exec.Leaves look (do
      if (← get).isLive ∨ instruction.operation.isConditional then instruction.perform rules) :=
    .read fun _ => .ite hperform (.pure _)
  exact .guard (.ite (.bind hcount fun _ => .guard hlive) (.guard hlive))

/-- Where they are in force, an absolute lock passes exactly if the top element is an integer
    that is not negative and the transaction meets it, and a relative lock exactly if the
    integer is disabled or the transaction meets it. In force or not, passed or not, they leave
    the frame as it is. As instructions, which are counted and may be refused before, they
    leave both stacks. An input that a transaction does not have is final. -/
theorem locks_exact (rules : Rules) (data : Bytes) (offset : Nat) (frame : Frame) :
    (rules.has .absoluteLock = true →
      (perform rules ⟨0xb1, data, offset⟩ frame = .ok () frame ↔
        ∃ v, LockTime.Operand rules frame.stack v ∧ 0 ≤ v ∧
          ∃ context, rules.context? = some context ∧
            LockTime.AbsoluteMet context rules.input v)) ∧
    (rules.has .relativeLock = true →
      (perform rules ⟨0xb2, data, offset⟩ frame = .ok () frame ↔
        ∃ v, LockTime.Operand rules frame.stack v ∧ 0 ≤ v ∧ (v.toNat.testBit 31 = true ∨
          ∃ context, rules.context? = some context ∧
            LockTime.RelativeMet context rules.input v))) ∧
    (∀ op : UInt8, op = 0xb1 ∨ op = 0xb2 →
      (perform rules ⟨op, data, offset⟩).after frame = frame ∧
      ((execute rules ⟨op, data, offset⟩).after frame).stack = frame.stack ∧
      ((execute rules ⟨op, data, offset⟩).after frame).alt = frame.alt) ∧
    ∀ (tx : Transaction) (index : Nat), tx.inputs.length ≤ index →
      tx.context.sequence index = 0xffffffff := by
  refine ⟨fun hflag => ?_, fun hflag => ?_, fun op hop => ?_, fun tx index hindex => ?_⟩
  · have hperform : perform rules ⟨0xb1, data, offset⟩ = LockTime.check rules .absolute :=
      if_pos hflag
    rw [hperform]
    exact LockTime.check_absolute_eq_ok
  · have hperform : perform rules ⟨0xb2, data, offset⟩ = LockTime.check rules .relative :=
      if_pos hflag
    rw [hperform]
    exact LockTime.check_relative_eq_ok
  · -- Both opcodes are lock times, which look at the frame and leave it alone.
    have hoperation : ∃ lock, operation ⟨op, data, offset⟩ = .lockTime lock := by
      rcases hop with rfl | rfl
      · exact ⟨.absolute, rfl⟩
      · exact ⟨.relative, rfl⟩
    rcases hoperation with ⟨lock, hoperation⟩
    have hperform : Exec.Leaves id (perform rules ⟨op, data, offset⟩) := by
      rw [perform, hoperation]
      exact LockTime.leaves_execute rules lock
    exact ⟨hperform frame,
      leaves_execute_lockTime hoperation (fun _ _ => rfl) rules frame,
      leaves_execute_lockTime hoperation (fun _ _ => rfl) rules frame⟩
  · change tx.sequenceOf index = 0xffffffff
    rw [Transaction.sequenceOf, List.getElem?_eq_none hindex]

-- At the threshold of absolute locks, with bits above the highest one that counts, and at the
-- first number that no input has.
theorem locks_exact_bounds :
    let context : Context :=
      { verifySignature := fun _ _ _ _ => false
        lockTime := 500000000
        version := 2
        sequence := fun _ => 0x0040000a }
    let rules : Rules := { flags := ⟨0x640⟩, context? := some context, input := 3 }
    let tx : Transaction := { version := 2, inputs := [], outputs := [], lockTime := 0 }
    perform rules ⟨0xb1, [], 0⟩ (.start [[0x00, 0x65, 0xcd, 0x1d]] [] [])
        = .ok () (.start [[0x00, 0x65, 0xcd, 0x1d]] [] []) ∧
      perform rules ⟨0xb2, [], 0⟩ (.start [[0x0a, 0x00, 0x40, 0x00, 0x7f]] [] [])
        = .ok () (.start [[0x0a, 0x00, 0x40, 0x00, 0x7f]] [] []) ∧
      (perform rules ⟨0xb1, [], 0⟩).after (.start [] [] []) = .start [] [] [] ∧
      tx.context.sequence 0 = 0xffffffff := by
  intro context rules tx
  refine ⟨?_, ?_, ?_, ?_⟩
  · refine ((locks_exact rules [] 0 _).1 (by decide)).mpr
      ⟨500000000, ⟨_, _, rfl, by decide, fun _ => by decide, by decide⟩, by decide, context, rfl,
        ?_⟩
    exact ⟨by decide, by decide, by decide⟩
  · refine ((locks_exact rules [] 0 _).2.1 (by decide)).mpr
      ⟨0x7f0040000a, ⟨_, _, rfl, by decide, fun _ => by decide, by decide⟩, by decide,
        .inr ⟨context, rfl, ?_⟩⟩
    exact ⟨by decide, by decide, by decide, by decide⟩
  · exact ((locks_exact rules [] 0 _).2.2.1 0xb1 (.inl rfl)).1
  · exact (locks_exact rules [] 0 (.start [] [] [])).2.2.2 tx 0 (Nat.le_refl 0)

end Instruction

end Bitcoin
