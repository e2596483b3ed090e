import Bitcoin.Proofs.Machine.Arithmetic
import Bitcoin.Proofs.Machine.Operations
import Bitcoin.Proofs.Machine.Rounds

/-!
# Truth Values and Numbers

An element is true if some byte of it is not zero, where a last byte that is nothing but a
sign counts as zero. The same bytes are the digits of a number. So an element is true exactly
if its number is not zero, however long it is: zeros that fill it up are digits without
value, and a sign without digits is the sign of zero. Length and form decide whether an
element may be an operand, but its truth does not depend on them.

Whether the top element is true is asked where a block is opened, where the element is
duplicated, where a script checks it, and where a run ends. The answers are all the same, and
the operation that asks whether a number is not zero puts this answer on the stack. Two rules
ask for more than truth where they are in force: conditions have one of two forms, and a run
ends with nothing below the top element.

## Main definitions

* `Flow.Unclear`: A condition that has neither of the two forms.
* `Frame.TakenFor`: The top element passes for true, or for false, with all that ask.

## Theorems

* `Bytes.toNatLE_eq_zero_iff`, `Number.magnitude_eq_zero_iff`: The digits of zero.
* `Element.isTrue_concat_eq_false_iff`, `Element.isTrue_iff_decode`: An element is true if its
  number is not zero.
* `Flow.popCondition_cons`, `Flow.openBlock_cons`, `Shuffle.dupIfTrue_cons`,
  `Exec.verifyTop_cons`: What is done with the top element.
* `Machine.judge_cons_eq_ok_iff`, `Machine.judge_eq_falseResult_iff`: How a run ends with it.
* `Frame.takenFor_iff`: All that ask find the truth of the element.
* `Arithmetic.notZero_leaves`: What the question whether a number is not zero leaves.
* `Element.readings_agree`: The truth of an element, its number, and what is asked of both.
-/

namespace Bitcoin

/-- Zero is the number of the strings of zeros. -/
theorem Bytes.toNatLE_eq_zero_iff {bytes : Bytes} :
    toNatLE bytes = 0 ↔ ∀ byte ∈ bytes, byte = 0 := by
  induction bytes with
  | nil => exact ⟨fun _ => nofun, fun _ => rfl⟩
  | cons byte rest ih =>
      have hbyte : byte.toNat = 0 ↔ byte = 0 := UInt8.toNat_inj (b := 0)
      rw [List.forall_mem_cons, ← ih, ← hbyte, toNatLE]
      omega

/-- The magnitude of a string is zero if all bytes before the last one are zero and the last
    one is nothing but a sign. -/
theorem Number.magnitude_eq_zero_iff {low : Bytes} {last : UInt8} :
    magnitude low last = 0 ↔ (∀ byte ∈ low, byte = 0) ∧ (last = 0 ∨ last = 0x80) := by
  have hlast : last.toNat % 128 = 0 ↔ last = 0 ∨ last = 0x80 := by
    have hlt := last.toNat_lt
    have hzero : last.toNat = 0 ↔ last = 0 := UInt8.toNat_inj (b := 0)
    have hsign : last.toNat = 128 ↔ last = 0x80 := UInt8.toNat_inj (b := 0x80)
    rw [← hzero, ← hsign]
    omega
  have hweight : 256 ^ low.length ≠ 0 := Nat.ne_of_gt (Nat.pow_pos (by decide))
  rw [magnitude, Nat.add_eq_zero_iff, Nat.mul_eq_zero, or_iff_right hweight,
    Bytes.toNatLE_eq_zero_iff, hlast]

namespace Element

/-- What makes a string false. The induction is on the bytes before the last one, of which
    the first one that is not zero decides. -/
theorem isTrue_concat_eq_false_iff {low : Bytes} {last : UInt8} :
    isTrue (low ++ [last]) = false ↔ (∀ byte ∈ low, byte = 0) ∧ (last = 0 ∨ last = 0x80) := by
  induction low with
  | nil =>
      change decide (last ≠ 0 ∧ last ≠ 0x80) = false ↔ _
      rw [decide_eq_false_iff_not, not_and_or, not_not, not_not]
      exact (and_iff_right nofun).symm
  | cons byte low ih =>
      -- A byte with others behind it is looked at in one way, whatever these are.
      have hcons : isTrue (byte :: low ++ [last])
          = if byte = 0 then isTrue (low ++ [last]) else true := by
        rcases low with _ | ⟨next, low⟩
        · rfl
        · rfl
      rw [hcons, List.forall_mem_cons]
      by_cases hzero : byte = 0
      · rw [if_pos hzero, ih, and_iff_right hzero]
      · rw [if_neg hzero]
        exact ⟨nofun, fun h => absurd h.1.1 hzero⟩

/-- An element is true exactly if the number that it stands for is not zero. -/
theorem isTrue_iff_decode {element : Bytes} :
    isTrue element = true ↔ Number.decode element ≠ 0 := by
  rw [← Bool.not_eq_false]
  refine not_congr ?_
  rcases element.eq_nil_or_concat with rfl | ⟨low, last, rfl⟩
  · exact ⟨fun _ => rfl, fun _ => rfl⟩
  · rw [List.concat_eq_append, isTrue_concat_eq_false_iff, ← Number.magnitude_eq_zero_iff,
      ← Number.natAbs_decode_concat, Int.natAbs_eq_zero]

end Element

namespace NumberRule

variable {rule : NumberRule} {element : Bytes} {n : Int}

theorem accepts_of_read (h : rule.read element = .ok n) : rule.Accepts element := by
  rcases read_eq_ok.mp h with ⟨hlength, hform, -⟩
  exact ⟨Nat.not_lt.mp hlength, fun hrule => not_not.mp fun hc => hform ⟨hrule, hc⟩⟩

/-- Without a limit on its length and a rule on its form every string is a number. -/
theorem read_unlimited (element : Bytes) :
    NumberRule.read ⟨element.length, false⟩ element = .ok (Number.decode element) :=
  read_of_accepts ⟨Nat.le_refl _, nofun⟩

end NumberRule

/-- The rule on conditions refuses a string: it is in force, and the string is neither of
    those that truth values have. -/
def Flow.Unclear (rules : Rules) (element : Bytes) : Prop :=
  rules.has .minimalIf = true ∧ element ≠ [] ∧ element ≠ [1]

instance (rules : Rules) (element : Bytes) : Decidable (Flow.Unclear rules element) :=
  inferInstanceAs (Decidable (_ ∧ _ ∧ _))

/-- The top element passes for true, or for false, with all that ask whether it is true. -/
structure Frame.TakenFor (truth : Bool) (rules : Rules) (offset : Nat) (frame : Frame)
    (top : Bytes) (below : Stack) : Prop where
  /-- A block is opened, with a live first half if the element is true, unless the rule on
      conditions refuses the element. -/
  opens : Instruction.perform rules ⟨0x63, [], offset⟩ frame =
    if Flow.Unclear rules top then .error (.unclearCondition 0x63 top) { frame with stack := below }
    else .ok () { frame with stack := below, blocks := truth :: frame.blocks }
  /-- An element that is true is there twice afterwards. -/
  duplicates : Instruction.perform rules ⟨0x73, [], offset⟩ frame =
    .ok () { frame with stack := if truth then top :: top :: below else top :: below }
  /-- An element that is false makes the script fail. -/
  verifies : Instruction.perform rules ⟨0x69, [], offset⟩ frame =
    if truth then .ok () { frame with stack := below }
    else .error (.failedCheck .verify) { frame with stack := below }
  /-- A run may end with an element that is true, and with nothing below it where this is
      asked for. -/
  concludes : Machine.judge rules frame.stack = .ok () ↔
    truth = true ∧ (rules.has .cleanStack = true → below = [])
  /-- An element that is false is what a run fails by, whatever lies below it. -/
  rejected : Machine.judge rules frame.stack = .error .falseResult ↔ truth = false

section
variable {rules : Rules} {frame : Frame} {top : Bytes} {below : Stack}

/-- A condition is the truth of the top element, which is taken even if its form is wrong. -/
theorem Flow.popCondition_cons (rules : Rules) (op : UInt8) (hstack : frame.stack = top :: below) :
    popCondition rules op frame =
      if Unclear rules top then .error (.unclearCondition op top) { frame with stack := below }
      else .ok (Element.isTrue top) { frame with stack := below } := by
  have hget : (get : Exec Frame) frame = .ok frame frame := rfl
  have hthere : ¬frame.stack.isEmpty = true := by
    rw [hstack]
    exact Bool.false_ne_true
  rw [popCondition, Steps.bind_ok hget, if_neg hthere]
  -- The element is gone before its form is looked at, so a refusal leaves the stack without it.
  refine (Steps.bind_ok (Exec.pop_eq_ok.mpr ⟨below, hstack, rfl⟩)).trans ?_
  by_cases hunclear : Unclear rules top
  · rw [if_pos hunclear]
    exact congrFun (if_pos hunclear) _
  · rw [if_neg hunclear]
    exact congrFun (if_neg hunclear) _

/-- Where instructions take effect, a block is opened under that condition. -/
theorem Flow.openBlock_cons (rules : Rules) (op : UInt8) (wanted : Bool)
    (hlive : frame.isLive = true) (hstack : frame.stack = top :: below) :
    openBlock rules op wanted frame =
      if Unclear rules top then .error (.unclearCondition op top) { frame with stack := below }
      else .ok () { frame with
        stack := below, blocks := (Element.isTrue top == wanted) :: frame.blocks } := by
  have hget : (get : Exec Frame) frame = .ok frame frame := rfl
  have hcondition := popCondition_cons rules op hstack
  rw [openBlock, Steps.bind_ok hget, if_pos hlive]
  -- All that can fail is the reading of the condition.
  by_cases hunclear : Unclear rules top
  · rw [if_pos hunclear] at hcondition ⊢
    exact Steps.bind_error hcondition
  · rw [if_neg hunclear] at hcondition ⊢
    exact Steps.bind_ok hcondition

/-- An element that is true is copied. -/
theorem Shuffle.dupIfTrue_cons : dupIfTrue (top :: below) =
    .ok () (if Element.isTrue top then top :: top :: below else top :: below) := by
  have hpeek : Stack.peek 0 (top :: below) = .ok top (top :: below) := rfl
  rw [dupIfTrue, Steps.bind_ok hpeek]
  by_cases htrue : Element.isTrue top = true
  · rw [if_pos htrue, if_pos htrue]
    rfl
  · rw [if_neg htrue, if_neg htrue]
    rfl

/-- A check fails by an element that is false. -/
theorem Exec.verifyTop_cons (check : Check) (hstack : frame.stack = top :: below) :
    verifyTop check frame =
      if Element.isTrue top then .ok () { frame with stack := below }
      else .error (.failedCheck check) { frame with stack := below } := by
  have hbool := Exec.onStack_eq_ok.mpr ⟨below, Stack.popBool_eq_ok.mpr ⟨top, hstack, rfl⟩, rfl⟩
  refine (Steps.bind_ok hbool).trans ?_
  rcases Element.isTrue top with _ | _
  · rfl
  · rfl

/-- The judgement finds an element false, whatever else it might find. -/
theorem Machine.judge_eq_falseResult_iff :
    judge rules (top :: below) = .error .falseResult ↔ Element.isTrue top = false := by
  have hrequire : requireTrue (top :: below) =
      if Element.isTrue top = true then .ok () else .error .falseResult := rfl
  rw [judge, Result.bind_eq_error, hrequire]
  constructor
  · rintro (hfalse | ⟨_, -, hclean⟩)
    · by_contra htrue
      rw [if_pos (Bool.eq_true_of_not_eq_false htrue)] at hfalse
      cases hfalse
    · -- The demand for a clean stack has an error of its own.
      rcases Result.refuse_eq_error.mp hclean with ⟨-, hunclean⟩ | ⟨-, hpass⟩
      · cases hunclean
      · cases hpass
  · intro hfalse
    exact .inl (if_neg (Bool.eq_false_iff.mp hfalse))

theorem Machine.judge_cons_eq_ok_iff : judge rules (top :: below) = .ok () ↔
    Element.isTrue top = true ∧ (rules.has .cleanStack = true → below = []) := by
  rw [judge_eq_ok_iff, List.length_cons, Nat.add_eq_right, List.length_eq_zero_iff]
  refine and_congr_left fun _ => ⟨?_, fun htrue => ⟨top, below, rfl, htrue⟩⟩
  rintro ⟨_, _, hstack, htrue⟩
  cases hstack
  exact htrue

/-- All that ask whether the top element is true find the same, and it is nothing but the
    truth of the element. -/
theorem Frame.takenFor_iff (offset : Nat) (hlive : frame.isLive = true)
    (hstack : frame.stack = top :: below) (truth : Bool) :
    frame.TakenFor truth rules offset top below ↔ Element.isTrue top = truth := by
  constructor
  · intro h
    -- A judgement that finds the element false says so, whatever else is wrong with the stack.
    have hrejected := h.rejected
    rw [hstack, Machine.judge_eq_falseResult_iff, ← Bool.not_eq_true, ← Bool.not_eq_true]
      at hrejected
    exact Bool.eq_iff_iff.mpr (not_iff_not.mp hrejected)
  · rintro rfl
    refine ⟨?_, ?_, Exec.verifyTop_cons .verify hstack, ?_, ?_⟩
    · have hopen := Flow.openBlock_cons rules 0x63 true hlive hstack
      rwa [beq_true] at hopen
    · refine Exec.onStack_eq_ok.mpr ⟨_, ?_, rfl⟩
      rw [hstack]
      exact Shuffle.dupIfTrue_cons
    · rw [hstack]
      exact Machine.judge_cons_eq_ok_iff
    · rw [hstack]
      exact Machine.judge_eq_falseResult_iff

/-- The question whether a number is not zero is answered by an element that is true if it is
    not. -/
theorem Arithmetic.notZero_leaves {n : Int} (hstack : frame.stack = top :: below)
    (hread : rules.numbers.read top = .ok n) :
    ∃ left, execute rules (.unary .notZero) frame = .ok () { frame with stack := left :: below } ∧
      (Element.isTrue left = true ↔ n ≠ 0) := by
  have haccepts := NumberRule.accepts_of_read hread
  cases (NumberRule.read_of_accepts haccepts).symm.trans hread
  have hholds : Holds rules.numbers (.unary .notZero) frame.stack [top] below :=
    ⟨hstack, rfl, List.forall_mem_singleton.mpr haccepts⟩
  refine ⟨_, hholds.execute_ok rfl, ?_⟩
  rw [Element.isTrue_iff_decode, Number.decode_encode]
  split
  · next hzero => exact ⟨fun h => absurd rfl h, fun h => absurd hzero h⟩
  · next hzero => exact ⟨fun _ => hzero, fun _ => by decide⟩

end

namespace Element

/-- A string of any length is true exactly if it is read as a number that is not zero. So where
    the top element may be an operand, the question whether it is not zero leaves an element
    that is true exactly if the one before it passes for true with all that ask. -/
theorem readings_agree (rules : Rules) (offset : Nat) (frame : Frame) (element : Bytes) :
    (∃ n, NumberRule.read ⟨element.length, false⟩ element = .ok n ∧
      (isTrue element = true ↔ n ≠ 0)) ∧
    ∀ (n : Int) (below : Stack), frame.isLive = true → frame.stack = element :: below →
      rules.numbers.read element = .ok n →
      ∃ left, Instruction.perform rules ⟨0x92, [], offset⟩ frame =
          .ok () { frame with stack := left :: below } ∧
        (isTrue left = true ↔ n ≠ 0) ∧
        ∀ truth, isTrue left = truth ↔ frame.TakenFor truth rules offset element below := by
  refine ⟨⟨_, NumberRule.read_unlimited element, isTrue_iff_decode⟩, ?_⟩
  intro n below hlive hstack hread
  rcases Arithmetic.notZero_leaves hstack hread with ⟨left, hrun, hleft⟩
  refine ⟨left, hrun, hleft, fun truth => ?_⟩
  have hvalue := (NumberRule.read_eq_ok.mp hread).2.2
  -- What is left is canonical, so the one reading of truth applies to it and to the element.
  have hsame : isTrue left = isTrue element := by
    rw [Bool.eq_iff_iff, hleft, isTrue_iff_decode, hvalue]
  rw [hsame, Frame.takenFor_iff offset hlive hstack]

-- Zero with a sign and a zero in front of it, and a number that needs a byte for its sign.
theorem readings_agree_padded :
    let rules : Rules := { flags := .none }
    rules.numbers.read [0x00, 0x80] = .ok 0 ∧ rules.numbers.read [0x80, 0x00] = .ok 128 ∧
      (Frame.start [[0x00, 0x80]] [] []).TakenFor false rules 0 [0x00, 0x80] [] ∧
      (Frame.start [[0x80, 0x00]] [] []).TakenFor true rules 0 [0x80, 0x00] [] := by
  intro rules
  have hzero : rules.numbers.read [0x00, 0x80] = .ok 0 := by decide
  have hnumber : rules.numbers.read [0x80, 0x00] = .ok 128 := by decide
  refine ⟨hzero, hnumber, ?_, ?_⟩
  · rcases (readings_agree rules 0 (.start [[0x00, 0x80]] [] []) [0x00, 0x80]).2 0 [] rfl rfl hzero
      with ⟨left, -, hleft, hall⟩
    exact (hall false).mp (Bool.eq_false_iff.mpr fun htrue => hleft.mp htrue rfl)
  · rcases (readings_agree rules 0 (.start [[0x80, 0x00]] [] []) [0x80, 0x00]).2 128 [] rfl rfl
      hnumber with ⟨left, -, hleft, hall⟩
    exact (hall true).mp (hleft.mpr (by decide))

end Element

end Bitcoin
