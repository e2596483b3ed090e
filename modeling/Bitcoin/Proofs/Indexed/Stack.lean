import Bitcoin.Proofs.Indexed.Element
import Bitcoin.Machine.Execute
import Bitcoin.Proofs.Machine.Rearrangement

/-!
# Stacks with Their Top at the End

A stack may be kept in a list that grows at its end. Elements are still counted from the
top, so the place of an element is the difference of the length and its number, and one
less. All places that are computed in this way are in the list, as the number has been
compared with the length before.

Turned around, such a list is the stack with its top in front, and every operation does
to the one what it does to the other.

## Main definitions

* `Items`, `ItemsM`: A list as a stack, and computations on one.
* `Items.place`: Where an element stands.
* `Items.peek`, `Items.nip`, `Items.popNumber`, `Items.dup`, `Items.drop`: The operations.

## Theorems

* `Items.mirrors_peek`, `Items.mirrors_nip`, `Items.mirrors_push`: Single elements.
* `Items.mirrors_dup`, `Items.mirrors_rot`, `Items.mirrors_drop`: Several elements.
* `Items.length_of_popMany`: As many elements are taken as are asked for.
-/

namespace Bitcoin

open Access

/-- Byte strings, top last. -/
abbrev Items := List Bytes

/-- A computation on a list that is a stack. -/
abbrev ItemsM := EStateM (Stop Fault) Items

namespace Items

/-- Where the element with a number, counted from the top, stands. -/
def place (index : Nat) : ItemsM Nat := do
  let size := (← get).length
  if size ≤ index then throw (.fault (.stackIndex index size))
  -- The number is less than the length, so at least one is left.
  let above ← need (subtract? size index)
  need (subtract? above 1)

/-- The element with a number. -/
def peek (index : Nat) : ItemsM Bytes := do
  let pos ← place index
  need (← get)[pos]?

/-- Removes the element with a number. -/
def nip (index : Nat) : ItemsM Bytes := do
  let pos ← place index
  let element ← need (← get)[pos]?
  modify (·.eraseIdx pos)
  return element

/-- Puts an element on top. -/
def push (element : Bytes) : ItemsM Unit :=
  modify (· ++ [element])

/-- Puts the minimal string of a number on top. -/
def pushNumber (n : Int) : ItemsM Unit := do
  push (← need (Indexed.encode? n))

/-- Puts a truth value on top. -/
def pushBool (b : Bool) : ItemsM Unit :=
  push (Element.ofBool b)

/-- Removes the top element. -/
def pop : ItemsM Bytes :=
  nip 0

/-- The result of a computation that needs no stack. -/
def lift {α : Type} (result : Except Fault α) : ItemsM α :=
  match result with
  | .ok value => return value
  | .error fault => throw (.fault fault)

/-- Removes the top element and reads it as a number. -/
def popNumber (rule : NumberRule) : ItemsM Int := do
  lift (rule.read (← pop))

/-- Removes the top element and reads it as a truth value. -/
def popBool : ItemsM Bool := do
  need (Indexed.isTrue? (← pop))

/-- Removes the top `count` elements, top first. -/
def popMany : Nat → ItemsM (List Bytes)
  | 0 => return []
  | count + 1 => do
    let first ← pop
    return first :: (← popMany count)

/-- Reads the element with a number as a number. -/
def peekNumber (index : Nat) (rule : NumberRule) : ItemsM Int := do
  lift (rule.read (← peek index))

/-- Copies the element with a number to the top. -/
def pick (index : Nat) : ItemsM Unit := do
  push (← peek index)

/-- Moves the element with a number to the top. -/
def roll (index : Nat) : ItemsM Unit := do
  push (← nip index)

/-- Does the same so many times. -/
def times : Nat → ItemsM Unit → ItemsM Unit
  | 0, _ => return ()
  | count + 1, action => do
    action
    times count action

/-- Copies the top `n` elements to the top. -/
def dup (n : Nat) : ItemsM Unit :=
  times n do
    pick (← need (subtract? n 1))

/-- The number of the last element of so many rows of `n` elements, if they can be counted with
    a word and there are any. -/
def rowsEnd? (rows n : UInt64) : Option Nat := do
  subtract? (← multiply? rows n) 1

/-- Copies the `n` elements below the top `n` to the top. -/
def copyOver (n : UInt64) : ItemsM Unit := do
  let entry ← need (rowsEnd? 2 n)
  times n.toNat (pick entry)

/-- Moves the `n` elements below the top `n` to the top. -/
def swap (n : UInt64) : ItemsM Unit := do
  let entry ← need (rowsEnd? 2 n)
  times n.toNat (roll entry)

/-- Moves the `n` elements below the top `2 * n` to the top. -/
def rot (n : UInt64) : ItemsM Unit := do
  let entry ← need (rowsEnd? 3 n)
  times n.toNat (roll entry)

/-- Removes the top `n` elements. -/
def drop (n : Nat) : ItemsM Unit := do
  let size := (← get).length
  if size < n then
    -- The fault tells the number of the lowest element that was asked for.
    let last ← need (subtract? n 1)
    throw (.fault (.stackIndex last size))
  let left ← need (subtract? size n)
  modify (·.take left)

/-- Puts a copy of the top element below the second one. -/
def tuck : ItemsM Unit := do
  let first ← pop
  let second ← pop
  push first
  push second
  push first

/-- Where there is an element with a number, as many elements stand behind it. -/
theorem exists_split {items : Items} {index : Nat} (h : index < items.length) :
    ∃ below element above, items = below ++ element :: above ∧ above.length = index := by
  have hpos : items.length - 1 - index < items.length := by omega
  refine ⟨List.take (items.length - 1 - index) items, items[items.length - 1 - index],
    List.drop (items.length - 1 - index + 1) items, ?_, ?_⟩
  · rw [← List.drop_eq_getElem_cons hpos, List.take_append_drop]
  · rw [List.length_drop]
    omega

/-- The place of such an element is behind those below it. -/
theorem place_of_split (below : Items) (element : Bytes) (above : Items) :
    place above.length (below ++ element :: above) =
      .ok below.length (below ++ element :: above) := by
  have hsize : (below ++ element :: above).length = below.length + 1 + above.length := by
    rw [List.length_append, List.length_cons]
    omega
  refine (Steps.bind_ok rfl).trans ?_
  rw [hsize, if_neg (by omega), subtract?_of_le (by omega), Nat.add_sub_cancel]
  change (need (subtract? (below.length + 1) 1) : ItemsM Nat) _ = _
  rw [subtract?_of_le (by omega)]
  rfl

/-- The top of the stack is the last element of the list. -/
theorem peek_concat (below : Items) (top : Bytes) :
    peek 0 (below ++ [top]) = .ok top (below ++ [top]) := by
  refine (Steps.bind_ok (place_of_split below top [])).trans ?_
  change (need (below ++ [top])[below.length]? : ItemsM Bytes) _ = _
  rw [List.getElem?_concat_length]
  rfl

/-- An element that is not there has no place. -/
theorem place_of_le {items : Items} {index : Nat} (h : items.length ≤ index) :
    place index items = .error (.fault (.stackIndex index items.length)) items := by
  refine (Steps.bind_ok rfl).trans ?_
  rw [if_pos h]
  rfl

/-- Counted from the top in a list that grows at its end, an element is found at the position that
    is computed. -/
theorem mirrors_peek (index : Nat) : Mirrors List.reverse (peek index) (Stack.peek index) := by
  intro items
  by_cases h : index < items.length
  · -- The list is cut at this element, and the length of what is above it is the index.
    rcases exists_split h with ⟨below, element, above, rfl, rfl⟩
    have hget : (below ++ element :: above)[below.length]? = some element := by simp
    have hreverse : (below ++ element :: above).reverse[above.length]? = some element := by simp
    rw [peek, Steps.bind_ok (place_of_split below element above), Stack.peek, hreverse]
    change seen List.reverse ((need (below ++ element :: above)[below.length]? :
      ItemsM Bytes) _) = _
    rw [hget]
    rfl
  · have hreverse : items.reverse[index]? = none :=
      List.getElem?_eq_none (by rw [List.length_reverse]; omega)
    rw [peek, Steps.bind_error (place_of_le (Nat.le_of_not_lt h)), Stack.peek, hreverse,
      List.length_reverse]
    rfl

/-- The element that is found is the one that is removed. -/
theorem mirrors_nip (index : Nat) : Mirrors List.reverse (nip index) (Stack.nip index) := by
  intro items
  by_cases h : index < items.length
  · rcases exists_split h with ⟨below, element, above, rfl, rfl⟩
    have hget : (below ++ element :: above)[below.length]? = some element := by simp
    have hreverse : (below ++ element :: above).reverse[above.length]? = some element := by simp
    -- What is removed is the same element, counted from one end or from the other.
    have herase : (below ++ element :: above).reverse.eraseIdx above.length
        = ((below ++ element :: above).eraseIdx below.length).reverse := by
      simp [List.eraseIdx_append_of_length_le]
    rw [nip, Steps.bind_ok (place_of_split below element above)]
    change seen List.reverse ((need (below ++ element :: above)[below.length]? >>= fun element => do
      modify (·.eraseIdx below.length)
      return element : ItemsM Bytes) _) = _
    rw [hget, Stack.nip, hreverse]
    simp only [herase]
    rfl
  · have hreverse : items.reverse[index]? = none :=
      List.getElem?_eq_none (by rw [List.length_reverse]; omega)
    rw [nip, Steps.bind_error (place_of_le (Nat.le_of_not_lt h)), Stack.nip, hreverse,
      List.length_reverse]
    rfl

theorem mirrors_push (element : Bytes) :
    Mirrors List.reverse (push element) (Stack.push element) :=
  fun _ => congrArg (fun stack => some (EStateM.Result.ok () stack)) List.reverse_concat

theorem mirrors_pushNumber (n : Int) :
    Mirrors List.reverse (pushNumber n) (Stack.pushNumber n) :=
  .need (Indexed.encode?_eq n) (mirrors_push _)

theorem mirrors_lift {α : Type} (result : Except Fault α) :
    Mirrors List.reverse (lift result) (Stack.lift result) := by
  rcases result with fault | value
  · exact .throw fault
  · exact .pure value

theorem mirrors_popNumber (rule : NumberRule) :
    Mirrors List.reverse (popNumber rule) (Stack.popNumber rule) :=
  (mirrors_nip 0).bind fun _ => mirrors_lift _

theorem mirrors_popBool : Mirrors List.reverse popBool Stack.popBool :=
  (mirrors_nip 0).bind fun element => .found (Indexed.isTrue?_eq element)

/-- Several elements are popped one by one. -/
theorem mirrors_popMany (count : Nat) :
    Mirrors List.reverse (popMany count) (Stack.popMany count) := by
  induction count with
  | zero => exact .pure []
  | succ count ih => exact (mirrors_nip 0).bind fun _ => ih.bind fun _ => .pure _

/-- As many elements are taken as are asked for. -/
theorem length_of_popMany (count : Nat) :
    Steps.Ensures (fun _ => True) (popMany count) fun taken _ => taken.length = count := by
  induction count with
  | zero => exact .pure fun _ _ => rfl
  | succ count ih =>
      refine .bind (Q := fun _ _ => True) (fun _ _ _ _ _ => trivial) fun first => ?_
      exact ih.bind fun rest => .pure fun _ hrest => congrArg Nat.succ hrest

theorem mirrors_peekNumber (index : Nat) (rule : NumberRule) :
    Mirrors List.reverse (peekNumber index rule) (Stack.peekNumber index rule) :=
  (mirrors_peek index).bind fun _ => mirrors_lift _

theorem mirrors_pick (index : Nat) : Mirrors List.reverse (pick index) (Stack.pick index) :=
  (mirrors_peek index).bind fun _ => mirrors_push _

theorem mirrors_roll (index : Nat) : Mirrors List.reverse (roll index) (Stack.roll index) :=
  (mirrors_nip index).bind fun _ => mirrors_push _

/-- What is done over and over does the same each time. -/
theorem mirrors_times {action : ItemsM Unit} {action' : StackM Unit} (count : Nat)
    (h : Mirrors List.reverse action action') :
    Mirrors List.reverse (times count action) (Stack.times count action') := by
  induction count with
  | zero => exact .pure ()
  | succ count ih => exact h.bind fun _ => ih

theorem mirrors_dup {n : Nat} (h : 0 < n) : Mirrors List.reverse (dup n) (Stack.dup n) :=
  mirrors_times n (.need (subtract?_of_le h) (mirrors_pick _))

section
variable {rows n : UInt64} (hn : 0 < n.toNat)
include hn

/-- Where the product fits into a word, nothing is lost in it, and there is room for one less. -/
theorem rowsEnd?_eq (hrows : 0 < rows.toNat) (hfits : rows.toNat * n.toNat < 2 ^ 64) :
    rowsEnd? rows n = some (Stack.rowsEnd rows n).toNat := by
  have hpos : 0 < rows.toNat * n.toNat := Nat.mul_pos hrows hn
  rw [rowsEnd?, multiply?_of_lt hfits, Option.bind_eq_bind, Option.bind_some,
    subtract?_of_le hpos, ← Stack.toNat_rowsEnd hpos hfits, Nat.add_sub_cancel]

theorem mirrors_copyOver (hfits : 2 * n.toNat < 2 ^ 64) :
    Mirrors List.reverse (copyOver n) (Stack.copyOver n) :=
  .need (rowsEnd?_eq hn (by decide) hfits) (mirrors_times _ (mirrors_pick _))

theorem mirrors_swap (hfits : 2 * n.toNat < 2 ^ 64) :
    Mirrors List.reverse (swap n) (Stack.swap n) :=
  .need (rowsEnd?_eq hn (by decide) hfits) (mirrors_times _ (mirrors_roll _))

theorem mirrors_rot (hfits : 3 * n.toNat < 2 ^ 64) :
    Mirrors List.reverse (rot n) (Stack.rot n) :=
  .need (rowsEnd?_eq hn (by decide) hfits) (mirrors_times _ (mirrors_roll _))

end

/-- More elements are only removed than there are if some are to be removed. -/
theorem mirrors_drop (n : Nat) : Mirrors List.reverse (drop n) (Stack.drop n) := by
  intro items
  rw [Stack.drop, List.length_reverse]
  by_cases h : items.length < n
  · -- More elements than there are cannot be dropped, and the number of them is at least one.
    have hrun : drop n items = .error (.fault (.stackIndex (n - 1) items.length)) items := by
      refine (Steps.bind_ok rfl).trans ?_
      rw [if_pos h, subtract?_of_le (by omega)]
      rfl
    rw [hrun, if_pos h]
    rfl
  · have hrun : drop n items = .ok () (List.take (items.length - n) items) := by
      refine (Steps.bind_ok rfl).trans ?_
      rw [if_neg h, subtract?_of_le (by omega)]
      rfl
    rw [hrun, if_neg h, List.drop_reverse]
    rfl

theorem mirrors_tuck : Mirrors List.reverse tuck Stack.tuck :=
  (mirrors_nip 0).bind fun _ => (mirrors_nip 0).bind fun _ => (mirrors_push _).bind fun _ =>
    (mirrors_push _).bind fun _ => mirrors_push _

/-- Replaces the top number by a function of it. -/
def unary (rule : NumberRule) (op : UnaryOp) : ItemsM Unit := do
  let n ← popNumber rule
  pushNumber (op.apply n)

/-- Replaces the top two numbers by a function of them. -/
def binary (rule : NumberRule) (op : BinaryOp) : ItemsM Unit := do
  let b ← popNumber rule
  let a ← popNumber rule
  pushNumber (op.apply a b)

/-- Replaces a number and two bounds above it by whether it is between them. -/
def within (rule : NumberRule) : ItemsM Unit := do
  let upper ← popNumber rule
  let lower ← popNumber rule
  let n ← popNumber rule
  pushBool (lower ≤ n ∧ n < upper)

theorem mirrors_unary (rule : NumberRule) (op : UnaryOp) :
    Mirrors List.reverse (unary rule op) (Arithmetic.unary rule op) :=
  (mirrors_popNumber rule).bind fun _ => mirrors_pushNumber _

theorem mirrors_binary (rule : NumberRule) (op : BinaryOp) :
    Mirrors List.reverse (binary rule op) (Arithmetic.binary rule op) :=
  (mirrors_popNumber rule).bind fun _ => (mirrors_popNumber rule).bind fun _ =>
    mirrors_pushNumber _

theorem mirrors_within (rule : NumberRule) :
    Mirrors List.reverse (within rule) (Arithmetic.within rule) :=
  (mirrors_popNumber rule).bind fun _ => (mirrors_popNumber rule).bind fun _ =>
    (mirrors_popNumber rule).bind fun _ => mirrors_push _

/-- Pushes whether the top two elements, which are removed, are the same bytes. -/
def pushEqual : ItemsM Unit := do
  let a ← pop
  let b ← pop
  pushBool (a = b)

/-- Pushes the length of the top element, which stays. -/
def pushSize : ItemsM Unit := do
  pushNumber (← peek 0).length

theorem mirrors_pushEqual : Mirrors List.reverse pushEqual Instruction.pushEqual :=
  (mirrors_nip 0).bind fun _ => (mirrors_nip 0).bind fun _ => mirrors_push _

theorem mirrors_pushSize : Mirrors List.reverse pushSize Instruction.pushSize :=
  (mirrors_peek 0).bind fun _ => mirrors_pushNumber _

end Items

end Bitcoin
