import Bitcoin.Proofs.Result
import Bitcoin.Transaction.Verification
import Mathlib.Data.List.Basic

/-!
# Inputs Shared Out

How the inputs are shared out among workers must not show in the verdicts. A share is a
stretch of consecutive inputs. The shares begin at the multiples of one size, and each ends
where the next one begins, or at the end of the list if that comes first. The size is the
number of inputs over the number of workers, rounded up, and neither needs to divide the
other.

The bounds of the shares are computed here from the two numbers alone, without a list that
is cut up. Every position lies within the bounds of exactly one share, there are no more
shares than workers, and one behind the other the shares are the list that was shared out.
So the verdicts on the shares, put together, are the verdicts on the inputs one by one.

## Main definitions

* `Transaction.shareSize`: How many items a full share has.
* `Transaction.shareBounds`: Where each share begins and ends.

## Theorems

* `Transaction.pieces_eq_extract`: The pieces of a list by position.
* `Transaction.shares_eq_extract`: The shares are the stretches between the bounds.
* `Transaction.existsUnique_shareBounds`: A position lies in exactly one share.
* `Transaction.length_shareBounds_le`: There are no more shares than workers.
* `Transaction.flatten_shares`: Nothing is lost, repeated or moved.
* `Transaction.verifyAll_eq_ok`: The verdicts on all inputs, one by one.
* `Transaction.verifyAll_exact`: All of this together.
-/

namespace Bitcoin.Transaction

section
variable {α : Type}

/-- How many of `count` items a full share has. -/
def shareSize (workers count : Nat) : Nat :=
  (count + min (max 1 workers) count - 1) / min (max 1 workers) count

/-- Where the shares of `count` items begin and end. -/
def shareBounds (workers count : Nat) : List (Nat × Nat) :=
  (List.range' 0 ((count + shareSize workers count - 1) / shareSize workers count)
    (shareSize workers count)).map fun start => (start, min (start + shareSize workers count) count)

-- A quotient that is rounded up is enough.
theorem le_mul_ceil {size : Nat} (hsize : 0 < size) (count : Nat) :
    count ≤ size * ((count + size - 1) / size) := by
  have hnext := Nat.lt_mul_div_succ (count + size - 1) hsize
  rw [Nat.mul_add, Nat.mul_one] at hnext
  omega

/-- Where a full share or what is left is taken away, one share less remains. -/
theorem ceil_eq_succ {size count : Nat} (hsize : 0 < size) (hcount : 0 < count) :
    (count + size - 1) / size = (count - size + size - 1) / size + 1 := by
  rcases Nat.le_total size count with hfull | hrest
  · rw [show count + size - 1 = count - size + size - 1 + size by omega,
      Nat.add_div_right _ hsize]
  · rw [show count + size - 1 = count - 1 + size by omega, Nat.add_div_right _ hsize,
      Nat.div_eq_of_lt (by omega), Nat.div_eq_of_lt (by omega)]

/-- The pieces of what stands behind a position. They begin at every `size`-th position from
    there on, and end where the next one begins or the list ends. -/
theorem pieces_eq_extract {size : Nat} (hsize : 0 < size) (items : List α) (count start : Nat)
    (henough : items.length ≤ start + size * count) :
    pieces size count (items.drop start) =
      (List.range' start ((items.length - start + size - 1) / size) size).map fun first =>
        items.extract first (min (first + size) items.length) := by
  have hnone : (0 + size - 1) / size = 0 := Nat.div_eq_of_lt (by omega)
  induction count generalizing start with
  | zero =>
      rw [Nat.mul_zero, Nat.add_zero] at henough
      rw [pieces, Nat.sub_eq_zero_of_le henough, hnone]
      rfl
  | succ count ih =>
      rw [Nat.mul_add, Nat.mul_one] at henough
      rw [pieces]
      by_cases hend : items.length ≤ start
      · rw [List.drop_eq_nil_of_le hend, Nat.sub_eq_zero_of_le hend, hnone]
        rfl
      · have hempty : (items.drop start).isEmpty = false := by
          rw [List.isEmpty_eq_false_iff]
          exact mt List.drop_eq_nil_iff.mp hend
        rw [hempty, if_neg Bool.false_ne_true, ceil_eq_succ hsize (by omega), List.range'_succ,
          List.map_cons, List.drop_drop, ih (start + size) (by omega), Nat.sub_add_eq]
        congr 1
        -- The first piece may be cut off by the end of the list, which taking does by itself.
        rw [List.extract, List.take_eq_take_iff, List.length_drop]
        omega

/-- No share is empty where there is something to share. -/
theorem shareSize_pos {workers count : Nat} (hcount : 0 < count) :
    0 < shareSize workers count :=
  Nat.div_pos (by omega) (by omega)

/-- A full share for each of the workers is enough for all items. -/
theorem le_shareSize_mul (workers count : Nat) :
    count ≤ shareSize workers count * min (max 1 workers) count := by
  rcases Nat.eq_zero_or_pos count with rfl | hcount
  · exact Nat.zero_le _
  · rw [Nat.mul_comm]
    exact le_mul_ceil (by omega) count

theorem shares_nil (workers : Nat) : shares workers ([] : List α) = [] := by
  rw [shares, List.length_nil, Nat.min_zero, pieces]

/-- The shares are the stretches of the list between the bounds. -/
theorem shares_eq_extract (workers : Nat) (items : List α) :
    shares workers items =
      (shareBounds workers items.length).map fun bound => items.extract bound.1 bound.2 := by
  rcases Nat.eq_zero_or_pos items.length with hempty | hpos
  · rw [List.length_eq_zero_iff.mp hempty, shares_nil, shareBounds, shareSize, List.length_nil,
      Nat.min_zero, Nat.div_zero]
    rfl
  · have hsize : 0 < shareSize workers items.length := shareSize_pos hpos
    have hpieces := pieces_eq_extract hsize items
      (min (max 1 workers) items.length) 0 (by rw [Nat.zero_add]; exact le_shareSize_mul _ _)
    rw [List.drop_zero, Nat.sub_zero] at hpieces
    rw [shareBounds, List.map_map]
    exact hpieces

/-- The pieces put together are the whole, once there are enough of them. -/
theorem flatten_pieces {size : Nat} (count : Nat) (items : List α)
    (henough : items.length ≤ size * count) : (pieces size count items).flatten = items := by
  induction count generalizing items with
  | zero =>
      rw [List.length_eq_zero_iff.mp (Nat.le_zero.mp henough)]
      rfl
  | succ count ih =>
      rw [pieces]
      split
      · next hempty =>
          rw [List.isEmpty_iff.mp hempty]
          rfl
      · have hrest : (items.drop size).length ≤ size * count := by
          rw [Nat.mul_add, Nat.mul_one] at henough
          rw [List.length_drop]
          omega
        rw [List.flatten_cons, ih _ hrest, List.take_append_drop]

/-- One behind the other the shares are the list that was shared out. -/
theorem flatten_shares (workers : Nat) (items : List α) :
    (shares workers items).flatten = items :=
  flatten_pieces _ items (le_shareSize_mul workers items.length)

/-- There are no more shares than workers, and one where there is no worker. -/
theorem length_shareBounds_le (workers count : Nat) :
    (shareBounds workers count).length ≤ max 1 workers := by
  rw [shareBounds, List.length_map, List.length_range']
  rcases Nat.eq_zero_or_pos count with rfl | hcount
  · rw [shareSize, Nat.min_zero, Nat.div_zero]
    exact Nat.zero_le _
  · have hsize : 0 < shareSize workers count := shareSize_pos hcount
    have henough := le_shareSize_mul workers count
    refine Nat.le_trans ((Nat.div_le_iff_le_mul_add_pred hsize).mpr ?_)
      (Nat.min_le_left (max 1 workers) count)
    omega

/-- Every position lies within the bounds of exactly one share. -/
theorem existsUnique_shareBounds (workers : Nat) {count i : Nat} (hi : i < count) :
    ∃! bound, bound ∈ shareBounds workers count ∧ bound.1 ≤ i ∧ i < bound.2 := by
  have hsize : 0 < shareSize workers count := shareSize_pos (by omega)
  have henough := le_mul_ceil hsize count
  simp only [shareBounds, List.mem_map, List.mem_range', Nat.zero_add]
  generalize shareSize workers count = size at hsize henough
  -- The share is known from the quotient of the position.
  have hbelow := Nat.mul_div_le i size
  have habove : i < size * (i / size) + size := Nat.lt_mul_div_succ i hsize
  refine ⟨(size * (i / size), min (size * (i / size) + size) count),
    ⟨⟨_, ⟨i / size, ?_, rfl⟩, rfl⟩, hbelow, Nat.lt_min.mpr ⟨habove, hi⟩⟩, ?_⟩
  · exact Nat.div_lt_of_lt_mul (by omega)
  · rintro _ ⟨⟨_, ⟨j, -, rfl⟩, rfl⟩, hlow, hhigh⟩
    have hj : i / size = j :=
      Nat.div_eq_of_lt_le (by rw [Nat.mul_comm]; exact hlow)
        (by rw [Nat.mul_comm, Nat.mul_succ]; exact (Nat.lt_min.mp hhigh).1)
    rw [hj]

end

section
variable {tx : Transaction} {spent : List TxOut} {flags : Flags} {limits : Limits}
  {workers : Nat}

/-- The verdicts on all inputs, from a single worker. -/
def judgeEach (tx : Transaction) (spent : List TxOut) (flags : Flags) (limits : Limits) :
    List Verdict :=
  (tx.inputs.zip spent).zipIdx.map fun job =>
    tx.judgeInput flags limits job.2 job.1.1 job.1.2

/-- However the inputs are shared out, the verdicts are those of a single worker. -/
theorem verifyAll_eq (hspent : spent.length = tx.inputs.length) :
    tx.verifyAll spent flags limits workers = .ok (tx.judgeEach spent flags limits) := by
  rw [verifyAll, if_neg (not_not.mpr hspent)]
  dsimp only
  rw [List.flatMap_def, ← List.map_flatten, flatten_shares]
  rfl

/-- All that is refused is a list of outputs that is not as long as that of the inputs. -/
theorem verifyAll_eq_error {error : TransactionError} :
    tx.verifyAll spent flags limits workers = .error error ↔
      spent.length ≠ tx.inputs.length ∧
        error = .previousOutputs tx.inputs.length spent.length := by
  by_cases hspent : spent.length = tx.inputs.length
  · rw [verifyAll_eq hspent]
    exact ⟨nofun, fun h => absurd hspent h.1⟩
  · rw [verifyAll, if_pos hspent]
    exact ⟨fun h => ⟨hspent, (Except.error.inj h).symm⟩, fun h => h.2 ▸ rfl⟩

/-- Every input is judged. -/
theorem length_judgeEach (hspent : spent.length = tx.inputs.length) :
    (tx.judgeEach spent flags limits).length = tx.inputs.length := by
  rw [judgeEach, List.length_map, List.length_zipIdx, List.length_zip, hspent, Nat.min_self]

/-- The verdict at a position is the one on the input there. -/
theorem verifyInput_of_judgeEach {i : Nat} {output : TxOut} {verdict : Verdict}
    (houtput : spent[i]? = some output)
    (hverdict : (tx.judgeEach spent flags limits)[i]? = some verdict) :
    tx.verifyInput i output flags limits = .ok verdict := by
  rw [judgeEach, List.getElem?_map, List.getElem?_zipIdx] at hverdict
  rcases hjob : (tx.inputs.zip spent)[i]? with _ | ⟨input, output'⟩
  · rw [hjob] at hverdict
    cases hverdict
  · rcases List.getElem?_zip_eq_some.mp hjob with ⟨hinput, houtput'⟩
    cases Option.some.inj (houtput.symm.trans houtput')
    rw [hjob, Option.map_some, Option.map_some, Option.some.injEq, Nat.zero_add] at hverdict
    rw [verifyInput, hinput, ← hverdict]
    rfl

/-- A list of verdicts is what comes out exactly if it has the verdict on each input in the
    place of the input. -/
theorem verifyAll_eq_ok {verdicts : List Verdict} :
    tx.verifyAll spent flags limits workers = .ok verdicts ↔
      spent.length = tx.inputs.length ∧ verdicts.length = tx.inputs.length ∧
        ∀ i output verdict, spent[i]? = some output → verdicts[i]? = some verdict →
          tx.verifyInput i output flags limits = .ok verdict := by
  constructor
  · intro h
    by_cases hspent : spent.length = tx.inputs.length
    · rw [verifyAll_eq hspent, Except.ok.injEq] at h
      subst h
      exact ⟨hspent, length_judgeEach hspent, fun i output verdict => verifyInput_of_judgeEach⟩
    · rw [verifyAll, if_pos hspent] at h
      cases h
  · rintro ⟨hspent, hlength, heach⟩
    have hsame : (tx.judgeEach spent flags limits).length = tx.inputs.length :=
      length_judgeEach hspent
    rw [verifyAll_eq hspent, Except.ok.injEq]
    -- Both lists have a verdict in each place, and an input has only one.
    refine List.ext_getElem (hsame.trans hlength.symm) fun i hi hi' => ?_
    have houtput : spent[i]? = some spent[i] := List.getElem?_eq_getElem (by omega)
    have hgiven := heach i _ _ houtput (List.getElem?_eq_getElem hi')
    rw [verifyInput_of_judgeEach houtput (List.getElem?_eq_getElem hi)] at hgiven
    exact Except.ok.inj hgiven

end

/-- A whole transaction is verified input by input, whatever the number of workers. Without
    an output for each input it is refused, and otherwise the verdict in each place is the
    one on the input there. The shares of the workers are stretches of which each position
    lies in exactly one, and put together in order they are what was shared out. -/
theorem verifyAll_exact (tx : Transaction) (spent : List TxOut) (flags : Flags)
    (limits : Limits) (workers : Nat) :
    (∀ error, tx.verifyAll spent flags limits workers = .error error ↔
      spent.length ≠ tx.inputs.length ∧
        error = .previousOutputs tx.inputs.length spent.length) ∧
    (∀ verdicts, tx.verifyAll spent flags limits workers = .ok verdicts ↔
      spent.length = tx.inputs.length ∧ verdicts.length = tx.inputs.length ∧
        ∀ i output verdict, spent[i]? = some output → verdicts[i]? = some verdict →
          tx.verifyInput i output flags limits = .ok verdict) ∧
    (∀ count, (shareBounds workers count).length ≤ max 1 workers ∧
      ∀ i < count, ∃! bound, bound ∈ shareBounds workers count ∧ bound.1 ≤ i ∧ i < bound.2) ∧
    ∀ (α : Type) (items : List α), (shares workers items).flatten = items ∧
      shares workers items =
        (shareBounds workers items.length).map fun bound => items.extract bound.1 bound.2 := by
  refine ⟨fun error => verifyAll_eq_error, fun verdicts => verifyAll_eq_ok, fun count => ?_,
    fun α items => ⟨flatten_shares workers items, shares_eq_extract workers items⟩⟩
  -- Each index has one share, whose bounds are told without the items.
  exact ⟨length_shareBounds_le workers count, fun i => existsUnique_shareBounds workers⟩

-- Seven items and three workers: the last share is shorter than the others.
example : shares 3 [1, 2, 3, 4, 5, 6, 7] = [[1, 2, 3], [4, 5, 6], [7]] := by decide

-- With five items and four workers there is nothing left for the last worker.
example : shares 4 [1, 2, 3, 4, 5] = [[1, 2], [3, 4], [5]] := by decide

end Bitcoin.Transaction
