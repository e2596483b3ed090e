import Bitcoin.Proofs.Transaction.Signing
import Mathlib.Data.List.Basic

/-!
# Inputs Are Signed in Any Order

The inputs of a transaction may belong to different people, who sign one after the other,
each of them the transaction as the others have left it. What one of them has put into an
input must not change what the next one signs, nor whether what was signed before is good.

Neither signer nor verifier looks at the whole transaction. The signer sees what
signatures commit to. The verifier sees one unlocking script, and beyond that only what
the machine may ask of a transaction: the check of signatures, the lock time, the version
and the sequence numbers. In none of this does the unlocking script of another input
occur, so nothing has to be said about what scripts do with it. The amount that is spent
does not occur in it either.

So the script that a signer gives out is the same before and after any other input has
been filled, and jobs on different inputs may be done in any order.

## Main definitions

* `Transaction.fill`: A transaction with an unlocking script put into an input.
* `Transaction.SigningJob`: What it takes to sign an input.
* `Transaction.signAll`: Inputs signed one after the other.

## Theorems

* `Transaction.context_unsigned`: What the machine may ask depends on no unlocking script.
* `Transaction.signInput_unsigned`: Nor does what the signer gives out.
* `Transaction.verifyInput_eq_of_unsigned`: The verdict depends on one of them.
* `Transaction.sign_sign_eq_ok`: Two jobs on different inputs.
* `Transaction.signAll_perm`: Many of them.
* `Transaction.signing_in_any_order`: All of this together.
-/

namespace Bitcoin.Transaction

/-- The transaction with an unlocking script put into the numbered input. -/
def fill (tx : Transaction) (index : Nat) (script : Script) : Transaction :=
  { tx with inputs := tx.inputs.modify index fun input => { input with unlocking := script } }

/-- What it takes to sign an input. -/
structure SigningJob where
  index : Nat
  key : SecretKey
  locking : Script
  type : SigHashType

/-- The transaction with an input signed. -/
def sign (tx : Transaction) (job : SigningJob) : Except TransactionError Transaction := do
  let script ← tx.signInput job.index job.key job.locking job.type
  return tx.fill job.index script

/-- The transaction with inputs signed one after the other, each when those before it have
    been filled. -/
def signAll (tx : Transaction) (jobs : List SigningJob) : Except TransactionError Transaction :=
  jobs.foldlM sign tx

/-- The unlocking script of the numbered input. -/
def unlocking? (tx : Transaction) (index : Nat) : Option Script :=
  (tx.inputs[index]?).map TxIn.unlocking

variable {tx tx' : Transaction} {index : Nat}

/-- Taking the scripts out keeps the inputs. -/
theorem length_unsigned (tx : Transaction) : tx.unsigned.inputs.length = tx.inputs.length :=
  List.length_map _

theorem sequenceOf_unsigned (tx : Transaction) : tx.unsigned.sequenceOf = tx.sequenceOf := by
  ext1 index
  have hmap : tx.unsigned.inputs[index]? = (tx.inputs[index]?).map TxIn.unsigned :=
    List.getElem?_map
  unfold sequenceOf
  rw [hmap]
  cases tx.inputs[index]? with
  | none => rfl
  | some input => rfl

/-- No digest depends on the unlocking scripts. -/
theorem digest_unsigned (tx : Transaction) : SigHash.digest tx.unsigned = SigHash.digest tx := by
  funext index code type
  rw [SigHash.digest, SigHash.digest, SigHash.preimage?_unsigned]

/-- Nothing that the machine may ask of a transaction depends on unlocking scripts. -/
theorem context_unsigned (tx : Transaction) : tx.unsigned.context = tx.context := by
  have hverify : tx.unsigned.verifySignature = tx.verifySignature := by
    funext sig key code index
    unfold verifySignature
    rw [digest_unsigned]
  unfold context
  rw [hverify, sequenceOf_unsigned]
  rfl

/-- The script that unlocks an input depends on no unlocking script. -/
theorem signInput_unsigned (tx : Transaction) : tx.unsigned.signInput = tx.signInput := by
  funext index key locking type
  unfold signInput
  rw [length_unsigned, digest_unsigned]
  rfl

/-- What is signed depends on the rest of the transaction only. -/
theorem signInput_eq_of_unsigned (h : tx.unsigned = tx'.unsigned) :
    tx.signInput = tx'.signInput := by
  rw [← signInput_unsigned tx, h, signInput_unsigned]

/-- The verdict on an input depends on its own unlocking script and on the locking script
    of what it spends, but on no other script and on no amount. -/
theorem verifyInput_eq_of_unsigned (h : tx.unsigned = tx'.unsigned) {spent spent' : TxOut}
    (hown : tx.unlocking? index = tx'.unlocking? index)
    (hlocking : spent.locking = spent'.locking) (flags : Flags) (limits : Limits) :
    tx.verifyInput index spent flags limits = tx'.verifyInput index spent' flags limits := by
  have hcontext : tx.context = tx'.context := by
    rw [← context_unsigned tx, h, context_unsigned]
  have hlength : tx.inputs.length = tx'.inputs.length := by
    rw [← length_unsigned tx, h, length_unsigned]
  unfold unlocking? at hown
  unfold verifyInput judgeInput
  rw [hcontext, hlength, hlocking]
  -- There is such an input in both or in none.
  cases hinput : tx.inputs[index]? with
  | none =>
      rw [hinput] at hown
      rw [Option.map_eq_none_iff.mp hown.symm]
  | some input =>
      rw [hinput] at hown
      rcases Option.map_eq_some_iff.mp hown.symm with ⟨input', hinput', hsame⟩
      rw [hinput']
      simp only [hsame]

/-- Filling in a script changes nothing but that script. -/
theorem unsigned_fill (tx : Transaction) (index : Nat) (script : Script) :
    (tx.fill index script).unsigned = tx.unsigned := by
  have hinputs : (tx.fill index script).inputs.map TxIn.unsigned
      = tx.inputs.map TxIn.unsigned := by
    ext1 i
    rw [fill, List.getElem?_map, List.getElem?_map, List.getElem?_modify]
    cases tx.inputs[i]? with
    | none => rfl
    | some input =>
        by_cases hi : index = i
        · simp only [Option.map_eq_map, Option.map_some, if_pos hi]
          rfl
        · simp only [Option.map_eq_map, Option.map_some, if_neg hi]
  unfold unsigned
  rw [hinputs]
  rfl

/-- Filling in one input leaves the script of another. -/
theorem unlocking?_fill {filled : Nat} (h : filled ≠ index) (script : Script) :
    (tx.fill filled script).unlocking? index = tx.unlocking? index := by
  unfold unlocking? fill
  rw [List.getElem?_modify]
  simp only [if_neg h, Option.map_eq_map, Option.map_id']

/-- Scripts of two inputs can be filled in in any order. -/
theorem fill_fill {other : Nat} (h : index ≠ other) (script script' : Script) :
    (tx.fill index script).fill other script' = (tx.fill other script').fill index script := by
  unfold fill
  rw [List.modify_modify_ne _ _ _ h]

/-- Signing fills in the script that has been signed. -/
theorem sign_eq_ok {job : SigningJob} : tx.sign job = .ok tx' ↔
    ∃ script, tx.signInput job.index job.key job.locking job.type = .ok script ∧
      tx.fill job.index script = tx' := by
  refine Result.bind_eq_ok.trans (exists_congr fun script => and_congr_right fun _ => ?_)
  exact ⟨Except.ok.inj, congrArg Except.ok⟩

/-- Two jobs on different inputs come to the same whichever of them is done first. -/
theorem sign_sign_eq_ok {job job' : SigningJob} (h : job.index ≠ job'.index)
    (hdone : (do (← tx.sign job).sign job') = .ok tx') :
    (do (← tx.sign job').sign job) = .ok tx' := by
  rcases Result.bind_eq_ok.mp hdone with ⟨between, hfirst, hsecond⟩
  rcases sign_eq_ok.mp hfirst with ⟨script, hscript, rfl⟩
  rcases sign_eq_ok.mp hsecond with ⟨script', hscript', rfl⟩
  -- Each signer gives out the same script before and after the other one.
  rw [signInput_eq_of_unsigned (unsigned_fill tx job.index script)] at hscript'
  refine Result.bind_eq_ok.mpr ⟨_, sign_eq_ok.mpr ⟨script', hscript', rfl⟩, ?_⟩
  rw [sign_eq_ok, signInput_eq_of_unsigned (unsigned_fill tx job'.index script')]
  exact ⟨script, hscript, fill_fill h.symm script' script⟩

theorem signAll_cons (job : SigningJob) (jobs : List SigningJob) :
    tx.signAll (job :: jobs) = tx.sign job >>= fun tx => tx.signAll jobs :=
  List.foldlM_cons

/-- Jobs on different inputs may be done in any order. The induction is on how the one
    order is reached from the other. -/
theorem signAll_perm {jobs jobs' : List SigningJob} (hperm : jobs.Perm jobs')
    (hdifferent : (jobs.map SigningJob.index).Nodup) (hdone : tx.signAll jobs = .ok tx') :
    tx.signAll jobs' = .ok tx' := by
  induction hperm generalizing tx with
  | nil => exact hdone
  | cons job _ ih =>
      rw [signAll_cons] at hdone ⊢
      rcases Result.bind_eq_ok.mp hdone with ⟨between, hfirst, hrest⟩
      exact Result.bind_eq_ok.mpr ⟨between, hfirst, ih (List.nodup_cons.mp hdifferent).2 hrest⟩
  -- Only two jobs next to each other are exchanged, and they are at different inputs.
  | swap job job' jobs =>
      have hne : job'.index ≠ job.index := fun hsame =>
        (List.nodup_cons.mp hdifferent).1 (hsame ▸ List.mem_cons_self)
      rw [signAll_cons] at hdone ⊢
      simp only [signAll_cons, ← bind_assoc] at hdone ⊢
      rcases Result.bind_eq_ok.mp hdone with ⟨between, hpair, hrest⟩
      exact Result.bind_eq_ok.mpr ⟨between, sign_sign_eq_ok hne hpair, hrest⟩
  | trans hperm _ ih ih' =>
      exact ih' ((hperm.map _).nodup hdifferent) (ih hdifferent hdone)

/-- Two transactions that differ in their unlocking scripts only are signed in the same
    way, and an input with the same unlocking script in both has the same verdict in both,
    whatever the amount that it spends. Hence filling one input leaves the verdicts on the
    others as they were, and different inputs may be signed in any order. -/
theorem signing_in_any_order (h : tx.unsigned = tx'.unsigned) :
    (∀ index key locking type,
      tx.signInput index key locking type = tx'.signInput index key locking type) ∧
    (∀ index (spent spent' : TxOut) flags limits,
      tx.unlocking? index = tx'.unlocking? index → spent.locking = spent'.locking →
      tx.verifyInput index spent flags limits = tx'.verifyInput index spent' flags limits) ∧
    (∀ filled script index spent flags limits, filled ≠ index →
      (tx.fill filled script).verifyInput index spent flags limits
        = tx.verifyInput index spent flags limits) ∧
    ∀ jobs jobs' signed, List.Perm jobs jobs' → (jobs.map SigningJob.index).Nodup →
      (tx.signAll jobs = .ok signed ↔ tx.signAll jobs' = .ok signed) := by
  refine ⟨fun index key locking type => ?_, fun index spent spent' flags limits hown hlocking =>
    verifyInput_eq_of_unsigned h hown hlocking flags limits,
    fun filled script index spent flags limits hne => ?_,
    fun jobs jobs' signed hperm hdifferent => ⟨fun hdone => ?_, fun hdone => ?_⟩⟩
  · rw [signInput_eq_of_unsigned h]
  · -- The verdict on an input reads its own script and what no script changes.
    exact verifyInput_eq_of_unsigned (unsigned_fill tx filled script)
      (unlocking?_fill hne script) rfl flags limits
  · exact signAll_perm hperm hdifferent hdone
  · exact signAll_perm hperm.symm ((hperm.map _).nodup hdifferent) hdone

/-- An input with a lock time, before and after another one has been filled, at two prices. -/
theorem signing_in_any_order_locked :
    let first : TxIn := ⟨.zero, 0, ⟨[0x51]⟩, 7⟩
    let tx : Transaction := { inputs := [first, ⟨.zero, 1, .empty, 5⟩], lockTime := 1 }
    let tx' : Transaction := { inputs := [first, ⟨.zero, 1, ⟨[0x6a]⟩, 5⟩], lockTime := 1 }
    let key : SecretKey := ⟨1, by decide, by decide⟩
    tx ≠ tx' ∧ tx.unsigned = tx'.unsigned ∧
      tx.signInput 1 key .empty .all = tx'.signInput 1 key .empty .all ∧
      tx.verifyInput 0 ⟨5, ⟨[0xb1]⟩⟩ ⟨512⟩ {} = .ok .success ∧
      tx'.verifyInput 0 ⟨6, ⟨[0xb1]⟩⟩ ⟨512⟩ {} = .ok .success := by
  intro first tx tx' key
  have hunsigned : tx.unsigned = tx'.unsigned := by decide
  rcases signing_in_any_order hunsigned with ⟨hsign, hverify, -⟩
  have hsuccess : tx.verifyInput 0 ⟨5, ⟨[0xb1]⟩⟩ ⟨512⟩ {} = .ok .success := by decide +kernel
  refine ⟨by decide, hunsigned, hsign 1 key .empty .all, hsuccess, ?_⟩
  rw [← hverify 0 ⟨5, ⟨[0xb1]⟩⟩ ⟨6, ⟨[0xb1]⟩⟩ ⟨512⟩ {} rfl rfl]
  exact hsuccess

end Bitcoin.Transaction
