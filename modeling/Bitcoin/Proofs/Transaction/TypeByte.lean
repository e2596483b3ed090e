import Bitcoin.Proofs.Transaction.Signing

/-!
# The Type Behind a Signature

The type of a signature is a word in the bytes that are signed, but a single byte at the
end of the signature. A verifier has only the byte, and rebuilds the signed bytes from it.

The low byte of the word holds everything that the copy of the transaction depends on:
the base and the bit for the other inputs. So signer and verifier always make the same
copy, and what they put behind it is the same word as long as the word is a byte. The
signer takes any word. The signature that it gives out for one that is no byte has lost
the rest of the word, and is good for nothing.

## Main definitions

* `SigHashType.delivered`: The type as a verifier finds it.

## Theorems

* `SigHashType.toNat_delivered`, `SigHashType.bits_eq_delivered_iff`: What is delivered of a
  word, and when all of it is.
* `SigHashType.base_delivered`, `SigHashType.signsOneInput_delivered`: What a type means is in
  the byte.
* `SigHash.exists_copy_delivered`: Signer and verifier make the same copy.
* `Transaction.signed_eq_checked_iff`: When they are about the same bytes.
-/

namespace Bitcoin

namespace SigHashType

/-- The type that is read back from the byte behind a signature. -/
def delivered (type : SigHashType) : SigHashType :=
  ofByte type.toByte

variable (type : SigHashType)

/-- The byte that is appended keeps the low eight bits. -/
theorem toNat_delivered : type.delivered.bits.toNat = type.bits.toNat % 2 ^ 8 :=
  rfl

/-- The low five bits are in the byte. -/
theorem base_delivered : type.delivered.bits.toNat % 2 ^ 5 = type.bits.toNat % 2 ^ 5 := by
  rw [toNat_delivered]
  exact Nat.mod_mod_of_dvd _ (Nat.pow_dvd_pow 2 (by decide))

/-- The base type lies within the byte that is delivered. -/
theorem signsNoOutput_delivered : type.delivered.SignsNoOutput ↔ type.SignsNoOutput := by
  rw [SignsNoOutput, SignsNoOutput, base_delivered]

theorem signsOneOutput_delivered : type.delivered.SignsOneOutput ↔ type.SignsOneOutput := by
  rw [SignsOneOutput, SignsOneOutput, base_delivered]

/-- The eighth bit is the last one of the byte. -/
theorem signsOneInput_delivered : type.delivered.SignsOneInput ↔ type.SignsOneInput := by
  rw [SignsOneInput, SignsOneInput, toNat_delivered, Nat.testBit_mod_two_pow]
  rfl

/-- All of the word is delivered if it is a byte. -/
theorem bits_eq_delivered_iff : type.bits = type.delivered.bits ↔ type.bits.toNat < 256 := by
  rw [← UInt32.toNat_inj, toNat_delivered]
  omega

end SigHashType

namespace SigHash

variable {tx : Transaction} {index : Nat} {code : Script} {type : SigHashType} {input : TxIn}
  {outputs : List TxOut}

/-- The verifier leaves out the same sequence numbers. -/
theorem leavesSequences_delivered : leavesSequences type.delivered ↔ leavesSequences type := by
  rw [leavesSequences, leavesSequences, type.signsNoOutput_delivered,
    type.signsOneOutput_delivered]

/-- The verifier commits to the same outputs. -/
theorem committedOutputs?_delivered :
    committedOutputs? tx index type.delivered = committedOutputs? tx index type := by
  simp only [committedOutputs?, type.signsOneOutput_delivered, type.signsNoOutput_delivered]

/-- The verifier edits the same copy. -/
theorem copy_delivered :
    copy tx index code type.delivered input outputs = copy tx index code type input outputs := by
  have hcover : coverInput type.delivered = coverInput type := by
    funext other
    simp only [coverInput, leavesSequences_delivered]
  simp only [copy, copyInputs, blankOutputs, hcover, type.signsOneInput_delivered,
    type.signsOneOutput_delivered]

/-- From the type that is delivered the same copy is made, with another word behind it. -/
theorem preimage?_delivered {signed : Bytes} (h : preimage? tx index code type = some signed) :
    ∃ copied, signed = copied ++ encodeWord type.bits ∧
      preimage? tx index code type.delivered
        = some (copied ++ encodeWord type.delivered.bits) := by
  rcases preimage?_eq_some.mp h with ⟨input, hinput, outputs, houtputs, rfl⟩
  refine ⟨_, rfl, preimage?_eq_some.mpr ⟨input, hinput, outputs, ?_, ?_⟩⟩
  · rw [committedOutputs?_delivered, houtputs]
  · rw [copy_delivered]

-- There are bytes to be signed wherever the signer has not refused.
theorem exists_preimage (code : Script) (hindex : index < tx.inputs.length)
    (hsingle : type.isSingle = true → index < tx.outputs.length) :
    ∃ signed, preimage? tx index code type = some signed := by
  have houtputs : committedOutputs? tx index type ≠ none := by
    rw [Ne, committedOutputs?_eq_none]
    rintro ⟨hbase, hmissing⟩
    exact Nat.not_lt.mpr hmissing (hsingle (type.isSingle_iff.mpr hbase))
  rcases Option.ne_none_iff_exists'.mp houtputs with ⟨outputs, houtputs⟩
  exact ⟨_, preimage?_eq_some.mpr
    ⟨tx.inputs[index], List.getElem?_eq_getElem hindex, outputs, houtputs, rfl⟩⟩

end SigHash

namespace Transaction

variable {tx : Transaction} {index : Nat} {key : SecretKey} {locking script : Script}
  {type : SigHashType}

/-- The signer signs the bytes that a verifier rebuilds from the last byte of the pushed
    signature if and only if the type is a byte. -/
theorem signed_eq_checked_iff (h : tx.signInput index key locking type = .ok script) :
    ∃ sig id last signed checked,
      key.sign (Hash.sha256d signed) = .ok (sig, id) ∧
      SigHash.preimage? tx index locking type = some signed ∧
      script.firstPush? = some (Der.encode sig ++ [last]) ∧
      SigHash.preimage? tx index locking (.ofByte last) = some checked ∧
      (signed = checked ↔ type.bits.toNat < 256) := by
  rcases signInput_eq_ok.mp h with ⟨hindex, hsingle, sig, id, owner, hsign, -, hscript⟩
  -- The script has been signed, so the output it needs is there.
  have houtput : type.isSingle = true → index < tx.outputs.length := fun hbase =>
    Nat.lt_of_not_le fun hle => hsingle ⟨hbase, hle⟩
  rcases SigHash.exists_preimage locking (Nat.lt_of_not_le hindex) houtput with
    ⟨signed, hsigned⟩
  rcases SigHash.preimage?_delivered hsigned with ⟨copied, rfl, hchecked⟩
  rcases chunks_unlockingScript hscript with ⟨-, op, op', -, -, hchunks⟩
  refine ⟨sig, id, type.toByte, _, _, ?_, hsigned, ?_, hchecked, ?_⟩
  · rw [SigHash.digest, hsigned] at hsign
    exact hsign
  · rw [Script.firstPush?, hchunks]
    rfl
  · -- Before the type the two preimages agree, so they differ where the types do.
    rw [List.append_cancel_left_eq, ← type.bits_eq_delivered_iff]
    exact ⟨SelfDelimiting.word.injective trivial trivial, congrArg encodeWord⟩

/-- An input that is signed alone, by the least key. -/
theorem signed_eq_checked_alone :
    let tx : Transaction := { inputs := [⟨.zero, 0, .empty, 7⟩], outputs := [⟨1, .empty⟩] }
    let key : SecretKey := ⟨1, by decide, by decide⟩
    let type : SigHashType := .union .all .anyoneCanPay
    ∃ script sig id last signed, tx.signInput 0 key .empty type = .ok script ∧
      key.sign (Hash.sha256d signed) = .ok (sig, id) ∧
      script.firstPush? = some (Der.encode sig ++ [last]) ∧
      SigHash.preimage? tx 0 .empty (.ofByte last) = some signed := by
  intro tx key type
  have hsome : (tx.signInput 0 key .empty type).toOption.isSome = true := by decide +kernel
  rcases Option.isSome_iff_exists.mp hsome with ⟨script, hscript⟩
  have hsigned := Result.toOption_eq_some.mp hscript
  rcases signed_eq_checked_iff hsigned with ⟨sig, id, last, signed, checked, hsign, -, hpush,
    hchecked, hiff⟩
  rw [← hiff.mpr (by decide)] at hchecked
  exact ⟨script, sig, id, last, signed, hsigned, hsign, hpush, hchecked⟩

/-- The type of all outputs with one more bit, beyond the byte, is taken by the signer. The
    verifier finds another type, for which it rebuilds other bytes. -/
theorem signed_ne_checked_wide :
    let tx : Transaction := { inputs := [⟨.zero, 0, .empty, 7⟩], outputs := [⟨1, .empty⟩] }
    let key : SecretKey := ⟨1, by decide, by decide⟩
    let type : SigHashType := ⟨257⟩
    ∃ script signed last, tx.signInput 0 key .empty type = .ok script ∧
      script.firstPush?.bind List.getLast? = some last ∧
      SigHash.preimage? tx 0 .empty type = some signed ∧
      SigHash.preimage? tx 0 .empty (.ofByte last) ≠ some signed := by
  intro tx key type
  have hlast : (tx.signInput 0 key .empty type).toOption.bind
      (fun script => script.firstPush?.bind List.getLast?) = some 1 := by
    decide +kernel
  have hsome : (SigHash.preimage? tx 0 .empty type).isSome = true := by decide +kernel
  have hne : SigHash.preimage? tx 0 .empty (.ofByte 1) ≠ SigHash.preimage? tx 0 .empty type := by
    decide +kernel
  rcases Option.bind_eq_some_iff.mp hlast with ⟨script, hscript, hpush⟩
  rcases Option.isSome_iff_exists.mp hsome with ⟨signed, hsigned⟩
  rw [hsigned] at hne
  exact ⟨script, signed, 1, Result.toOption_eq_some.mp hscript, hpush, hsigned, hne⟩

end Transaction

end Bitcoin
