import Bitcoin.Proofs.Key.Signing
import Bitcoin.Proofs.Machine.PublicKeyHash
import Bitcoin.Proofs.Script.Minimal
import Bitcoin.Proofs.Transaction.Commitment
import Bitcoin.Transaction.Signing
import Bitcoin.Transaction.Verification

/-!
# Signed Inputs Can Be Spent

An input that has been signed for a payment to the hash of its owner's key is spent by
the script that the signer gives out, under the usual flags and limits. The signer and
the verifier work on different transactions, as the script only gets into the input when
it has been signed, so the first thing to be seen is that signatures do not commit to
unlocking scripts.

The rest is a chain of encodings that are read again, each by a rule of its own: the
script pushes the signature and the key and nothing else, both pushes are the shortest
ones, the form of the signature is strict and the signature low, the form of the key is
standard, and the type at the end of the signature is read back from one byte.

There is one exception. If the signature, with its type, were the same bytes as the hash
that is paid to, then the push of the hash would be left out of what the verifier takes
for the script that has been signed.

## Main definitions

* `Transaction.unsigned`: A transaction without its unlocking scripts.
* `SigHashType.standard`: The types with a name.
* `Script.firstPush?`: What a script pushes first.

## Theorems

* `SigHash.digest_eq_of_unsigned`: Signatures do not commit to unlocking scripts.
* `Transaction.signInput_eq_ok`: What the signer gives out.
* `Transaction.eval?_unlockingScript`: What it leaves on the stack.
* `Transaction.verifySignature_of_sign`, `Transaction.spends_of_sign`: The signature in it
  is good, and the payment accepts it.
* `Transaction.execute_unlockingScript`: The script succeeds then.
* `Transaction.verifyInput_of_signInput`: It spends the payment.
-/

namespace Bitcoin

/-- An input without its unlocking script. -/
def TxIn.unsigned (input : TxIn) : TxIn :=
  { input with unlocking := .empty }

/-- A transaction without its unlocking scripts. -/
def Transaction.unsigned (tx : Transaction) : Transaction :=
  { tx with inputs := tx.inputs.map TxIn.unsigned }

section
variable {tx tx' : Transaction} {index : Nat} {input : TxIn} {code : Script} {type : SigHashType}

theorem Transaction.inputs_setInput (h : tx.inputs[index]? = some input) (replaced : TxIn) :
    (tx.setInput index replaced).inputs[index]? = some replaced := by
  rw [setInput, List.getElem?_set_self (List.getElem?_eq_some_iff.mp h).1]

/-- Another unlocking script is no difference but that. -/
theorem Transaction.unsigned_setInput (h : tx.inputs[index]? = some input) (script : Script) :
    (tx.setInput index { input with unlocking := script }).unsigned = tx.unsigned := by
  rcases List.getElem?_eq_some_iff.mp h with ⟨hlt, rfl⟩
  have hlt' : index < (tx.inputs.map TxIn.unsigned).length := by rwa [List.length_map]
  have hself := List.set_getElem_self hlt'
  rw [List.getElem_map] at hself
  have hinputs : (tx.inputs.set index { tx.inputs[index] with unlocking := script }).map
      TxIn.unsigned = tx.inputs.map TxIn.unsigned := by
    rw [List.map_set]
    exact hself
  rw [unsigned, unsigned, setInput, hinputs]

namespace SigHash

-- In the copy that is signed, no input keeps its own script.
theorem copy_unsigned (outputs : List TxOut) :
    copy tx.unsigned index code type input.unsigned outputs
      = copy tx index code type input outputs := by
  have hcover : tx.unsigned.inputs.map (coverInput type) = tx.inputs.map (coverInput type) := by
    rw [Transaction.unsigned, List.map_map]
    rfl
  rw [copy, copy, copyInputs, copyInputs, hcover]
  rfl

/-- The bytes under a signature do not depend on unlocking scripts. -/
theorem preimage?_unsigned :
    preimage? tx.unsigned index code type = preimage? tx index code type := by
  have hmap : tx.unsigned.inputs[index]? = (tx.inputs[index]?).map TxIn.unsigned :=
    List.getElem?_map
  rcases hinput : tx.inputs[index]? with _ | input
  · rw [hinput] at hmap
    rw [preimage?, preimage?, hmap, hinput]
    rfl
  · rw [hinput] at hmap
    rw [preimage?_of_input hmap, preimage?_of_input hinput]
    simp only [copy_unsigned]
    rfl

theorem digest_eq_of_unsigned (h : tx.unsigned = tx'.unsigned) :
    digest tx index code type = digest tx' index code type := by
  rw [digest, digest, ← preimage?_unsigned, h, preimage?_unsigned]

end SigHash

end

/-- The types with a name: a base, with or without the bit for the other inputs. -/
def SigHashType.standard : List SigHashType :=
  [.all, .none, .single].flatMap fun base => [base, base.union .anyoneCanPay]

/-- Such a type is read back from its byte, and the machine knows that byte. -/
theorem SigHashType.ofByte_toByte {type : SigHashType} (h : type ∈ standard) :
    ofByte type.toByte = type ∧ SignatureForm.isKnown type.toByte = true := by
  have hall : ∀ type ∈ standard,
      ofByte type.toByte = type ∧ SignatureForm.isKnown type.toByte = true := by decide
  exact hall type h

/-- The payload of the first chunk of a script. -/
def Script.firstPush? (script : Script) : Option Bytes := do
  (← (← script.chunks.toOption).head?).data

namespace Transaction

variable {tx tx' : Transaction} {index : Nat} {key : SecretKey} {owner : PublicKey}
  {locking script : Script} {sig : Signature} {type : SigHashType}

/-- The unlocking script pushes the signature with its type and then the key. -/
theorem unlockingScript_eq_ok :
    unlockingScript sig type owner = .ok script ↔
      ∃ first second, Push.encode (Der.encode sig ++ [type.toByte]) = .ok first ∧
        Push.encode owner.compressed = .ok second ∧
          (Script.empty.add first).add second = script := by
  rw [unlockingScript, Result.bind_eq_ok]
  constructor
  · rintro ⟨signed, hsigned, hscript⟩
    rcases Result.bind_eq_ok.mp hsigned with ⟨first, hfirst, hreturn⟩
    cases hreturn
    rcases Result.bind_eq_ok.mp hscript with ⟨second, hsecond, hreturn⟩
    cases hreturn
    exact ⟨first, second, hfirst, hsecond, rfl⟩
  · rintro ⟨first, second, hfirst, hsecond, rfl⟩
    exact ⟨_, Result.bind_eq_ok.mpr ⟨first, hfirst, rfl⟩,
      Result.bind_eq_ok.mpr ⟨second, hsecond, rfl⟩⟩

/-- What the signer gives out, and when. -/
theorem signInput_eq_ok :
    tx.signInput index key locking type = .ok script ↔
      ¬tx.inputs.length ≤ index ∧ ¬(type.isSingle = true ∧ tx.outputs.length ≤ index) ∧
      ∃ sig id owner, key.sign (SigHash.digest tx index locking type) = .ok (sig, id) ∧
        key.public? = .ok owner ∧ unlockingScript sig type owner = .ok script := by
  rw [signInput]
  refine Result.refuse_eq_ok.trans (and_congr_right fun _ => ?_)
  refine Result.refuse_eq_ok.trans (and_congr_right fun _ => ?_)
  rw [Result.bind_eq_ok]
  constructor
  · rintro ⟨⟨sig, id⟩, hsign, hrest⟩
    rcases Result.bind_eq_ok.mp hrest with ⟨owner, howner, hscript⟩
    exact ⟨sig, id, owner, Result.mapError_eq_ok.mp hsign, Result.mapError_eq_ok.mp howner,
      Result.mapError_eq_ok.mp hscript⟩
  · rintro ⟨sig, id, owner, hsign, howner, hscript⟩
    exact ⟨(sig, id), Result.mapError_eq_ok.mpr hsign, Result.bind_eq_ok.mpr
      ⟨owner, Result.mapError_eq_ok.mpr howner, Result.mapError_eq_ok.mpr hscript⟩⟩

/-- A signature with the byte of its type is between nine and 73 bytes long. -/
theorem length_signed (sig : Signature) (type : SigHashType) :
    8 < (Der.encode sig ++ [type.toByte]).length ∧
      (Der.encode sig ++ [type.toByte]).length ≤ 73 := by
  have hr := Der.length_integer_scalar sig.r
  have hs := Der.length_integer_scalar sig.s
  rw [List.length_append, Der.length_encode, List.length_singleton]
  omega

/-- The script that the signer gives out pushes the signature and the key. -/
theorem chunks_unlockingScript (h : unlockingScript sig type owner = .ok script) :
    script.length ≤ 116 ∧ ∃ op op', op ≤ Opcode.sixteen ∧ op' ≤ Opcode.sixteen ∧
      script.chunks = .ok
        [⟨op, some (Der.encode sig ++ [type.toByte])⟩, ⟨op', some owner.compressed⟩] := by
  rcases unlockingScript_eq_ok.mp h with ⟨first, second, hfirst, hsecond, rfl⟩
  have hempty : Script.empty.chunks = .ok [] := Script.chunks_eq_ok.mpr ⟨rfl, by simp⟩
  rcases Push.chunks_of_encode hfirst with ⟨op, hop, hchunk⟩
  rcases Push.chunks_of_encode hsecond with ⟨op', hop', hchunk'⟩
  refine ⟨?_, op, op', UInt8.le_trans hop (by decide), UInt8.le_trans hop' (by decide),
    Script.chunks_add (Script.chunks_add hempty hchunk) hchunk'⟩
  have hlength := Push.length_encode_le hfirst
  have hlength' := Push.length_encode_le hsecond
  have hsigned := (length_signed sig type).2
  rw [owner.length_compressed] at hlength'
  have htotal : ((Script.empty.add first).add second).length = first.length + second.length :=
    List.length_append
  omega

/-- It leaves both on the stack, also where only the shortest pushes are let through. -/
theorem eval?_unlockingScript {rules : Rules} (role : Role) (hsize : 73 ≤ rules.limits.elementSize)
    (hdepth : 2 ≤ rules.limits.stackDepth) (h : unlockingScript sig type owner = .ok script) :
    script.eval? rules role [] = some [owner.compressed, Der.encode sig ++ [type.toByte]] := by
  rcases unlockingScript_eq_ok.mp h with ⟨first, second, hfirst, hsecond, rfl⟩
  rcases length_signed sig type with ⟨hlong, hshort⟩
  have hkey := owner.length_compressed
  have honly : Script.empty.isPushOnly = true := by decide +kernel
  have hminimal := Push.parse_of_encode role hfirst (PushForm.shortest_of_length (by omega))
  have hminimal' := Push.parse_of_encode role hsecond (PushForm.shortest_of_length (by omega))
  have hpush := (Script.eval?_add_push [] _ honly hfirst (Nat.le_trans hshort hsize)
    fun _ => hminimal).mpr ⟨[], Script.eval?_empty [], rfl, Nat.le_of_succ_le hdepth⟩
  exact (Script.eval?_add_push [] _ (Script.isPushOnly_add_push honly hfirst) hsecond (by omega)
    fun _ => hminimal').mpr ⟨_, hpush, rfl, hdepth⟩

/-- The signature that the signer makes is good for every transaction that differs from the
    signed one in its unlocking scripts only. -/
theorem verifySignature_of_sign {id : RecoveryId} (htype : type ∈ SigHashType.standard)
    (hsign : key.sign (SigHash.digest tx index locking type) = .ok (sig, id))
    (howner : key.public? = .ok owner) (hunsigned : tx.unsigned = tx'.unsigned) :
    tx'.verifySignature (Der.encode sig ++ [type.toByte]) owner.compressed locking index
      = true := by
  have hcurve := (SecretKey.represents_public howner).onCurve
  have hverify := (SecretKey.verify_of_sign howner hsign).1
  rw [SigHash.digest_eq_of_unsigned hunsigned] at hverify
  rw [verifySignature, List.getLast?_concat, List.dropLast_concat, Der.decode_encode,
    PublicKey.ofAnyForm?_compressed hcurve]
  simp only [(SigHashType.ofByte_toByte htype).1]
  exact hverify

/-- So a payment accepts the signature with the key, unless it pushes the signature. -/
theorem spends_of_sign {rules : Rules} {id : RecoveryId} (hinput : rules.input = index)
    (htype : type ∈ SigHashType.standard)
    (hsign : key.sign (SigHash.digest tx index (.p2pkh owner.hash160) type) = .ok (sig, id))
    (howner : key.public? = .ok owner) (hunsigned : tx.unsigned = tx'.unsigned)
    (hother : Der.encode sig ++ [type.toByte] ≠ owner.hash160.bytes) :
    Spends rules tx'.context owner.hash160 (Der.encode sig ++ [type.toByte])
      owner.compressed := by
  -- The signature is not the hash, so nothing is taken out of the locking script.
  have hcode : ((Program.p2pkh owner.hash160).removePush
      (Der.encode sig ++ [type.toByte])).unparse = .p2pkh owner.hash160 := by
    rw [Program.removePush_p2pkh hother, Program.unparse_p2pkh]
  have hlow := (SecretKey.verify_of_sign howner hsign).2
  refine ⟨rfl, SignatureForm.check_encode hlow (SigHashType.ofByte_toByte htype).2,
    KeyForm.check_eq_ok.mpr fun h => h.2 owner.isStandard_compressed, ?_⟩
  rw [hcode]
  refine ⟨List.append_ne_nil_of_right_ne_nil _ (List.cons_ne_nil _ _), ?_⟩
  rw [hinput]
  exact verifySignature_of_sign htype hsign howner hunsigned

/-- The script that the signer gives out succeeds where the payment accepts what the script
    pushes. It keeps well within the usual limits. -/
theorem execute_unlockingScript {rules : Rules} {context : Context} (hlimits : rules.limits = {})
    (hflags : ¬(rules.has .cleanStack = true ∧ ¬rules.has .p2sh = true))
    (hcontext : rules.context? = some context)
    (hscript : unlockingScript sig type owner = .ok script)
    (hspends : Spends rules context owner.hash160 (Der.encode sig ++ [type.toByte])
      owner.compressed) :
    Machine.execute rules script (.p2pkh owner.hash160) = .success := by
  -- The limits that the two scripts have to keep to.
  have hsize : rules.limits.scriptSize = 10000 := by rw [hlimits]
  have helement : rules.limits.elementSize = 520 := by rw [hlimits]
  have hdepth : rules.limits.stackDepth = 1000 := by rw [hlimits]
  have hoperations : rules.limits.operations = 200 := by rw [hlimits]
  rcases chunks_unlockingScript hscript with ⟨hlength, op, op', hop, hop', hchunks⟩
  have honly : script.isPushOnly = true :=
    Script.isPushOnly_iff.mpr ⟨_, hchunks, List.forall_mem_cons.mpr
      ⟨hop, List.forall_mem_singleton.mpr hop'⟩⟩
  have hstack : script.eval? rules .unlocking [] =
      some [owner.compressed, Der.encode sig ++ [type.toByte]] :=
    eval?_unlockingScript .unlocking (by omega) (by omega) hscript
  have hshort : (Script.p2pkh owner.hash160).length ≤ rules.limits.scriptSize := by
    rw [Script.length_p2pkh, hsize]
    decide
  have hroom : ([] : Stack).length + 4 ≤ rules.limits.stackDepth := by
    rw [hdepth]
    decide
  -- The scripts can be loaded, and after that the run is told by what they evaluate to.
  rcases Machine.exists_start_of_isPushOnly hflags honly (by omega) hshort
    (Program.parse_p2pkh .locking owner.hash160) with ⟨m, hstart⟩
  exact Machine.execute_eq_success.mpr ⟨m, hstart, _,
    (Machine.evaluates_p2pkh_iff (by omega) (by omega)).mpr ⟨_, _, [], context, hstack, hcontext,
      hspends, hroom, fun _ => rfl, rfl⟩⟩

/-- An input that has been signed for a payment to the hash of its owner's key spends it.
    Only if the signature were the same bytes as the hash, what the verifier takes for the
    script that has been signed would not be that script. -/
theorem verifyInput_of_signInput (tx : Transaction) (index : Nat) (key : SecretKey)
    (type : SigHashType) (htype : type ∈ SigHashType.standard) :
    ∃ owner, key.public? = .ok owner ∧ ∀ script,
      tx.signInput index key (.p2pkh owner.hash160) type = .ok script →
      script.firstPush? ≠ some owner.hash160.bytes →
      ∃ input, tx.inputs[index]? = some input ∧ ∀ satoshis,
        (tx.setInput index { input with unlocking := script }).verifyInput index
          ⟨satoshis, .p2pkh owner.hash160⟩ .standard {} = .ok .success := by
  rcases key.public?_eq_ok with ⟨owner, howner, -⟩
  refine ⟨owner, howner, fun script hsigned hother => ?_⟩
  rcases signInput_eq_ok.mp hsigned with ⟨hindex, -, sig, id, found, hsign, hfound, hscript⟩
  cases howner.symm.trans hfound
  have hinput : tx.inputs[index]? = some tx.inputs[index] :=
    List.getElem?_eq_getElem (Nat.lt_of_not_le hindex)
  refine ⟨_, hinput, fun satoshis => ?_⟩
  rcases chunks_unlockingScript hscript with ⟨-, op, op', -, -, hchunks⟩
  have hne : Der.encode sig ++ [type.toByte] ≠ owner.hash160.bytes := by
    rw [Script.firstPush?, hchunks] at hother
    exact fun h => hother (congrArg some h)
  -- The signer saw the input as it was, the verifier sees it with the script.
  have hunsigned := (unsigned_setInput hinput script).symm
  have hp2sh : Flags.standard.has .p2sh = true := by decide
  rw [verifyInput, inputs_setInput hinput]
  exact congrArg Except.ok (execute_unlockingScript rfl (fun h => h.2 hp2sh) rfl hscript
    (spends_of_sign rfl htype hsign howner hunsigned hne))

/-- An input that is signed by the least key, with all outputs. -/
theorem verifyInput_of_signInput_one :
    let tx : Transaction := { inputs := [⟨.zero, 0, .empty, 7⟩], outputs := [⟨1, .empty⟩] }
    let key : SecretKey := ⟨1, by decide, by decide⟩
    ∃ owner script, key.public? = .ok owner ∧
      tx.signInput 0 key (.p2pkh owner.hash160) .all = .ok script ∧
      (tx.setInput 0 ⟨.zero, 0, script, 7⟩).verifyInput 0 ⟨5, .p2pkh owner.hash160⟩ .standard {}
        = .ok .success := by
  intro tx key
  rcases verifyInput_of_signInput tx 0 key .all (by decide) with ⟨owner, howner, hverify⟩
  have hsigned : key.public?.toOption.any (fun owner =>
      (tx.signInput 0 key (.p2pkh owner.hash160) .all).toOption.any
        (·.firstPush? ≠ some owner.hash160.bytes)) = true := by
    decide +kernel
  rw [howner] at hsigned
  rcases (Option.any_eq_true _ _).mp hsigned with ⟨_, hsome, hsigned⟩
  cases hsome
  rcases (Option.any_eq_true _ _).mp hsigned with ⟨script, hsome, hother⟩
  have hscript := Result.toOption_eq_some.mp hsome
  rcases hverify script hscript (of_decide_eq_true hother) with ⟨input, hinput, hspent⟩
  cases hinput
  exact ⟨owner, script, howner, hscript, hspent 5⟩

end Transaction

end Bitcoin
