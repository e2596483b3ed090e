import Bitcoin.Proofs.Machine.ScriptHash

/-!
# Payments to the Hash of a Key

Who is paid to the hash of a key spends the payment with an unlocking script that leaves
a signature and, on top, the key. The payment compares the hash of the key with its own
and has the signature checked. If the script is evaluated on any other stack, or with
any other key, it fails, and if the signature is bad it leaves a false element at best.

So the stacks on which a payment succeeds can be told in full. All that is assumed is
that the limits have room for the instructions of the payment themselves.

The script that the signature commits to is the payment without the pushes of the
signature. There are none, unless the signature happens to be the same bytes as the
hash.

## Main definitions

* `Program.p2pkh`: The instructions of a payment.
* `Spends`: A signature and a key that a payment accepts.

## Theorems

* `Program.removePush_p2pkh`: What is signed is the payment itself.
* `Program.run_p2pkh_eq_ok`: How a run of a payment comes to the signature check.
* `Script.eval?_p2pkh`: The stacks on which a payment succeeds.
* `Machine.evaluates_p2pkh_iff`: Which scripts spend a payment.
-/

namespace Bitcoin

namespace Script

/-- The chunks of a payment to the hash of a key. -/
theorem chunks_p2pkh (hash : Hash160) :
    (p2pkh hash).chunks = .ok
      [⟨0x76, none⟩, ⟨0xa9, none⟩, ⟨0x14, some hash.bytes⟩, ⟨0x88, none⟩, ⟨0xac, none⟩] := by
  refine chunks_eq_ok.mpr ⟨?_, ?_⟩
  · simp [p2pkh, Chunk.encode, Push.lengthWidth, Bytes.fixedLE, Opcode.pushData1,
      Opcode.pushData2, Opcode.pushData4]
  · simp only [List.forall_mem_cons]
    exact ⟨rfl, rfl, Chunk.wellFormed_hash hash, rfl, rfl, List.forall_mem_nil _⟩

theorem length_p2pkh (hash : Hash160) : (p2pkh hash).length = 25 := by
  simp [p2pkh, length, hash.length_bytes]

/-- A payment to the hash of a key is not one to the hash of a script. -/
theorem isP2SH_p2pkh (hash : Hash160) : (p2pkh hash).isP2SH = false := by
  have hfront : (p2pkh hash).bytes.take 2 = [0x76, 0xa9] := by
    simp [p2pkh]
  have hother : ¬((p2pkh hash).bytes.take 2 = [0xa9, 0x14] ∧
      (p2pkh hash).bytes.drop 22 = [0x87]) := by
    rw [hfront]
    exact fun h => absurd h.1 (by decide)
  rw [isP2SH, scriptHash?, if_neg hother]
  rfl

end Script

namespace Program

/-- The instructions of a payment to the hash of a key. -/
def p2pkh (hash : Hash160) : Program :=
  [⟨0x76, [], 0⟩, ⟨0xa9, [], 1⟩, ⟨0x14, hash.bytes, 2⟩, ⟨0x88, [], 23⟩, ⟨0xac, [], 24⟩]

/-- The program of the locking script, chunk by chunk. -/
theorem place_p2pkh (hash : Hash160) :
    place 0 [⟨0x76, none⟩, ⟨0xa9, none⟩, ⟨0x14, some hash.bytes⟩, ⟨0x88, none⟩, ⟨0xac, none⟩]
      = p2pkh hash := by
  have hlength : hash.bytes.length = 20 := hash.length_bytes
  simp [place, p2pkh, Chunk.size, hlength, Push.lengthWidth, Opcode.pushData1, Opcode.pushData2,
    Opcode.pushData4]

theorem parse_p2pkh (role : Role) (hash : Hash160) : parse role (.p2pkh hash) = .ok (p2pkh hash) :=
  parse_eq_ok.mpr ⟨_, Script.chunks_p2pkh hash, place_p2pkh hash⟩

theorem unparse_p2pkh (hash : Hash160) : (p2pkh hash).unparse = .p2pkh hash := by
  rw [← place_p2pkh, unparse_place, ← (Script.chunks_eq_ok.mp (Script.chunks_p2pkh hash)).1]

/-- A payment pushes its hash and nothing else. -/
theorem removePush_p2pkh {hash : Hash160} {data : Bytes} (h : data ≠ hash.bytes) :
    (p2pkh hash).removePush data = p2pkh hash := by
  rw [← place_p2pkh]
  refine removePush_place (Script.chunks_eq_ok.mp (Script.chunks_p2pkh hash)).2 ?_ 0
  simpa using h.symm

end Program

/-- Bytes of fixed length are known by the bytes. -/
theorem ByteVec.eq_of_bytes {size : Nat} {a b : ByteVec size} (h : a.bytes = b.bytes) : a = b := by
  rcases a with ⟨bytes, _⟩
  cases h
  rfl

/-- A signature that a payment to the hash of a key accepts, with that key. -/
structure Spends (rules : Rules) (context : Context) (hash : Hash160) (sig key : Bytes) : Prop where
  hash_eq : Hash.hash160 key = hash
  sigForm : SignatureForm.check rules sig = .ok ()
  keyForm : KeyForm.check rules key = .ok ()
  /-- The signature commits to the payment without the pushes of the signature. -/
  fits : Crypto.Fits rules context ((Program.p2pkh hash).removePush sig).unparse sig key

section
variable {rules : Rules} {hash : Hash160} {stack last : Stack}

/-- All instructions but the last one only find out whether the element on top has the hash.
    They leave the stack as it was, but need room for two more elements on the way. -/
theorem Program.run_p2pkh_eq_ok {program : Program} {frame : Frame}
    (hsize : 20 ≤ rules.limits.elementSize) (hoperations : 4 ≤ rules.limits.operations) :
    run rules (p2pkh hash) (.start stack program []) = .ok () frame ↔
      ∃ key below, stack = key :: below ∧ Hash.hash160 key = hash ∧
        stack.length + 2 ≤ rules.limits.stackDepth ∧
        Crypto.checkSig rules { Frame.start stack program [] with operations := 4, next := [] }
          = .ok () frame := by
  have hpushed : Instruction.pushed rules ⟨0x14, hash.bytes, 2⟩ = .ok hash.bytes := by
    refine Instruction.pushed_of_minimal rfl ?_ fun _ => Instruction.requireMinimal_hash hash 2
    rw [hash.length_bytes]
    exact hsize
  have hop : (0x14 : UInt8) ≤ Opcode.sixteen := by decide
  -- Four of the instructions are counted.
  have hone : 0 + 1 ≤ rules.limits.operations := by omega
  have htwo : 0 + 1 + 1 ≤ rules.limits.operations := by omega
  have hthree : 0 + 1 + 1 + 1 ≤ rules.limits.operations := by omega
  constructor
  · intro hrun
    rcases run_cons_eq_ok.mp hrun with ⟨_, hdup, hrun⟩
    rcases (Instruction.advance_dup_eq_ok _ rfl hone).mp hdup with ⟨key, below, hstack, hcopy, rfl⟩
    cases (hstack : stack = key :: below)
    rcases run_cons_eq_ok.mp hrun with ⟨_, hhash, hrun⟩
    rcases (Instruction.advance_hash160_eq_ok _ rfl htwo (by exact hcopy)).mp hhash with
      ⟨_, _, hcons, rfl⟩
    cases hcons
    rcases run_cons_eq_ok.mp hrun with ⟨_, hpush, hrun⟩
    rcases (Instruction.advance_push_eq_ok _ hop rfl).mp hpush with ⟨_, helement, hdeep, rfl⟩
    cases hpushed.symm.trans helement
    have hroom : (key :: below).length + 2 ≤ rules.limits.stackDepth := hdeep
    rcases run_cons_eq_ok.mp hrun with ⟨_, hequal, hrun⟩
    rcases (Instruction.advance_equalVerify_eq_ok _ rfl hthree (by exact hroom)).mp hequal with
      ⟨element, _, hcons, rfl⟩
    rcases List.cons.inj hcons with ⟨hfirst, hothers⟩
    rcases List.cons.inj hothers with ⟨hsecond, rfl⟩
    rcases run_cons_eq_ok.mp hrun with ⟨_, hcheck, hrun⟩
    cases hrun
    have hdepth : (key :: below).length ≤ rules.limits.stackDepth := Nat.le_of_add_right_le hroom
    refine ⟨key, below, rfl, ByteVec.eq_of_bytes ?_, hroom,
      (Instruction.advance_checkSig_eq_ok _ rfl hoperations (by exact hdepth)).mp hcheck⟩
    rw [hsecond, hfirst]
  · rintro ⟨key, below, rfl, rfl, hroom, hcheck⟩
    have hdepth : (key :: below).length ≤ rules.limits.stackDepth := Nat.le_of_add_right_le hroom
    have hdepth' : (key :: below).length + 1 ≤ rules.limits.stackDepth := Nat.le_of_succ_le hroom
    refine run_cons_eq_ok.mpr ⟨_, (Instruction.advance_dup_eq_ok _ rfl hone).mpr
      ⟨key, below, rfl, hdepth', rfl⟩, ?_⟩
    refine run_cons_eq_ok.mpr ⟨_, (Instruction.advance_hash160_eq_ok _ rfl htwo
      (by exact hdepth')).mpr ⟨_, _, rfl, rfl⟩, ?_⟩
    refine run_cons_eq_ok.mpr ⟨_, (Instruction.advance_push_eq_ok _ hop rfl).mpr
      ⟨_, hpushed, hroom, rfl⟩, ?_⟩
    refine run_cons_eq_ok.mpr ⟨_, (Instruction.advance_equalVerify_eq_ok _ rfl hthree
      (by exact hroom)).mpr ⟨_, _, rfl, rfl⟩, ?_⟩
    exact run_cons_eq_ok.mpr ⟨_, (Instruction.advance_checkSig_eq_ok _ rfl hoperations
      (by exact hdepth)).mpr hcheck, rfl⟩

/-- A payment to the hash of a key leaves a true element exactly on a stack with a key of
    that hash on top and a good signature below, if there is room for two more
    elements. It takes both. -/
theorem Script.eval?_p2pkh (hsize : 20 ≤ rules.limits.elementSize)
    (hoperations : 4 ≤ rules.limits.operations) (role : Role) :
    ((p2pkh hash).eval? rules role stack = some last ∧ last.EndsTrue) ↔
      ∃ key sig below context, stack = key :: sig :: below ∧ rules.context? = some context ∧
        Spends rules context hash sig key ∧ stack.length + 2 ≤ rules.limits.stackDepth ∧
        last = Element.ofBool true :: below := by
  rw [eval?_of_parse (Program.parse_p2pkh role hash), Program.eval?_eq_some []]
  simp only [Program.run_p2pkh_eq_ok hsize hoperations]
  constructor
  · rintro ⟨⟨frame, ⟨key, _, rfl, hhash, hroom, hcheck⟩, -, rfl⟩, hend⟩
    rcases Crypto.checkSig_eq_ok.mp hcheck with
      ⟨_, sig, below, context, hcons, hcontext, hsig, hkey, -, rfl⟩
    cases hcons
    -- The element that is left is the answer, so the answer is yes.
    have hanswer : Crypto.answer rules context
        ((Program.p2pkh hash).removePush sig).unparse sig key = true := by
      rcases hend with ⟨_, _, hlast, htrue⟩
      cases hlast
      exact (Element.isTrue_ofBool _).symm.trans htrue
    exact ⟨key, sig, below, context, rfl, hcontext, ⟨hhash, hsig, hkey,
      Crypto.answer_eq_true.mp hanswer⟩, hroom, congrArg (Element.ofBool · :: below) hanswer⟩
  · rintro ⟨key, sig, below, context, rfl, hcontext, hspends, hroom, rfl⟩
    have hanswer : Crypto.answer rules context
        ((Program.p2pkh hash).removePush sig).unparse sig key = true :=
      Crypto.answer_eq_true.mpr hspends.fits
    refine ⟨⟨_, ⟨key, sig :: below, rfl, hspends.hash_eq, hroom, Crypto.checkSig_eq_ok.mpr
      ⟨key, sig, below, context, rfl, hcontext, hspends.sigForm, hspends.keyForm,
        fun _ _ => hanswer, rfl⟩⟩, rfl, ?_⟩, _, _, rfl, rfl⟩
    exact congrArg (Element.ofBool · :: below) hanswer

end

/-- Two scripts of which the second one pays to the hash of a key: the first one leaves that
    key on top and a good signature below. -/
theorem Machine.evaluates_p2pkh_iff {rules : Rules} {hash : Hash160} {unlocking : Script}
    {last : Stack} (hsize : 20 ≤ rules.limits.elementSize)
    (hoperations : 4 ≤ rules.limits.operations) :
    Evaluates rules unlocking (.p2pkh hash) last ↔
      ∃ key sig below context, unlocking.eval? rules .unlocking [] = some (key :: sig :: below) ∧
        rules.context? = some context ∧ Spends rules context hash sig key ∧
        below.length + 4 ≤ rules.limits.stackDepth ∧
        (rules.has .cleanStack = true → below = []) ∧ last = Element.ofBool true :: below := by
  -- The locking script is not one that pays to a script, so nothing follows it.
  have hpays : ¬(rules.has .p2sh = true ∧ (Script.p2pkh hash).isP2SH = true) := by
    rw [Script.isP2SH_p2pkh]
    exact fun h => absurd h.2 Bool.false_ne_true
  constructor
  · intro h
    rcases h.scripts with ⟨first, second, hunlocking, hlocking, htrue, hlast⟩
    rw [if_neg hpays] at hlast
    subst hlast
    rcases (Script.eval?_p2pkh hsize hoperations .locking).mp ⟨hlocking, htrue⟩ with
      ⟨key, sig, below, context, rfl, hcontext, hspends, hdepth, rfl⟩
    refine ⟨key, sig, below, context, hunlocking, hcontext, hspends, hdepth, fun hclean => ?_, rfl⟩
    exact List.length_eq_zero_iff.mp (Nat.succ.inj (h.clean hclean))
  · rintro ⟨key, sig, below, context, hunlocking, hcontext, hspends, hdepth, hclean, rfl⟩
    rcases (Script.eval?_p2pkh hsize hoperations .locking).mpr
      ⟨key, sig, below, context, rfl, hcontext, hspends, hdepth, rfl⟩ with ⟨hlocking, htrue⟩
    refine ⟨⟨_, _, hunlocking, hlocking, htrue, ?_⟩, htrue, fun hflag => ?_⟩
    · rw [if_neg hpays]
    · rw [hclean hflag]
      rfl

end Bitcoin
