import Bitcoin.Proofs.Machine.PublicKeyHash
import Bitcoin.Proofs.Machine.ScriptCode

/-!
# Who Can Spend a Payment

A payment to the hash of a key says in five instructions who may spend it. Which stacks
satisfy these instructions is known; here the rest of a run is added to it: the checks
before the first script, the script that unlocks, whatever it does, and the check of the end.
What comes out is a description of the spender's side alone, with nothing left of the
machine but the run of the unlocking script.

The stack must have room for two more elements while the payment runs, hence the odd
bound. What the signature commits to is described by the script too, and not by the
instructions of a program. It is the payment as it stands for every signature but one: only the
bytes of the hash itself, pushed as they are in the payment, would be left out of it.

## Main definitions

* `Script.withoutPush`: Leaving out the pushes of a payload.
* `Script.RunsTo`: A script that unlocks, with the stack that it leaves.

## Theorems

* `Script.withoutPush_of_parse`: Leaving out a push from a script and from its program.
* `Script.withoutPush_p2pkh`: What a payment is without the pushes of a payload.
* `Machine.execute_p2pkh_iff`: Which scripts spend a payment, under any flags.
-/

namespace Bitcoin

namespace Script

/-- A script without the smallest pushes of a payload. One that does not decode has none. -/
def withoutPush (script : Script) (data : Bytes) : Script :=
  match script.chunks with
  | .ok chunks => ⟨(Chunk.withoutPushes [data] chunks).flatMap Chunk.encode⟩
  | .error _ => script

/-- A script that is not too long runs on the empty stack and leaves the given one, without
    failing anywhere. -/
def RunsTo (rules : Rules) (script : Script) (stack : Stack) : Prop :=
  script.length ≤ rules.limits.scriptSize ∧ script.eval? rules .unlocking [] = some stack

/-- Leaving out a push from a script is leaving it out from its program. -/
theorem withoutPush_of_parse {role : Role} {script : Script} {program : Program}
    (h : Program.parse role script = .ok program) (data : Bytes) :
    script.withoutPush data = (program.removePush data).unparse := by
  rcases Program.parse_eq_ok.mp h with ⟨chunks, hchunks, rfl⟩
  have hformed := (chunks_eq_ok.mp hchunks).2
  -- A frame at the beginning of the script signs the script, and its script code decodes.
  have hcode : ((Program.place 0 chunks).removePush data).unparse.chunks
      = .ok (Chunk.withoutPushes [data] chunks) :=
    @Frame.chunks_scriptCode (.start [] (.place 0 chunks) []) chunks 0 hformed rfl [data]
  rw [withoutPush, hchunks]
  exact congrArg mk (chunks_eq_ok.mp hcode).1.symm

/-- The only push in the script is that of the hash, so only a signature with the bytes of the hash
    is removed. -/
theorem withoutPush_p2pkh (hash : Hash160) (data : Bytes) :
    (p2pkh hash).withoutPush data =
      if data = hash.bytes then ⟨[0x76, 0xa9, 0x88, 0xac]⟩ else p2pkh hash := by
  by_cases h : data = hash.bytes
  · subst h
    have hlength : hash.bytes.length = 20 := hash.length_bytes
    have hpush : Push.encode hash.bytes = .ok (0x14 :: hash.bytes) := by
      rw [Push.encode, hlength]
      rfl
    -- Of the five chunks only the push of the hash begins like it.
    have hleft : Chunk.withoutPushes [hash.bytes]
        [⟨0x76, none⟩, ⟨0xa9, none⟩, ⟨0x14, some hash.bytes⟩, ⟨0x88, none⟩, ⟨0xac, none⟩]
        = [⟨0x76, none⟩, ⟨0xa9, none⟩, ⟨0x88, none⟩, ⟨0xac, none⟩] := by
      simp [Chunk.withoutPushes, hpush, Chunk.encode, Push.lengthWidth, Bytes.fixedLE,
        Opcode.pushData1, Opcode.pushData2, Opcode.pushData4]
    rw [if_pos rfl, withoutPush, chunks_p2pkh]
    simp only [hleft]
    rfl
  · rw [if_neg h, withoutPush_of_parse (Program.parse_p2pkh .locking hash),
      Program.removePush_p2pkh h, Program.unparse_p2pkh]

end Script

namespace Machine

/-- Under any flags that a run can be started with, the scripts that spend a payment to the hash
    of a key are those that run without failing and leave a good signature below that key, with
    room for two more elements. There may be anything below, unless the stack must be clean. -/
theorem execute_p2pkh_iff {flags : Flags}
    (hflags : ¬(flags.has .cleanStack = true ∧ ¬flags.has .p2sh = true)) (context : Context)
    (input : Nat) (unlocking : Script) (hash : Hash160) :
    let rules : Rules := { flags, context? := some context, input }
    execute rules unlocking (.p2pkh hash) = .success ↔
      (flags.has .unlockingPushOnly = true → unlocking.isPushOnly = true) ∧
      ∃ rest sig key, unlocking.RunsTo rules (key :: sig :: rest) ∧
        (key :: sig :: rest).length ≤ 998 ∧ Hash.hash160 key = hash ∧ sig ≠ [] ∧
        SignatureForm.check rules sig = .ok () ∧ KeyForm.check rules key = .ok () ∧
        context.verifySignature sig key ((Script.p2pkh hash).withoutPush sig) input = true ∧
        (flags.has .cleanStack = true → rest = []) := by
  intro rules
  -- Removing pushes from the script and removing them from its program leave the same bytes.
  have hcode (sig : Bytes) : (Script.p2pkh hash).withoutPush sig
      = ((Program.p2pkh hash).removePush sig).unparse :=
    Script.withoutPush_of_parse (Program.parse_p2pkh .locking hash) sig
  have hlimits : 20 ≤ rules.limits.elementSize ∧ 4 ≤ rules.limits.operations ∧
      25 ≤ rules.limits.scriptSize := by
    change 20 ≤ 520 ∧ 4 ≤ 200 ∧ 25 ≤ 10000
    decide
  have hevaluates (last : Stack) : Evaluates rules unlocking (.p2pkh hash) last ↔ _ :=
    evaluates_p2pkh_iff hlimits.1 hlimits.2.1
  rw [execute_eq_success]
  constructor
  · -- The unlocking script leaves a key and a signature, and the locking script checks the one
    -- against the other. Two more elements than are left fit at the deepest point.
    rintro ⟨m, hstart, last, hlast⟩
    rcases start_eq_ok.mp hstart with ⟨-, hlength, -, honly, -⟩
    rcases (hevaluates last).mp hlast with
      ⟨key, sig, below, found, heval, hcontext, hspends, hdepth, hclean, -⟩
    cases hcontext
    refine ⟨fun h => by_contra fun hc => honly ⟨h, hc⟩, below, sig, key, ⟨hlength, heval⟩, ?_,
      hspends.hash_eq, hspends.fits.1, hspends.sigForm, hspends.keyForm, ?_, hclean⟩
    · exact Nat.le_of_add_le_add_right (b := 2) hdepth
    · rw [hcode]
      exact hspends.fits.2
  · rintro ⟨honly, rest, sig, key, ⟨hlength, heval⟩, hdepth, hhash, hsig, hsigForm, hkeyForm,
      hverify, hclean⟩
    -- For the way back a run has to begin, which needs both scripts to be read and not too long.
    rcases Script.eval?_eq_some.mp heval with ⟨first, hfirst, -⟩
    -- The locking script pays to a key, so the unlocking script need not be made of pushes.
    have hplain : ¬((rules.has .p2sh && (Script.p2pkh hash).isP2SH) = true ∧
        ¬unlocking.isPushOnly = true) := by
      rw [Script.isP2SH_p2pkh, Bool.and_false]
      exact fun h => Bool.false_ne_true h.1
    have hshort : (Script.p2pkh hash).length ≤ rules.limits.scriptSize := by
      rw [Script.length_p2pkh]
      exact hlimits.2.2
    rw [hcode] at hverify
    exact ⟨_, start_eq_ok.mpr ⟨hflags, hlength, hshort, fun h => h.2 (honly h.1), hplain, first,
      hfirst, _, Program.parse_p2pkh .locking hash, rfl⟩, _, (hevaluates _).mpr
        ⟨key, sig, rest, context, heval, rfl, ⟨hhash, hsigForm, hkeyForm, hsig, hverify⟩,
          Nat.add_le_add_right hdepth 2, hclean, rfl⟩⟩

/-- A signature that is the same bytes as the hash, from a context that takes any signature over
    what is left of the payment then. -/
theorem execute_p2pkh_iff_same :
    let flags : Flags := ⟨0x121⟩
    let hash : Hash160 := Hash.hash160 [0x02]
    let context : Context :=
      ⟨fun _ _ code _ => code = ⟨[0x76, 0xa9, 0x88, 0xac]⟩, 0, 0, fun _ => 0⟩
    ¬(flags.has .cleanStack = true ∧ ¬flags.has .p2sh = true) ∧
      execute { flags, context? := some context } ⟨0x14 :: hash.bytes ++ [0x01, 0x02]⟩
        (.p2pkh hash) = .success := by
  intro flags hash context
  have hflags : ¬(flags.has .cleanStack = true ∧ ¬flags.has .p2sh = true) := by decide
  -- The signature is the hash itself, so its push is taken out of the script code.
  have heval : Script.eval? { flags, context? := some context } .unlocking
      ⟨0x14 :: hash.bytes ++ [0x01, 0x02]⟩ [] = some [[0x02], hash.bytes] := by
    decide +kernel
  have honly : Script.isPushOnly ⟨0x14 :: hash.bytes ++ [0x01, 0x02]⟩ = true := by decide +kernel
  have hlength : hash.bytes.length = 20 := hash.length_bytes
  have hsize : Script.length ⟨0x14 :: hash.bytes ++ [0x01, 0x02]⟩ ≤ 10000 := by
    rw [Script.length, List.length_append, List.length_cons, hlength]
    decide
  have hlax : flags.has .strictEncoding = false ∧
      flags.hasAny [.strictDer, .lowS, .strictEncoding] = false := by decide
  refine ⟨hflags, (execute_p2pkh_iff hflags context 0 _ hash).mpr ⟨fun _ => honly, [], hash.bytes,
    [0x02], ⟨hsize, heval⟩, by decide, rfl, fun h => ?_, ?_, ?_, ?_, fun _ => rfl⟩⟩
  · rw [h] at hlength
    cases hlength
  · refine SignatureForm.check_eq_ok.mpr fun _ _ => ⟨SignatureForm.checkDer_eq_ok.mpr fun h => ?_,
      fun h => Bool.false_ne_true (hlax.1.symm.trans h.1)⟩
    exact absurd (hlax.2.symm.trans h) Bool.false_ne_true
  · exact KeyForm.check_eq_ok.mpr fun h => Bool.false_ne_true (hlax.1.symm.trans h.1)
  · rw [Script.withoutPush_p2pkh, if_pos rfl]
    rfl

end Machine

end Bitcoin
