import Bitcoin.Proofs.Machine.Agreement
import Bitcoin.Proofs.Machine.Operations
import Bitcoin.Proofs.Machine.Rounds
import Bitcoin.Proofs.Script.Decoding

/-!
# Payments to the Hash of a Script

Who is paid to the hash of a script spends the payment with an unlocking script that
pushes, and that pushes this script last. The payment itself only compares hashes.
After it comes the script, on what was below it: all is as if the script stood in the
place of the payment, and the unlocking script did not push it.

There is little that could be different. The stack has to hold the script and, for a
moment, a second hash; the script must fit into one element; and its push may have
to be the shortest one. A rule for a clean stack is left out, since it may not be in
force where redeem scripts are not run.

## Theorems

* `Script.eval?_p2sh`: What a payment to a hash does, given the script with the hash.
* `Script.eval?_add_push`: What is pushed last lies on top.
* `Machine.evaluates_p2sh_iff`: Redeem scripts evaluate like locking scripts.
* `Machine.execute_p2sh_iff`: They succeed like locking scripts, within the usual limits.
-/

namespace Bitcoin

section
variable {rules : Rules} {stack : Stack}

/-- A hash is too long to have a shorter push. -/
theorem Instruction.requireMinimal_hash (hash : Hash160) (offset : Nat) :
    requireMinimal ⟨0x14, hash.bytes, offset⟩ = .ok () := by
  have hlength : hash.bytes.length = 20 := hash.length_bytes
  rw [requireMinimal_eq_ok, PushForm.shortest_of_length (by rw [hlength]; decide), hlength]
  rfl

/-- A payment to the hash of a script, given that script, removes it and leaves a true
    element in its place. -/
theorem Script.eval?_p2sh (role : Role) (redeem : Bytes) (hsize : 20 ≤ rules.limits.elementSize)
    (hoperations : 2 ≤ rules.limits.operations)
    (hdepth : stack.length + 2 ≤ rules.limits.stackDepth) :
    (p2sh (Hash.hash160 redeem)).eval? rules role (redeem :: stack)
      = some (Element.ofBool true :: stack) := by
  have hparse : Program.parse role (p2sh (Hash.hash160 redeem)) =
      .ok [⟨0xa9, [], 0⟩, ⟨0x14, (Hash.hash160 redeem).bytes, 1⟩, ⟨0x87, [], 22⟩] := by
    refine Program.parse_eq_ok.mpr ⟨_, chunks_p2sh _, ?_⟩
    have hlength : (Hash.hash160 redeem).bytes.length = 20 := (Hash.hash160 redeem).length_bytes
    simp [Program.place, Chunk.size, hlength, Push.lengthWidth, Opcode.pushData1,
      Opcode.pushData2, Opcode.pushData4]
  have hpushed : Instruction.pushed rules ⟨0x14, (Hash.hash160 redeem).bytes, 1⟩
      = .ok (Hash.hash160 redeem).bytes := by
    refine Instruction.pushed_of_minimal rfl ?_ fun _ => Instruction.requireMinimal_hash _ _
    rw [(Hash.hash160 redeem).length_bytes]
    exact hsize
  have hop : (0x14 : UInt8) ≤ Opcode.sixteen := by decide
  -- Three instructions: the digest of the script, the push of the hash, and the comparison.
  have hrun (program : Program) : Program.run rules
      [⟨0xa9, [], 0⟩, ⟨0x14, (Hash.hash160 redeem).bytes, 1⟩, ⟨0x87, [], 22⟩]
      (.start (redeem :: stack) program []) = .ok () { Frame.start (redeem :: stack) program [] with
        stack := Element.ofBool true :: stack, operations := 2, next := [] } := by
    have hdepth' : (redeem :: stack).length + 1 ≤ rules.limits.stackDepth := hdepth
    have hsame : decide ((Hash.hash160 redeem).bytes = (Hash.hash160 redeem).bytes) = true :=
      decide_eq_true rfl
    refine Program.run_cons_eq_ok.mpr ⟨_, (Instruction.advance_hash160_eq_ok _ rfl
      (Nat.le_of_succ_le hoperations) (by exact Nat.le_of_succ_le hdepth')).mpr
      ⟨_, _, rfl, rfl⟩, ?_⟩
    refine Program.run_cons_eq_ok.mpr ⟨_, (Instruction.advance_push_eq_ok _ hop rfl).mpr
      ⟨_, hpushed, hdepth', rfl⟩, ?_⟩
    refine Program.run_cons_eq_ok.mpr ⟨_, (Instruction.advance_equal_eq_ok _ rfl hoperations
      (by exact hdepth')).mpr ⟨_, _, _, rfl, ?_⟩, rfl⟩
    rw [hsame]
    rfl
  exact eval?_eq_some.mpr ⟨_, hparse, (Program.eval?_eq_some []).mpr ⟨_, hrun _, rfl, rfl⟩⟩

/-- What a script leaves of a stack does not depend on what it is for. -/
theorem Script.eval?_role (script : Script) (role role' : Role) (stack : Stack) :
    script.eval? rules role stack = script.eval? rules role' stack := by
  refine Option.ext fun last => ?_
  simp only [eval?_eq_some, Program.parse_eq_ok]

-- A script without instructions.
theorem Script.eval?_empty {role : Role} (stack : Stack) :
    empty.eval? rules role stack = some stack := by
  have hparse : Program.parse role empty = .ok [] :=
    Program.parse_eq_ok.mpr ⟨[], chunks_eq_ok.mpr ⟨rfl, by simp⟩, rfl⟩
  exact eval?_eq_some.mpr ⟨[], hparse, rfl⟩

/-- One more payload at the end of a script that only pushes lies on top of what the script
    leaves. -/
theorem Script.eval?_add_push {script : Script} {data push : Bytes} {role : Role}
    (stack last : Stack) (honly : script.isPushOnly = true) (hencode : Push.encode data = .ok push)
    (hsize : data.length ≤ rules.limits.elementSize)
    (hminimal : rules.has .minimalData = true → ∃ instruction,
      Program.parse role ⟨push⟩ = .ok [instruction] ∧ instruction.requireMinimal = .ok ()) :
    (script.add push).eval? rules role stack = some last ↔
      ∃ first, script.eval? rules role stack = some first ∧ data :: first = last ∧
        last.length ≤ rules.limits.stackDepth := by
  rcases isPushOnly_iff.mp honly with ⟨chunks, hchunks, hops⟩
  rcases Push.chunks_of_encode hencode with ⟨op, hop, hpush⟩
  have hparse : Program.parse role script = .ok (Program.place 0 chunks) :=
    Program.parse_eq_ok.mpr ⟨chunks, hchunks, rfl⟩
  have hparse' : Program.parse role (script.add push) =
      .ok (Program.place 0 chunks ++ [⟨op, data, 0 + (chunks.map Chunk.size).sum⟩]) :=
    Program.parse_eq_ok.mpr ⟨_, chunks_add hchunks hpush, Program.place_append 0 chunks _⟩
  have hplaced : ∀ instruction ∈ Program.place 0 chunks, instruction.op ≤ Opcode.sixteen := by
    intro instruction hmem
    rcases Program.exists_chunk_of_mem_place hmem with ⟨chunk, hchunk, hsame, _⟩
    rw [hsame]
    exact hops chunk hchunk
  have hpushed : Instruction.pushed rules ⟨op, data, 0 + (chunks.map Chunk.size).sum⟩
      = .ok data := by
    refine Instruction.pushed_of_minimal (Opcode.operation_eq_pushData hop) hsize fun hflag => ?_
    -- The rule does not ask where the push stands.
    rcases hminimal hflag with ⟨instruction, hsingle, hshortest⟩
    rcases Program.parse_eq_ok.mp hsingle with ⟨single, hsingle', hinstruction⟩
    cases hpush.symm.trans hsingle'
    cases hinstruction
    exact Instruction.requireMinimal_eq_ok.mpr (Instruction.requireMinimal_eq_ok.mp hshortest)
  rw [eval?_of_parse hparse, eval?_of_parse hparse',
    Program.eval?_push_append hplaced (UInt8.le_trans hop (by decide)), hpushed]
  constructor
  · rintro ⟨_, first, hdata, heval, hlast, hlimit⟩
    cases hdata
    exact ⟨first, heval, hlast, hlimit⟩
  · rintro ⟨first, heval, hlast, hlimit⟩
    exact ⟨data, first, rfl, heval, hlast, hlimit⟩

end

namespace Machine

/-- A payment to the hash of a script, with that script pushed last, evaluates as the script
    does in the place of the payment, under rules that do not run redeem scripts. -/
theorem evaluates_p2sh_iff {rules plain : Rules} {unlocking redeem : Script} {push : Bytes}
    (last : Stack) (hagrees : plain.Agrees rules) (hp2sh : rules.has .p2sh = true)
    (hplain : plain.has .p2sh = false) (hclean : rules.has .cleanStack = false)
    (hclean' : plain.has .cleanStack = false) (honly : unlocking.isPushOnly = true)
    (hencode : Push.encode redeem.bytes = .ok push)
    (hminimal : rules.has .minimalData = true → ∃ instruction,
      Program.parse .unlocking ⟨push⟩ = .ok [instruction] ∧ instruction.requireMinimal = .ok ())
    (hsize : redeem.length ≤ rules.limits.elementSize ∧ redeem.length ≤ rules.limits.scriptSize)
    (hlimits : 20 ≤ rules.limits.elementSize ∧ 2 ≤ rules.limits.operations)
    (hfew : ∀ stack, unlocking.eval? rules .unlocking [] = some stack →
      stack.length + 2 ≤ rules.limits.stackDepth) :
    Evaluates rules (unlocking.add push) (.p2sh (Hash.hash160 redeem.bytes)) last ↔
      Evaluates plain unlocking redeem last := by
  have hadd (stack : Stack) := Script.eval?_add_push [] stack honly hencode hsize.1 hminimal
  have hpays : rules.has .p2sh = true ∧ (Script.p2sh (Hash.hash160 redeem.bytes)).isP2SH = true :=
    ⟨hp2sh, Script.isP2SH_p2sh _⟩
  have hlast : ¬(plain.has .p2sh = true ∧ redeem.isP2SH = true) := by
    rw [hplain]
    exact fun h => nomatch h.1
  constructor
  · intro h
    rcases h.scripts with ⟨first, second, hunlocking, _, _, hredeem⟩
    rw [if_pos hpays] at hredeem
    rcases (hadd first).mp hunlocking with ⟨stack, hstack, rfl, _⟩
    -- The script that is loaded is the one that has been pushed.
    rcases hredeem with ⟨_, _, hcons, _, heval⟩
    cases hcons
    refine ⟨⟨stack, last, ?_, ?_, h.endsTrue, ?_⟩, h.endsTrue, fun hflag => ?_⟩
    · rw [hagrees.eval?_script]
      exact hstack
    · rw [hagrees.eval?_script, redeem.eval?_role .locking .redeem]
      exact heval
    · rw [if_neg hlast]
    · exact nomatch hclean'.symm.trans hflag
  · intro h
    rcases h.scripts with ⟨stack, second, hunlocking, hlocking, _, hsecond⟩
    rw [if_neg hlast] at hsecond
    subst hsecond
    rw [hagrees.eval?_script] at hunlocking hlocking
    -- There is room for the script, and for the hash that the payment compares.
    have hdepth := hfew stack hunlocking
    have hdepth' : (redeem.bytes :: stack).length ≤ rules.limits.stackDepth :=
      Nat.le_of_succ_le hdepth
    have hfirst := (hadd _).mpr ⟨stack, hunlocking, rfl, hdepth'⟩
    have hpaid := Script.eval?_p2sh .locking redeem.bytes hlimits.1 hlimits.2 hdepth
    refine ⟨⟨_, _, hfirst, hpaid, ⟨_, _, rfl, rfl⟩, ?_⟩, h.endsTrue, fun hflag => ?_⟩
    · rw [if_pos hpays]
      refine ⟨redeem.bytes, stack, rfl, hsize.2, ?_⟩
      rw [Script.eval?_role _ .redeem .locking]
      exact hlocking
    · exact nomatch hclean.symm.trans hflag

-- A script that only pushes can be started against any script that decodes.
theorem exists_start_of_isPushOnly {rules : Rules} {unlocking locking : Script} {second : Program}
    (hflags : ¬(rules.has .cleanStack = true ∧ ¬rules.has .p2sh = true))
    (honly : unlocking.isPushOnly = true) (hunlocking : unlocking.length ≤ rules.limits.scriptSize)
    (hlocking : locking.length ≤ rules.limits.scriptSize)
    (hsecond : Program.parse .locking locking = .ok second) :
    ∃ m, start rules unlocking locking = .ok m := by
  rcases Script.isPushOnly_iff.mp honly with ⟨chunks, hchunks, _⟩
  have hfirst : Program.parse .unlocking unlocking = .ok (Program.place 0 chunks) :=
    Program.parse_eq_ok.mpr ⟨chunks, hchunks, rfl⟩
  exact ⟨_, start_eq_ok.mpr ⟨hflags, hunlocking, hlocking, fun h => h.2 honly, fun h => h.2 honly,
    _, hfirst, second, hsecond, rfl⟩⟩

/-- A run begins where both scripts can be read and neither is too long. -/
theorem exists_start {rules : Rules} {unlocking locking : Script} {second : Program}
    (hclean : rules.has .cleanStack = false) (honly : unlocking.isPushOnly = true)
    (hunlocking : unlocking.length ≤ rules.limits.scriptSize)
    (hlocking : locking.length ≤ rules.limits.scriptSize)
    (hsecond : Program.parse .locking locking = .ok second) :
    ∃ m, start rules unlocking locking = .ok m := by
  refine exists_start_of_isPushOnly ?_ honly hunlocking hlocking hsecond
  rw [hclean]
  exact fun h => absurd h.1 Bool.false_ne_true

/-- A payment to the hash of a script succeeds, with that script pushed last, exactly if the
    script itself succeeds in its place under the same flags but the one for redeem
    scripts. The script must be short enough to be pushed, and the stack must have room
    for two more elements. -/
theorem execute_p2sh_iff {flags : Flags} {context? : Option Context} {input : Nat}
    {unlocking redeem : Script} (hp2sh : flags.has .p2sh = true)
    (hclean : flags.has .cleanStack = false) (honly : unlocking.isPushOnly = true)
    (hsize : redeem.length ≤ 520)
    (hfew : ∀ stack, unlocking.eval? { flags, context?, input } .unlocking [] = some stack →
      stack.length < 999) :
    ∃ push, Push.encode redeem.bytes = .ok push ∧
      ((unlocking.add push).length ≤ 10000 →
        (flags.has .minimalData = true → ∃ instruction,
          Program.parse .unlocking ⟨push⟩ = .ok [instruction] ∧
          instruction.requireMinimal = .ok ()) →
        (execute { flags, context?, input } (unlocking.add push)
            (.p2sh (Hash.hash160 redeem.bytes)) = .success ↔
          execute { flags := flags.without .p2sh, context?, input } unlocking redeem
            = .success)) := by
  rcases Push.exists_encode (Nat.le_trans hsize (by decide)) with ⟨push, hencode⟩
  refine ⟨push, hencode, fun hlength hminimal => ?_⟩
  have hagrees := Rules.agrees_without_p2sh { flags, context?, input }
  have hplain : Rules.has { flags := flags.without .p2sh, context?, input } .p2sh = false :=
    Flags.has_without_self (by decide)
  have hdirty : Rules.has { flags, context?, input } .cleanStack = false := hclean
  have hdirty' : Rules.has { flags := flags.without .p2sh, context?, input } .cleanStack = false :=
    (Flags.has_without (by decide)).trans hclean
  have hroom : ∀ stack, unlocking.eval? { flags, context?, input } .unlocking [] = some stack →
      stack.length + 2 ≤ 1000 := fun stack h => Nat.succ_le_succ (hfew stack h)
  have hlength' : unlocking.length ≤ 10000 := by
    have hsplit : (unlocking.add push).length = unlocking.length + push.length :=
      List.length_append
    omega
  have hsize' : redeem.length ≤ 10000 := by omega
  have hlimits : 20 ≤ 520 ∧ 2 ≤ 200 := by decide
  have hevaluates (last : Stack) := evaluates_p2sh_iff last hagrees hp2sh hplain hdirty hdirty'
    honly hencode hminimal ⟨hsize, hsize'⟩ hlimits hroom
  rw [execute_eq_success, execute_eq_success]
  constructor
  · rintro ⟨_, _, last, h⟩
    -- The redeem script decodes, since it has been evaluated.
    have h' := (hevaluates last).mp h
    rcases h'.scripts with ⟨_, _, _, hredeem, _⟩
    rcases Script.eval?_eq_some.mp hredeem with ⟨second, hsecond, _⟩
    rcases exists_start hdirty' honly hlength' hsize' hsecond with ⟨m, hstart⟩
    exact ⟨m, hstart, last, h'⟩
  · rintro ⟨_, _, last, h⟩
    have hpays : Program.parse .locking (.p2sh (Hash.hash160 redeem.bytes)) = .ok (.place 0 _) :=
      Program.parse_eq_ok.mpr ⟨_, Script.chunks_p2sh _, rfl⟩
    have hshort : (Script.p2sh (Hash.hash160 redeem.bytes)).length ≤ 10000 := by
      rw [Script.length_p2sh]
      decide
    have honly' := Script.isPushOnly_add_push honly hencode
    rcases exists_start hdirty honly' hlength hshort hpays with ⟨m, hstart⟩
    exact ⟨m, hstart, last, (hevaluates last).mpr h⟩

/-- A redeem script that compares the element it is given with a number, for an unlocking
    script that pushes this number. -/
theorem execute_p2sh_iff_equal :
    let flags : Flags := ⟨1 ||| 64⟩
    ∃ push, Push.encode [0x52, 0x87] = .ok push ∧
      execute { flags } (Script.add ⟨[0x52]⟩ push) (.p2sh (Hash.hash160 [0x52, 0x87])) = .success ∧
      execute { flags := flags.without .p2sh } ⟨[0x52]⟩ ⟨[0x52, 0x87]⟩ = .success := by
  intro flags
  -- The unlocking script leaves one element, so there is room for the script as one more.
  have hfew : ∀ stack, Script.eval? { flags } .unlocking ⟨[0x52]⟩ [] = some stack →
      stack.length < 999 := by
    have heval : Script.eval? { flags } .unlocking ⟨[0x52]⟩ [] = some [[2]] := by decide +kernel
    intro stack hstack
    cases heval.symm.trans hstack
    decide
  have honly : Script.isPushOnly ⟨[0x52]⟩ = true := by decide +kernel
  have hsize : Script.length ⟨[0x52, 0x87]⟩ ≤ 520 := by decide
  rcases execute_p2sh_iff (by decide) (by decide) honly hsize hfew with ⟨push, hencode, hiff⟩
  have hpush : Push.encode [0x52, 0x87] = .ok [0x02, 0x52, 0x87] := by decide
  cases hpush.symm.trans hencode
  have hminimal : ∃ instruction, Program.parse .unlocking ⟨[0x02, 0x52, 0x87]⟩ = .ok [instruction] ∧
      instruction.requireMinimal = .ok () :=
    ⟨⟨0x02, [0x52, 0x87], 0⟩, by decide +kernel, by decide +kernel⟩
  have hplain : execute { flags := flags.without .p2sh } ⟨[0x52]⟩ ⟨[0x52, 0x87]⟩ = .success := by
    decide +kernel
  exact ⟨_, hencode, (hiff (by decide) fun _ => hminimal).mpr hplain, hplain⟩

end Machine

end Bitcoin
