import Bitcoin.Proofs.Indexed.Run
import Mathlib.Data.Prod.Lex

/-!
# Runs End Within a Known Number of Steps

A step executes one instruction or, in a script that has none, does nothing but end it. So
a script of so many instructions takes so many steps, or one if it is empty, and a run takes
no more steps than its scripts take together.

What makes this more than a sum is that a run does not know all its scripts at the start:
the redeem script is found on the stack when the locking script is over. The number of the
next instruction begins anew with each script, so no field of a run counts its steps. But
what a run has passed, which is all the scripts before the one that is running and all the
instructions before the next one, grows by one with each step that does not halt. A script
that is added stands behind all the others, where nothing has been passed yet.

## Main definitions

* `Thread.stepBound`: How many steps scripts take at most.
* `Thread.passed`: How many steps lie behind a run.
* `Thread.position`: Where a run is, ordered by scripts and then by instructions.
* `Thread.Loads`: The scripts of a run, with a redeem script or without.
* `Thread.Moves`: What a step does that does not halt.
* `Thread.HaltsAfter`: A run that halts with the last of so many steps.

## Theorems

* `Thread.step_cases`: A step halts or moves.
* `Thread.moves_of_step`, `Thread.Moves.position_lt`: Moves go forward.
* `Thread.Moves.passed`, `Thread.Goes.runFor`: What has been passed is counted.
* `Thread.Goes.haltsAfter`: The step that halts is the last one that scripts have.
* `Thread.ends_within_scripts`: Runs end within the steps that their scripts take.
-/

namespace Bitcoin

namespace Thread

/-- How many steps scripts take at most. -/
def stepBound (scripts : List (Role × Program)) : Nat :=
  (scripts.map fun script => max 1 script.2.length).sum

/-- How many steps lie behind a run. -/
def passed (t : Thread) : Nat :=
  stepBound (t.scripts.take t.script) + t.offset

/-- Where a run is. The scripts decide, and within a script the instructions. -/
def position (t : Thread) : Nat ×ₗ Nat :=
  toLex (t.script, t.offset)

/-- The scripts of a run: the two that it has been started with, and the redeem script
    once it is there. -/
inductive Loads (first second : Program) : List (Role × Program) → Prop where
  | two : Loads first second [(.unlocking, first), (.locking, second)]
  | three {redeem : Script} {third : Program} (parse : Program.parse .redeem redeem = .ok third) :
      Loads first second [(.unlocking, first), (.locking, second), (.redeem, third)]

/-- What becomes of the scripts where the numbered one begins. -/
inductive Adds (scripts : List (Role × Program)) (script : Nat) :
    List (Role × Program) → Prop where
  | nothing : Adds scripts script scripts
  | redeem {redeem : Script} {program : Program} (third : script = 2)
      (parse : Program.parse .redeem redeem = .ok program) :
      Adds scripts script (scripts ++ [(.redeem, program)])

/-- A run that has left a script for the next one. -/
structure Leaves (t t' : Thread) : Prop where
  status : t'.status = t.status
  script : t'.script = t.script + 1
  offset : t'.offset = 0
  scripts : Adds t.scripts t'.script t'.scripts
  lt_length : t'.script < t'.scripts.length

/-- A run that has halted where it was. -/
structure Stops (t t' : Thread) : Prop where
  halted : t'.status ≠ .running
  scripts : t'.scripts = t.scripts

/-- What a step does that does not halt. -/
inductive Moves (t t' : Thread) : Prop where
  /-- It goes on to the next instruction. -/
  | within (status : t'.status = t.status) (scripts : t'.scripts = t.scripts)
      (script : t'.script = t.script) (offset : t'.offset = t.offset + 1)
      (lt_length : t'.offset < t.place.program.length)
  /-- It goes on to the next script, behind the last instruction. -/
  | beyond (leaves : t.Leaves t') (past : t.place.program.length ≤ t.offset + 1)

/-- A run that halts with the last of so many steps. -/
structure HaltsAfter (t : Thread) (count : Nat) (last : Thread) : Prop where
  running : ∀ earlier < count, ∃ between, runFor earlier t = some between ∧
    between.status = .running
  runFor : runFor count t = some last
  halted : last.status ≠ .running

variable {t t' : Thread}

section
variable {scripts scripts' : List (Role × Program)} {script : Nat}

-- A script that has just been added is still to run.
theorem Adds.eq_of_length_le (h : Adds scripts script scripts') (hbefore : script ≤ scripts.length)
    (hover : scripts'.length ≤ script) : scripts' = scripts := by
  cases h with
  | nothing => rfl
  | redeem =>
      rw [List.length_append, List.length_singleton] at hover
      omega

/-- A script is added behind the second one only. -/
theorem Adds.eq_of_ne (h : Adds scripts script scripts') (hne : script ≠ 2) :
    scripts' = scripts := by
  cases h with
  | nothing => rfl
  | redeem third => exact absurd third hne

/-- What has been passed stays as it is. -/
theorem Adds.take_eq (h : Adds scripts script scripts') (hbefore : script ≤ scripts.length) :
    scripts'.take script = scripts.take script := by
  cases h with
  | nothing => rfl
  | redeem => exact List.take_append_of_le_length hbefore

/-- No script is added but the redeem script, behind the two others. -/
theorem Loads.adds {first second : Program} (h : Loads first second scripts)
    (hadds : Adds scripts script scripts') (hlength : script = 2 → scripts.length = 2) :
    Loads first second scripts' := by
  cases hadds with
  | nothing => exact h
  | redeem third parse =>
      cases h with
      | two => exact .three parse
      | three => cases hlength third

/-- The bound of scripts is the sum of theirs. -/
theorem stepBound_append (scripts scripts' : List (Role × Program)) :
    stepBound (scripts ++ scripts') = stepBound scripts + stepBound scripts' := by
  rw [stepBound, List.map_append, List.sum_append]
  rfl

/-- Fewer scripts have a smaller bound. -/
theorem stepBound_take_le (scripts : List (Role × Program)) (count : Nat) :
    stepBound (scripts.take count) ≤ stepBound scripts := by
  have hsplit := stepBound_append (scripts.take count) (scripts.drop count)
  rw [List.take_append_drop] at hsplit
  omega

end

/-- The running script takes as many steps as it has instructions, or one. -/
theorem stepBound_take_succ (h : t.script < t.scripts.length) :
    stepBound (t.scripts.take (t.script + 1)) =
      stepBound (t.scripts.take t.script) + max 1 t.place.program.length := by
  have hprogram : t.place.program = (t.scripts[t.script]).2 :=
    Indexed.Place.program_eq (List.getElem?_eq_getElem h)
  rw [List.take_add_one, List.getElem?_eq_getElem h, stepBound_append, hprogram]
  rfl

/-! ## What a step does -/

/-- The redeem script is added where the third script begins. -/
theorem adds_of_prepare (h : t.prepare = .ok t') :
    t'.status = t.status ∧ t'.script = t.script ∧ t'.offset = t.offset ∧
      Adds t.scripts t.script t'.scripts := by
  unfold prepare at h
  split at h
  · split at h
    · cases h
      exact ⟨rfl, rfl, rfl, .nothing⟩
    · -- Behind the second script the redeem script is added, if it can be read.
      next hscript =>
      rcases (alike_loadRedeem t).fault_or_ok with ⟨failure, hresult, _⟩ |
        ⟨loaded, ⟨program, stack⟩, hresult, hmachine, hloaded⟩
      · rw [hresult] at h
        cases h
      · rw [hresult] at h
        cases h
        rcases Machine.redeemProgram_eq_ok.mp hmachine with ⟨_, script, _, _, hparse⟩
        rw [hloaded]
        exact ⟨rfl, rfl, rfl, .redeem hscript hparse⟩
    · cases h
      exact ⟨rfl, rfl, rfl, .nothing⟩
  · cases h
    exact ⟨rfl, rfl, rfl, .nothing⟩

/-- A run leaves a script for the next one, or it has succeeded with the last one. -/
theorem endScript_cases {role : Role} (hlength : t.script < t.scripts.length)
    (h : t.endScript role = .ok t') : t.Stops t' ∨ t.Leaves t' := by
  rcases Result.guard_eq_ok.mp h with ⟨_, h⟩
  rcases Result.bind_eq_ok.mp h with ⟨next, hprepare, h⟩
  rcases adds_of_prepare hprepare with ⟨hstatus, hscript, hoffset, hadds⟩
  have hscript' : next.script = t.script + 1 := hscript
  rw [← hscript] at hadds
  -- There is a next script, or this has been the last one.
  split at h
  · next hover =>
    rcases Result.check_eq_ok.mp h with ⟨_, h⟩
    cases h
    exact .inl ⟨nofun, hadds.eq_of_length_le (hscript' ▸ hlength) hover⟩
  · next hmore =>
    cases h
    exact .inr ⟨hstatus, hscript', hoffset, hadds, Nat.lt_of_not_le hmore⟩

/-- A run that fails keeps its scripts. -/
theorem settle_cases {result : Except (Stop Failure) Thread} (h : t.settle result = some t') :
    t.Stops t' ∨ result = .ok t' := by
  unfold settle at h
  split at h
  · cases h
    exact .inr rfl
  · cases h
    exact .inl ⟨nofun, rfl⟩
  · cases h

theorem settle_endScript_cases {role : Role} (hlength : t.script < t.scripts.length)
    (h : t.settle (t.endScript role) = some t') : t.Stops t' ∨ t.Leaves t' := by
  rcases settle_cases h with hhalts | hresult
  · exact .inl hhalts
  · exact endScript_cases hlength hresult

/-- Behind an instruction comes the next one or the end of the script. -/
theorem executeNext_cases {role : Role} {program : Program} {instruction : Instruction}
    (hlookup : t.scripts[t.script]? = some (role, program))
    (h : t.executeNext role instruction = some t') : t.Stops t' ∨ t.Moves t' := by
  have hprogram : t.place.program = program := Indexed.Place.program_eq hlookup
  unfold executeNext at h
  split at h
  · cases h
  · cases h
    exact .inl ⟨nofun, rfl⟩
  · next store _ =>
    simp only [hlookup, Option.bind_eq_bind, Option.bind_some] at h
    split at h
    · next hmore =>
      cases h
      exact .inr (.within rfl rfl rfl rfl (hprogram ▸ hmore))
    · next hover =>
      have hlength := (List.getElem?_eq_some_iff.mp hlookup).1
      -- It is the run behind the instruction that is at the end of its script.
      rcases settle_endScript_cases (t := { t with store, offset := t.offset + 1 }) hlength h
        with hstops | hleaves
      · exact .inl ⟨hstops.halted, hstops.scripts⟩
      · refine .inr (.beyond ⟨hleaves.status, hleaves.script, hleaves.offset, hleaves.scripts,
          hleaves.lt_length⟩ ?_)
        rw [hprogram]
        exact Nat.le_of_not_lt hover

/-- A step halts and keeps the scripts, or it moves. -/
theorem step_cases (hrunning : t.status = .running) (hstep : t.step = some t') :
    t.Stops t' ∨ t.Moves t' := by
  rw [step, hrunning] at hstep
  rcases Option.bind_eq_some_iff.mp hstep with ⟨⟨role, program⟩, hlookup, hstep⟩
  have hlength := (List.getElem?_eq_some_iff.mp hlookup).1
  dsimp only at hstep
  split at hstep
  · -- The offset is behind the last instruction, so the script ends.
    next hend =>
    refine (settle_endScript_cases hlength hstep).imp_right fun hleaves => .beyond hleaves ?_
    have hover := List.getElem?_eq_none_iff.mp hend
    have hprogram : t.place.program = program := Indexed.Place.program_eq hlookup
    rw [hprogram]
    omega
  · exact executeNext_cases hlookup hstep

theorem Moves.status (h : t.Moves t') : t'.status = t.status := by
  cases h with
  | within status => exact status
  | beyond leaves => exact leaves.status

/-- A step after which the run is still on was a move. -/
theorem moves_of_step (hstep : t.step = some t') (hrunning : t'.status = .running) :
    t.Moves t' := by
  by_cases hbefore : t.status = .running
  · exact (step_cases hbefore hstep).resolve_left fun hstops => hstops.halted hrunning
  · rw [step_of_halted hbefore] at hstep
    cases hstep
    exact absurd hrunning hbefore

/-- Moves go forward. -/
theorem Moves.position_lt (h : t.Moves t') : t.position < t'.position := by
  rw [position, position, Prod.Lex.toLex_lt_toLex]
  cases h with
  | within _ _ script offset _ => exact .inr ⟨script.symm, by omega⟩
  | beyond leaves _ =>
      have hscript := leaves.script
      exact .inl (by omega)

/-- A run that has halted stays as it is through any number of steps. -/
theorem runFor_of_halted (h : t.status ≠ .running) (count : Nat) : runFor count t = some t := by
  induction count with
  | zero => rfl
  | succ count ih =>
      rw [runFor, step_of_halted h]
      exact ih

/-- A run goes on from where its first part has led. -/
theorem runFor_add {count : Nat} (h : runFor count t = some t') (more : Nat) :
    runFor (count + more) t = runFor more t' := by
  induction count generalizing t with
  | zero =>
      cases h
      rw [Nat.zero_add]
  | succ count ih =>
      rcases Option.bind_eq_some_iff.mp h with ⟨between, hstep, hrest⟩
      rw [Nat.succ_add, runFor, hstep]
      exact ih hrest

/-! ## What a run has passed -/

/-- A move passes an instruction, or else the only step of an empty script. -/
theorem Moves.passed (h : t.Moves t') (hlength : t.script < t.scripts.length)
    (hoffset : t.offset < max 1 t.place.program.length) : t'.passed = t.passed + 1 := by
  unfold Thread.passed
  cases h with
  | within _ scripts script offset _ =>
      rw [scripts, script, offset]
      omega
  | beyond leaves past =>
      have hadds := leaves.scripts
      rw [leaves.script] at hadds
      rw [leaves.script, leaves.offset, hadds.take_eq hlength, stepBound_take_succ hlength]
      omega

/-- A run that is on, and what has been passed in so many steps. -/
structure Goes (first second : Program) (count : Nat) (t : Thread) : Prop where
  loads : Loads first second t.scripts
  -- The redeem script is not there before it runs.
  length : t.script < 2 → t.scripts.length = 2
  lt_length : t.script < t.scripts.length
  passed : t.passed = count
  offset : t.offset < max 1 t.place.program.length

section
variable {first second : Program} {count : Nat}

/-- As long as a script goes on, there is room below the bound. -/
theorem Goes.lt_stepBound (h : Goes first second count t) : count < stepBound t.scripts := by
  have hpassed := h.passed
  have hoffset := h.offset
  have hle := stepBound_take_le t.scripts (t.script + 1)
  rw [stepBound_take_succ h.lt_length] at hle
  unfold Thread.passed at hpassed
  omega

/-- What describes a run that is on is true behind each move, with one more step. -/
theorem Goes.moves (h : Goes first second count t) (hmoves : t.Moves t') :
    Goes first second (count + 1) t' := by
  have hpassed : t'.passed = count + 1 := by
    rw [hmoves.passed h.lt_length h.offset, h.passed]
  cases hmoves with
  -- Within a script the offset grows by one, and it was within the program before.
  | within _ scripts script offset lt_length =>
      have hprogram : t'.place.program = t.place.program := by
        rw [Indexed.Place.program, Indexed.Place.program, place, place, scripts, script]
      refine ⟨scripts ▸ h.loads, ?_, ?_, hpassed, ?_⟩
      · rw [scripts, script]
        exact h.length
      · rw [scripts, script]
        exact h.lt_length
      · rw [hprogram]
        omega
  -- The next script begins at its first instruction.
  | beyond leaves _ =>
      have hscript := leaves.script
      have hadds := leaves.scripts
      refine ⟨h.loads.adds hadds fun _ => h.length (by omega), fun hsecond => ?_, leaves.lt_length,
        hpassed, ?_⟩
      · rw [hadds.eq_of_ne (by omega)]
        exact h.length (by omega)
      · rw [leaves.offset]
        omega

/-- As long as a run is on, all its steps have been passed. -/
theorem Goes.runFor {steps : Nat} (h : Goes first second count t)
    (hrun : Thread.runFor steps t = some t') (hrunning : t'.status = .running) :
    Goes first second (count + steps) t' := by
  induction steps generalizing count t with
  | zero =>
      cases hrun
      exact h
  | succ steps ih =>
      rcases Option.bind_eq_some_iff.mp hrun with ⟨between, hstep, hrest⟩
      -- A run that had halted in between would still be so.
      have hbetween : between.status = .running := by
        by_contra hhalted
        rw [runFor_of_halted hhalted] at hrest
        cases hrest
        exact hhalted hrunning
      have hgoes := ih (h.moves (moves_of_step hstep hbetween)) hrest
      rw [Nat.add_right_comm] at hgoes
      exact hgoes

end

section
variable {rules : Rules} {unlocking locking : Script} {first second : Program}

/-- A run begins with two scripts, in front of all their instructions. -/
theorem goes_of_start (h : start rules unlocking.bytes locking.bytes = .ok t) :
    ∃ first second, Program.parse .unlocking unlocking = .ok first ∧
      Program.parse .locking locking = .ok second ∧ t.status = .running ∧
      Goes first second 0 t := by
  have hparse {role : Role} {script : Script} {program : Program}
      (hresult : Indexed.parse role script.bytes = .ok program) :
      Program.parse role script = .ok program := by
    rw [Indexed.agrees_parse] at hresult
    exact Result.mapError_eq_ok.mp hresult
  rw [start] at h
  -- The checks before a run, one after the other. Only reading the two scripts gives something.
  rcases Result.guard_eq_ok.mp h with ⟨_, h⟩
  rcases Result.check_eq_ok.mp h with ⟨_, h⟩
  rcases Result.check_eq_ok.mp h with ⟨_, h⟩
  rcases Result.bind_eq_ok.mp h with ⟨_, _, h⟩
  rcases Result.guard_eq_ok.mp h with ⟨_, h⟩
  rcases Result.bind_eq_ok.mp h with ⟨_, _, h⟩
  rcases Result.guard_eq_ok.mp h with ⟨_, h⟩
  rcases Result.bind_eq_ok.mp h with ⟨first, hfirst, h⟩
  rcases Result.bind_eq_ok.mp h with ⟨second, hsecond, h⟩
  cases h
  exact ⟨first, second, hparse hfirst, hparse hsecond, rfl, .two, fun _ => rfl, Nat.zero_lt_two,
    rfl, lt_max_of_lt_left Nat.zero_lt_one⟩

/-- A run that shows a machine halts when the machine does. -/
theorem haltsAfter_of_shows {m : Machine} {count : Nat} (h : t.Shows m)
    (hrunning : ∀ earlier < count, (Machine.runFor earlier m).status = .running)
    (hhalted : (Machine.runFor count m).status ≠ .running) :
    ∃ last, t.HaltsAfter count last ∧ last.Shows (Machine.runFor count m) := by
  rcases shows_runFor h count with ⟨last, hrun, hlast⟩
  refine ⟨last, ⟨fun earlier hearlier => ?_, hrun, ?_⟩, hlast⟩
  · rcases shows_runFor h earlier with ⟨between, hbetween, hshows⟩
    exact ⟨between, hbetween, hshows.status.trans (hrunning earlier hearlier)⟩
  · rw [hlast.status]
    exact hhalted

/-- The step that halts is one more than those that have been passed before it, and it adds
    no script. -/
theorem Goes.haltsAfter {last : Thread} {steps : Nat} (h : Goes first second 0 t)
    (hrunning : t.status = .running) (hhalts : t.HaltsAfter steps last) :
    Loads first second last.scripts ∧ steps ≤ stepBound last.scripts := by
  cases steps with
  | zero =>
      cases hhalts.runFor
      exact absurd hrunning hhalts.halted
  -- The thread is still going one step before the end, so the bound has not been reached there.
  | succ steps =>
      rcases hhalts.running steps (Nat.lt_succ_self steps) with ⟨before, hbefore, hstatus⟩
      have hgoes := h.runFor hbefore hstatus
      rw [Nat.zero_add] at hgoes
      have hlast := hhalts.runFor
      rw [runFor_add hbefore] at hlast
      rcases Option.bind_eq_some_iff.mp hlast with ⟨after, hstep, hsame⟩
      cases hsame
      rcases step_cases hstatus hstep with hstops | hmoves
      · rw [hstops.scripts]
        exact ⟨hgoes.loads, hgoes.lt_stepBound⟩
      · exact absurd (hmoves.status.trans hstatus) hhalts.halted

/-- A run that has been accepted halts after at most as many steps as its scripts take, the
    redeem script among them if it has been loaded, and with what the machine halts with.
    Each step after which it is still on moves it forward. Once it has halted, nothing of it
    changes any more. -/
theorem ends_within_scripts (hstart : start rules unlocking.bytes locking.bytes = .ok t) :
    (∃ first second m, Program.parse .unlocking unlocking = .ok first ∧
      Program.parse .locking locking = .ok second ∧ Machine.start rules unlocking locking = .ok m ∧
      ∃ count last, t.HaltsAfter count last ∧ Loads first second last.scripts ∧
        count ≤ stepBound last.scripts ∧ (∀ more, runFor (count + more) t = some last) ∧
        (∀ earlier < count, (Machine.runFor earlier m).status = .running) ∧
        (∀ more, Machine.runFor (count + more) m = m.run) ∧
        last.status = m.run.status ∧ last.store.items.reverse = m.run.frame.stack) ∧
    ∀ count before after, runFor count t = some before → before.step = some after →
      after.status = .running → before.position < after.position := by
  refine ⟨?_, fun _ _ _ _ hstep hrunning => (moves_of_step hstep hrunning).position_lt⟩
  rcases goes_of_start hstart with ⟨first, second, hfirst, hsecond, hrunning, hgoes⟩
  rcases (alike_start rules unlocking locking).fault_or_ok with ⟨failure, hfailed, _⟩ |
    ⟨t', m, hstart', hmachine, hshows⟩
  · cases hstart.symm.trans hfailed
  · cases hstart.symm.trans hstart'
    -- The machine halts for the first time after some number of steps, and the thread with it.
    rcases Machine.exists_first_halt hmachine with ⟨count, hearlier, hhalted, hrun⟩
    rcases haltsAfter_of_shows hshows hearlier hhalted with ⟨last, hhalts, hlast⟩
    rcases hgoes.haltsAfter hrunning hhalts with ⟨hloads, hbound⟩
    refine ⟨first, second, m, hfirst, hsecond, hmachine, count, last, hhalts, hloads, hbound,
      fun more => ?_, hearlier, fun more => ?_, ?_, ?_⟩
    · rw [runFor_add hhalts.runFor]
      exact runFor_of_halted hhalts.halted more
    · rw [Machine.runFor_add, Machine.runFor_of_halted hhalted, hrun]
    · rw [hlast.status, hrun]
    · rw [hlast.stack, hrun]

/-- A payment to the hash of a script that compares two numbers. -/
theorem ends_within_scripts_redeem :
    let rules : Rules := { flags := ⟨1 ||| 256⟩ }
    let unlocking : Script := ⟨[0x51, 0x02, 0x51, 0x87]⟩
    let locking := Script.p2sh (Hash.hash160 [0x51, 0x87])
    ∃ t, start rules unlocking.bytes locking.bytes = .ok t ∧
      ∃ count last, t.HaltsAfter count last ∧ last.status = .succeeded ∧
        count ≤ stepBound last.scripts := by
  intro rules unlocking locking
  -- The run succeeds, and the bound is about the thread of this run.
  have hsuccess : Machine.execute rules unlocking locking = .success := by decide +kernel
  rcases Machine.execute_eq_success.mp hsuccess with ⟨m, hmachine, evaluated, hevaluates⟩
  rcases (alike_start rules unlocking locking).fault_or_ok with ⟨failure, _, hfailed⟩ |
    ⟨t, _, hstart, _⟩
  · cases hmachine.symm.trans hfailed
  · rcases (ends_within_scripts hstart).1 with
      ⟨_, _, m', _, _, hmachine', count, last, hhalts, _, hbound, _, _, _, hstatus, _⟩
    cases hmachine.symm.trans hmachine'
    rw [(Machine.run_of_evaluates hmachine hevaluates).1] at hstatus
    exact ⟨t, hstart, count, last, hhalts, hstatus, hbound⟩

end

end Thread

end Bitcoin
