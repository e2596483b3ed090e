import Bitcoin.Proofs.Machine.Replies
import Bitcoin.Proofs.Machine.Step
import Bitcoin.Proofs.Script.Walk

/-!
# What Signatures Are Checked Over

A signature commits to a part of the script that it is checked in: to what follows the last
code separator that has taken effect, without the pushes of the signatures that are checked
together. Where no separator has taken effect that is the whole script, and the separators
of the script before do not count.

The frame holds this part as it is at each time. It is told here by the steps of the
run: since which step the machine has been in the script, how many instructions
it has executed there, one in each step, and which of them were separators. This description
starts with each script, is kept by each instruction, and moves its mark only with a
separator. So it holds whenever something is asked, and with what is known of the
questions of a single instruction it says what all of them are about.

A push is left out if its bytes are those of the smallest push of a signature. This depends on
the instruction alone, so it does not matter in which order the signatures are gone
through, and what is left decodes to the instructions that are left.

All of this is about the record of questions. That the context is asked these questions, no
others, and is listened to, is said of each step by `Machine.Consults`.

## Main definitions

* `Chunk.withoutPushes`: Leaving out the pushes of some signatures.
* `Machine.ScriptAt`, `Machine.Amid`: Which script runs, and how far.
* `Machine.Separates`, `Machine.Marks`: The last code separator that has taken effect.
* `Machine.Reads`: All of that, with what signatures commit to.

## Theorems

* `Frame.scriptCode_perm`, `Frame.chunks_scriptCode`: The script code of some signatures.
* `Machine.Reads.enter`, `Machine.Reads.move`, `Machine.Reads.enters`: The beginning of a script,
  one instruction, and the end of a script.
* `Machine.reads_of_running`: Every step of a run.
* `Machine.asked_of_step`: The questions of one step.
* `Machine.asked_over_code`: The questions of a run.
-/

namespace Bitcoin

/-- The chunks that are not the smallest push of one of the given payloads. A wider push of
    such a payload stays. -/
def Chunk.withoutPushes (sigs : List Bytes) (chunks : List Chunk) : List Chunk :=
  chunks.filter fun chunk => ∀ sig ∈ sigs, Push.encode sig ≠ .ok chunk.encode

/-- Leaving out the pushes of several payloads, one payload after the other, leaves the
    instructions that are none of these pushes. -/
theorem Program.foldl_removePush (program : Program) (sigs : List Bytes) :
    sigs.foldl removePush program =
      program.filter fun instruction => ∀ sig ∈ sigs, Push.encode sig ≠ .ok instruction.encode := by
  induction sigs generalizing program with
  | nil => exact (List.filter_eq_self.mpr fun _ _ => by simp).symm
  | cons sig sigs ih =>
      -- A signature that cannot be pushed at all removes nothing.
      have hremove : program.removePush sig =
          program.filter fun instruction => Push.encode sig ≠ .ok instruction.encode := by
        rw [removePush.eq_def]
        rcases Push.encode sig with fault | pattern
        · exact (List.filter_eq_self.mpr fun _ _ => by simp).symm
        · simp [eq_comm]
      rw [List.foldl_cons, ih, hremove, List.filter_filter]
      simp only [List.forall_mem_cons, Bool.decide_and, Bool.and_comm]

theorem Program.map_encode_place (offset : Nat) (chunks : List Chunk) :
    (place offset chunks).map Instruction.encode = chunks.map Chunk.encode := by
  induction chunks generalizing offset with
  | nil => rfl
  | cons chunk chunks ih =>
      rw [place, List.map_cons, List.map_cons, ih]
      rfl

namespace Frame

variable {frame : Frame} {chunks : List Chunk} {mark : Nat}

/-- The order in which pushes are left out does not matter. -/
theorem scriptCode_perm {sigs order : List Bytes} (h : order.Perm sigs) :
    frame.scriptCode order = frame.scriptCode sigs := by
  rw [scriptCode, scriptCode, Program.foldl_removePush, Program.foldl_removePush]
  simp only [h.mem_iff]

/-- The script code decodes to what is left of the chunks that signatures commit to. -/
theorem chunks_scriptCode (hformed : ∀ chunk ∈ chunks, chunk.WellFormed)
    (h : frame.signed = (Program.place 0 chunks).drop mark) (sigs : List Bytes) :
    (frame.scriptCode sigs).chunks = .ok (Chunk.withoutPushes sigs (chunks.drop mark)) := by
  refine Script.chunks_eq_ok.mpr ⟨?_, fun chunk hmem => ?_⟩
  · -- Whether an instruction stays depends on its bytes only, and these are the chunk's.
    have hencode : ((Program.place 0 chunks).drop mark).map Instruction.encode
        = (chunks.drop mark).map Chunk.encode := by
      rw [List.map_drop, Program.map_encode_place, List.map_drop]
    have hfilter := congrArg (List.filter fun bytes => ∀ sig ∈ sigs, Push.encode sig ≠ .ok bytes)
      hencode
    rw [List.filter_map, List.filter_map] at hfilter
    rw [scriptCode, Program.foldl_removePush, h, Program.unparse, Chunk.withoutPushes]
    rw [List.flatMap_def, List.flatMap_def]
    exact congrArg List.flatten hfilter
  · exact hformed chunk (List.mem_of_mem_drop (List.mem_filter.mp hmem).1)

end Frame

/-- An instruction has the opcode of the chunk in its place. -/
theorem Program.getElem?_place {offset index : Nat} {chunks : List Chunk}
    {instruction : Instruction} (h : (place offset chunks)[index]? = some instruction) :
    ∃ chunk, chunks[index]? = some chunk ∧ chunk.op = instruction.op := by
  have hplace := congrArg (fun pairs => pairs[index]?) (map_place offset chunks)
  simp only [List.getElem?_map, h, Option.map_some] at hplace
  rcases Option.map_eq_some_iff.mp hplace.symm with ⟨chunk, hchunk, hpair⟩
  exact ⟨chunk, hchunk, congrArg Prod.fst hpair⟩

theorem Program.length_place (offset : Nat) (chunks : List Chunk) :
    (place offset chunks).length = chunks.length := by
  have hplace := congrArg List.length (map_place offset chunks)
  rwa [List.length_map, List.length_map] at hplace

theorem Opcode.operation_eq_codeSeparator {op : UInt8} :
    operation op = .crypto .codeSeparator ↔ op = codeSeparator :=
  of_all (p := fun op => operation op = .crypto .codeSeparator ↔ op = codeSeparator) op
    (by decide +kernel)

namespace Machine

/-- The script that runs at a stage of a run from its beginning. A redeem script is what the
    unlocking script has left on top. -/
def ScriptAt (m : Machine) (unlocking locking : Script) : Stage → Script → Prop
  | .unlocking _, script => script = unlocking
  | .locking _, script => script = locking
  | .redeem, script => ∃ rest, m.finishScript.frame.stack = script.bytes :: rest

/-- Since a given step the machine has been in one script, of which it has executed so many
    instructions, one in each step. -/
structure Amid (m : Machine) (chunks : List Chunk) (first position : Nat) : Prop where
  within : position < max 1 chunks.length
  stage : ∀ done ≤ position, (runFor (first + done) m).stage = (runFor first m).stage
  next : ∀ done ≤ position,
    (runFor (first + done) m).frame.next = (Program.place 0 chunks).drop done

/-- The instruction in a place of the script is a code separator, and it takes effect. -/
def Separates (m : Machine) (chunks : List Chunk) (first index : Nat) : Prop :=
  (∃ chunk, chunks[index]? = some chunk ∧ chunk.op = Opcode.codeSeparator) ∧
    (runFor (first + index) m).frame.isLive = true

/-- The place behind the last code separator that has taken effect so far, or the beginning
    of the script. -/
structure Marks (m : Machine) (chunks : List Chunk) (first position mark : Nat) : Prop where
  le : mark ≤ position
  behind : ∀ index, mark = index + 1 → m.Separates chunks first index
  last : ∀ index, mark ≤ index → index < position → ¬m.Separates chunks first index

/-- The machine is in a script, and signatures commit to what follows a mark. -/
structure Reads (m : Machine) (unlocking locking script : Script) (chunks : List Chunk)
    (first position mark : Nat) : Prop where
  runs : m.ScriptAt unlocking locking (runFor (first + position) m).stage script
  decodes : script.chunks = .ok chunks
  amid : m.Amid chunks first position
  marks : m.Marks chunks first position mark
  signed : (runFor (first + position) m).frame.signed = (Program.place 0 chunks).drop mark

variable {m : Machine} {unlocking locking script : Script} {chunks : List Chunk}
  {first position mark : Nat}

/-- A separator that has been executed is one that was met outside of skipped blocks. -/
theorem separates_iff {instruction : Instruction}
    (hfound : (Program.place 0 chunks)[position]? = some instruction) :
    m.Separates chunks first position ↔ instruction.operation = .crypto .codeSeparator ∧
      (runFor (first + position) m).frame.isLive = true := by
  refine and_congr_left fun _ => ?_
  rcases Program.getElem?_place hfound with ⟨chunk, hchunk, hop⟩
  rw [Instruction.operation, Opcode.operation_eq_codeSeparator, ← hop]
  constructor
  · rintro ⟨other, hother, hseparator⟩
    cases hchunk.symm.trans hother
    exact hseparator
  · exact fun hseparator => ⟨chunk, hchunk, hseparator⟩

/-- A separator moves the mark behind itself. -/
theorem Marks.move (h : m.Separates chunks first position) :
    m.Marks chunks first (position + 1) (position + 1) := by
  refine ⟨le_rfl, fun index hindex => ?_, fun index hle hlt => ?_⟩
  · rwa [← Nat.succ.inj hindex]
  · omega

/-- Any other instruction leaves it where it is. -/
theorem Marks.stay (hmarks : m.Marks chunks first position mark)
    (h : ¬m.Separates chunks first position) : m.Marks chunks first (position + 1) mark := by
  refine ⟨Nat.le_succ_of_le hmarks.le, hmarks.behind, fun index hle hlt => ?_⟩
  rcases Nat.lt_succ_iff_lt_or_eq.mp hlt with hlt | rfl
  · exact hmarks.last index hle hlt
  · exact h

/-- The next instruction is the one in its place, and behind it is the rest of the script. -/
theorem Amid.place_eq (h : m.Amid chunks first position) {instruction : Instruction}
    {rest : Program} (hnext : (runFor (first + position) m).frame.next = instruction :: rest) :
    (Program.place 0 chunks)[position]? = some instruction ∧
      (Program.place 0 chunks).drop (position + 1) = rest := by
  have hplace := (h.next position le_rfl).symm.trans hnext
  exact ⟨by rw [← List.head?_drop, hplace, List.head?_cons],
    by rw [← List.tail_drop, hplace, List.tail_cons]⟩

/-- One more instruction of the script, with at least one behind it. -/
theorem Amid.move (h : m.Amid chunks first position)
    {frame : Frame} {instruction : Instruction} {rest : Program}
    (hnext : (runFor (first + position) m).frame.next = instruction :: rest) (hrest : rest ≠ [])
    (hframe : frame.next = rest)
    (hstep : runFor (first + (position + 1)) m = { runFor (first + position) m with frame }) :
    m.Amid chunks first (position + 1) := by
  have hbehind := (h.place_eq hnext).2
  refine ⟨?_, fun done hdone => ?_, fun done hdone => ?_⟩
  · -- There is a rest, so the next position is within the program.
    have hshort : ¬(Program.place 0 chunks).length ≤ position + 1 := fun hc =>
      hrest (hbehind.symm.trans (List.drop_eq_nil_of_le hc))
    rw [Program.length_place] at hshort
    omega
  · rcases Nat.le_succ_iff.mp hdone with hdone | rfl
    · exact h.stage done hdone
    · rw [hstep]
      exact h.stage position le_rfl
  · -- The steps before are as they were, and the last one leaves the rest of the program.
    rcases Nat.le_succ_iff.mp hdone with hdone | rfl
    · exact h.next done hdone
    · rw [hstep, hbehind]
      exact hframe

/-- A script is entered at its beginning, where nothing is marked. -/
theorem Reads.enter {stack : Stack} {checks : List SignatureCheck}
    (hscript : m.ScriptAt unlocking locking (runFor first m).stage script)
    (hchunks : script.chunks = .ok chunks)
    (hframe : (runFor first m).frame = .start stack (Program.place 0 chunks) checks) :
    m.Reads unlocking locking script chunks first 0 0 := by
  refine ⟨hscript, hchunks, ⟨by omega, ?_, ?_⟩, ⟨le_rfl, ?_, ?_⟩, ?_⟩
  · intro done hdone
    rw [Nat.le_zero.mp hdone, Nat.add_zero]
  · intro done hdone
    rw [Nat.le_zero.mp hdone, Nat.add_zero, hframe]
    rfl
  · intro index hindex
    omega
  · intro index _ hindex
    omega
  · rw [Nat.add_zero, hframe]
    rfl

/-- From one instruction of a script to the next. -/
theorem Reads.move (h : m.Reads unlocking locking script chunks first position mark)
    {frame : Frame} {instruction : Instruction} {rest : Program}
    (hnext : (runFor (first + position) m).frame.next = instruction :: rest) (hrest : rest ≠ [])
    (hadvance : instruction.advance (runFor (first + position) m).rules rest
      (runFor (first + position) m).frame = .ok () frame)
    (hstep : runFor (first + (position + 1)) m = { runFor (first + position) m with frame }) :
    ∃ mark', m.Reads unlocking locking script chunks first (position + 1) mark' := by
  rcases h.amid.place_eq hnext with ⟨hfound, hbehind⟩
  have hruns : m.ScriptAt unlocking locking (runFor (first + (position + 1)) m).stage script := by
    rw [hstep]
    exact h.runs
  have hamid := h.amid.move hnext hrest (next_of_advance hadvance) hstep
  have hsigned := Instruction.signed_advance hadvance
  -- What is signed moves with the mark, or both stay.
  by_cases hseparates : m.Separates chunks first position
  · rw [if_pos ((separates_iff hfound).mp hseparates)] at hsigned
    refine ⟨position + 1, hruns, h.decodes, hamid, .move hseparates, ?_⟩
    rw [hstep, hbehind]
    exact hsigned
  · rw [if_neg (mt (separates_iff hfound).mpr hseparates)] at hsigned
    refine ⟨mark, hruns, h.decodes, hamid, h.marks.stay hseparates, ?_⟩
    rw [hstep]
    exact hsigned.trans h.signed

/-- What is needed besides to tell what the next script will be: the locking script is at hand
    as long as the unlocking script runs, which is the first one, and the stack that this one has
    left is saved for a redeem script. -/
structure Awaits (m : Machine) (locking : Script) (first : Nat) (stage : Stage) : Prop where
  locking : ∀ second, stage = .unlocking second →
    first = 0 ∧ Program.parse .locking locking = .ok second
  saved : ∀ stack, stage = .locking (some stack) → m.finishScript.frame.stack = stack

-- The rounds of a run are counted in the same way.
theorem Amid.finishScript_eq (h : m.Amid chunks 0 position)
    (hlast : position + 1 = max 1 chunks.length) : m.finishScript = runFor (position + 1) m := by
  have hnext : m.frame.next = Program.place 0 chunks := h.next 0 (Nat.zero_le _)
  rw [finishScript, scriptSteps, hnext, Program.length_place, hlast]

/-- From the last instruction of a script to the first of the next one. -/
theorem Reads.enters (h : m.Reads unlocking locking script chunks first position mark)
    {ended : Machine} (hawaits : m.Awaits locking first ended.stage)
    (hlast : position + 1 = max 1 chunks.length)
    (hstep : runFor (first + position + 1) m = ended.endScript)
    (hrunning : ended.endScript.status = .running) :
    ∃ script chunks, m.Reads unlocking locking script chunks (first + position + 1) 0 0 ∧
      m.Awaits locking (first + position + 1) (runFor (first + position + 1) m).stage := by
  rcases ended.endScript_cases with ⟨status, hhalted, hend⟩ | ⟨stage, stack, program, henters, hend⟩
  · rw [hend] at hrunning
    exact absurd hrunning hhalted
  · -- Scripts follow one another in two ways. Each time the next one is at its beginning.
    rw [hend] at hstep
    cases henters with
    | locking hunlocking =>
        -- Behind the unlocking script comes the locking script, which has been at hand since the
        -- start.
        rcases hawaits.locking _ hunlocking with ⟨rfl, hparse⟩
        rcases Program.parse_eq_ok.mp hparse with ⟨chunks', hchunks, hplace⟩
        have hfinish := h.amid.finishScript_eq hlast
        rw [Nat.zero_add] at hstep ⊢
        have hframe : (runFor (position + 1) m).frame
            = .start ended.frame.stack (Program.place 0 chunks') ended.frame.checks := by
          rw [hstep, hplace]
          rfl
        refine ⟨locking, chunks', .enter ?_ hchunks hframe, fun second hsecond => ?_,
          fun saved hsaved => ?_⟩
        · rw [hstep]
          rfl
        · rw [hstep] at hsecond
          cases hsecond
        · -- The stack is saved where a redeem script is to come.
          rw [hstep] at hsaved
          rw [hfinish, hstep]
          by_cases hredeems : ended.redeems = true
          · rw [if_pos hredeems] at hsaved
            cases hsaved
            rfl
          · rw [if_neg hredeems] at hsaved
            cases hsaved
    | @redeem saved loaded hlocking hloaded =>
        -- Behind the locking script comes what lies on top of the stack that was saved, and no
        -- script after it.
        rcases redeemProgram_eq_ok.mp hloaded with ⟨-, redeem, hsaved, -, hparse⟩
        rcases Program.parse_eq_ok.mp hparse with ⟨chunks', hchunks, hplace⟩
        have hframe : (runFor (first + position + 1) m).frame
            = .start loaded.2 (Program.place 0 chunks') ended.frame.checks := by
          rw [hstep, hplace]
          rfl
        refine ⟨⟨redeem⟩, chunks', .enter ?_ hchunks hframe, fun second hsecond => ?_,
          fun saved hsaved => ?_⟩
        · rw [hstep]
          exact ⟨_, (hawaits.saved _ hlocking).trans hsaved⟩
        · rw [hstep] at hsecond
          cases hsecond
        · rw [hstep] at hsaved
          cases hsaved

/-- At every step of a run that still goes on the machine is in one of the scripts, and
    signatures commit to what follows the last code separator in it. -/
theorem reads_of_running {rules : Rules} (hstart : start rules unlocking locking = .ok m)
    {count : Nat} (hrunning : (runFor count m).status = .running) :
    ∃ script chunks first position mark, first + position = count ∧
      m.Reads unlocking locking script chunks first position mark ∧
      m.Awaits locking first (runFor count m).stage := by
  induction count with
  | zero =>
      rcases (start_eq_ok.mp hstart).2.2.2.2.2 with ⟨program, hprogram, second, hsecond, rfl⟩
      rcases Program.parse_eq_ok.mp hprogram with ⟨chunks, hchunks, rfl⟩
      refine ⟨unlocking, chunks, 0, 0, 0, rfl, .enter rfl hchunks rfl, fun other hother => ?_,
        fun saved hsaved => ?_⟩
      · cases hother
        exact ⟨rfl, hsecond⟩
      · cases hsaved
  | succ count ih =>
      rw [runFor_succ] at hrunning
      have hbefore := running_of_step hrunning
      rcases ih hbefore with ⟨script, chunks, first, position, mark, rfl, hreads, hawaits⟩
      have hplace := hreads.amid.next position le_rfl
      have hlength := Program.length_place 0 chunks
      have hwithin := hreads.amid.within
      -- Where the script ends, its last instruction has just been executed, if it has one.
      have hends (ended : Machine) (hstage : ended.stage = (runFor (first + position) m).stage)
          (hlast : position + 1 = max 1 chunks.length)
          (hstep : (runFor (first + position) m).step = ended.endScript) :
          ∃ script chunks first' position' mark, first' + position' = first + position + 1 ∧
            m.Reads unlocking locking script chunks first' position' mark ∧
            m.Awaits locking first' (runFor (first + position + 1) m).stage := by
        rw [hstep] at hrunning
        rcases hreads.enters (hstage ▸ hawaits) hlast ((runFor_succ _ m).trans hstep) hrunning with
          ⟨script', chunks', hreads', hawaits'⟩
        exact ⟨script', chunks', first + position + 1, 0, 0, rfl, hreads', hawaits'⟩
      rcases step_cases hbefore with ⟨hnext, hstep⟩ | ⟨instruction, rest, hnext,
        ⟨fault, frame, _, hstep⟩ | ⟨frame, hadvance, ⟨hrest, hstep⟩ | ⟨hrest, hstep⟩⟩⟩
      · have hempty := List.drop_eq_nil_iff.mp (hplace.symm.trans hnext)
        exact hends _ rfl (by omega) hstep
      · rw [hstep] at hrunning
        cases hrunning
      · have hend := congrArg List.length (hplace.symm.trans hnext)
        rw [List.length_drop, hrest, List.length_singleton] at hend
        exact hends { runFor (first + position) m with frame } rfl (by omega) hstep
      · rcases hreads.move hnext hrest hadvance ((runFor_succ _ m).trans hstep) with
          ⟨mark', hreads'⟩
        refine ⟨script, chunks, first, position + 1, mark', rfl, hreads', ?_⟩
        rw [runFor_succ, hstep]
        exact hawaits

/-- Only the next instruction asks in a step. -/
theorem asked_of_step (hrunning : m.status = .running) :
    ∃ asked, m.step.frame.checks = asked ++ m.frame.checks ∧ ∀ check ∈ asked,
      ∃ instruction rest, m.frame.next = instruction :: rest ∧
        instruction.Asked m.rules m.frame check := by
  rcases hnext : m.frame.next with _ | ⟨instruction, rest⟩
  · rw [step_of_end hrunning hnext, checks_endScript]
    exact ⟨[], rfl, fun _ hmem => absurd hmem List.not_mem_nil⟩
  · -- What the instruction adds to the record is all that the step adds.
    have hrecord : m.step.frame.checks
        = ((instruction.advance m.rules rest).after m.frame).checks := by
      rw [step_of_next hrunning hnext, checks_executeNext]
    have hasked : ∃ asked, ((instruction.advance m.rules rest).after m.frame).checks
        = asked ++ m.frame.checks ∧ ∀ check ∈ asked, instruction.Asked m.rules m.frame check :=
      Instruction.asked_advance
    rcases hasked with ⟨asked, hchecks, hasked⟩
    exact ⟨asked, hrecord.trans hchecks, fun check hmem =>
      ⟨instruction, rest, rfl, hasked check hmem⟩⟩

/-- A run begins with no questions, and none are asked once it has halted. What is asked in a
    step before is whether a signature that the operation takes from the stack belongs to a key
    that it takes, over what follows the last code separator that has taken effect in the
    same script, without the pushes of all signatures that are taken, in whichever order
    they are left out. These are just the questions that the context is asked in the step: it
    depends on no other reply, and it goes by the replies to these. -/
theorem asked_over_code {rules : Rules} (hstart : start rules unlocking locking = .ok m) :
    m.frame.checks = [] ∧
      (∀ count, (runFor count m).status ≠ .running →
        (runFor (count + 1) m).frame.checks = (runFor count m).frame.checks) ∧
      ∀ count, (runFor count m).status = .running →
        ∃ script chunks first position mark, first + position = count ∧
          m.Reads unlocking locking script chunks first position mark ∧
          ∃ asked, (runFor (count + 1) m).frame.checks = asked ++ (runFor count m).frame.checks ∧
            (∀ context, rules.context? = some context →
              (runFor count m).Consults context asked) ∧
            ∀ check ∈ asked, ∃ chunk op sigs keys, chunks[position]? = some chunk ∧
              Opcode.operation chunk.op = .crypto op ∧
              Crypto.Takes op (runFor count m).frame.stack sigs keys ∧
              check.sig ∈ sigs ∧ check.key ∈ keys ∧ check.input = rules.input ∧
              check.code.chunks = .ok (Chunk.withoutPushes sigs (chunks.drop mark)) ∧
              ∀ order, order.Perm sigs → (runFor count m).frame.scriptCode order = check.code := by
  refine ⟨?_, fun count hhalted => ?_, fun count hrunning => ?_⟩
  · rcases (start_eq_ok.mp hstart).2.2.2.2.2 with ⟨_, -, _, -, rfl⟩
    rfl
  · rw [runFor_succ]
    have hstep : (runFor count m).step = runFor count m := runFor_of_halted hhalted 1
    rw [hstep]
  · have hrules : (runFor count m).rules = rules := by
      rw [rules_runFor]
      rcases (start_eq_ok.mp hstart).2.2.2.2.2 with ⟨_, -, _, -, rfl⟩
      rfl
    rcases reads_of_running hstart hrunning with
      ⟨script, chunks, first, position, mark, rfl, hreads, -⟩
    rcases asked_of_step hrunning with ⟨asked, hchecks, hasked⟩
    refine ⟨script, chunks, first, position, mark, rfl, hreads, asked, ?_,
      fun context hcontext => consults_of_step hrunning (hrules ▸ hcontext) hchecks,
      fun check hmem => ?_⟩
    · rw [runFor_succ]
      exact hchecks
    · rcases hasked check hmem with ⟨instruction, rest, hnext, op, hoperation, sigs, keys, htakes,
        hsig, hkey, hcode, hinput⟩
      rcases Program.getElem?_place (hreads.amid.place_eq hnext).1 with ⟨chunk, hchunk, hop⟩
      have hformed := (Script.chunks_eq_ok.mp hreads.decodes).2
      refine ⟨chunk, op, sigs, keys, hchunk, ?_, htakes, hsig, hkey, hrules ▸ hinput, ?_,
        fun order horder => ?_⟩
      · rw [hop]
        exact hoperation
      -- All signatures are left out together, also those that are not asked about here.
      · rw [hcode]
        exact Frame.chunks_scriptCode hformed hreads.signed sigs
      · rw [hcode]
        exact Frame.scriptCode_perm horder

/-- A locking script with two code separators, the first of them in a half that is not live. The
    signature is pushed twice behind the second one, and only the wider push stays. Any context
    that says yes to this question leads to the same step. -/
theorem asked_over_code_separated :
    let context : Context := ⟨fun _ _ _ _ => true, 0, 0, fun _ => 0⟩
    let rules : Rules := { flags := ⟨0⟩, context? := some context, input := 3 }
    let unlocking : Script := ⟨[0x01, 0x09]⟩
    let locking : Script :=
      ⟨[0x00, 0x63, 0xab, 0x68, 0xab, 0x01, 0x09, 0x75, 0x4c, 0x01, 0x09, 0x75, 0x01, 0x02, 0xac]⟩
    let code : Script := ⟨[0x75, 0x4c, 0x01, 0x09, 0x75, 0x01, 0x02, 0xac]⟩
    ∃ m, start rules unlocking locking = .ok m ∧ (runFor 11 m).status = .running ∧
      (runFor 12 m).frame.checks = [⟨[0x09], [0x02], code, 3⟩] ∧
      (runFor 11 m).Consults context [⟨[0x09], [0x02], code, 3⟩] ∧
      ∃ script chunks first position mark sigs, first + position = 11 ∧
        m.Reads unlocking locking script chunks first position mark ∧ [0x09] ∈ sigs ∧
        code.chunks = .ok (Chunk.withoutPushes sigs (chunks.drop mark)) := by
  intro context rules unlocking locking code
  -- The separator in the skipped block does not count, and the one behind it does. The push of the
  -- signature goes, and its longer form stays.
  have hrun : (start rules unlocking locking).toOption.map (fun m =>
      ((runFor 11 m).status, (runFor 11 m).frame.checks, (runFor 12 m).frame.checks))
      = some (.running, [], [⟨[0x09], [0x02], code, 3⟩]) := by
    decide +kernel
  rcases hstart : start rules unlocking locking with failure | m
  · rw [hstart] at hrun
    cases hrun
  · rw [hstart] at hrun
    simp only [Except.toOption, Option.map_some, Option.some.injEq, Prod.mk.injEq] at hrun
    rcases hrun with ⟨hrunning, hbefore, hafter⟩
    rcases (asked_over_code hstart).2.2 11 hrunning with
      ⟨script, chunks, first, position, mark, hcount, hreads, asked, hchecks, hconsults, hasked⟩
    rw [hbefore, hafter, List.append_nil] at hchecks
    subst hchecks
    rcases hasked ⟨[0x09], [0x02], code, 3⟩ (List.mem_singleton_self _) with
      ⟨_, _, sigs, _, _, _, _, hsig, _, _, hcode, _⟩
    exact ⟨m, rfl, hrunning, hafter, hconsults context rfl, script, chunks, first, position, mark,
      sigs, hcount, hreads, hsig, hcode⟩

end Machine

end Bitcoin
