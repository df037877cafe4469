import Sm83.Proofs.Opcode.Session
import Sm83.Ram

/-!
# Stepping an opcode to its end

Stepped in order, every opcode with a behaviour comes to an end, and the cycle with which it does is
the one that the documented duration says: the shorter duration of a branch that is not taken,
otherwise the last cycle. The exception is an instruction that stores to the byte after its opcode,
which fails in its last cycle. No other step that is accepted fails, and each of them has its work
in the schedule.
-/

namespace Sm83

namespace MachineCycle

variable {α β : Type} {fault : Fault}

/-- The cycle fails in this way, whatever is read. -/
def FailsWith (cycle : MachineCycle α) (fault : Fault) : Prop :=
  ∀ context, (cycle.perform context).Always fun (outcome, _) _ _ => outcome = .error fault

/-- What follows a failing part is not performed. -/
theorem FailsWith.bind {first : MachineCycle α} (fails : first.FailsWith fault)
    (next : α → MachineCycle β) : (first >>= next).FailsWith fault := by
  intro context
  rw [perform_bind, Bus.always_bind]
  apply (fails context).mono
  rintro ⟨outcome, between⟩ accesses events failed
  obtain rfl : outcome = .error fault := failed
  rfl

/-- A part that fails behind parts that do not makes all of them fail. -/
theorem FailsWith.sound_bind {first : MachineCycle α} {next : α → MachineCycle β}
    (sound : Schedule.Sound first) (fails : ∀ value, (next value).FailsWith fault) :
    (first >>= next).FailsWith fault := by
  intro context
  rw [perform_bind, Bus.always_bind]
  apply Bus.Always.mono (sound context)
  rintro ⟨outcome, between⟩ accesses events succeeded
  cases outcome with
  | ok value =>
    apply (fails value between).mono
    intro _ _ _ failed
    exact failed
  | error other => exact succeeded.elim

/-- The byte after the opcode is no place for a result. -/
theorem failsWith_store_immediate (byte : UInt8) :
    (Operand.immediate.store byte).FailsWith .immediateTarget := by
  intro context
  simp [Operand.store]

end MachineCycle

namespace Schedule

open MachineCycle

/-- A retiring cycle fails as its work does. -/
theorem failsWith_retiring {work : MachineCycle Unit} {fault : Fault}
    (fails : work.FailsWith fault) : (retiring work).FailsWith fault := fails.bind _

/-- The last cycle of a schedule that changes the byte after the opcode fails as the change does. -/
theorem failsWith_updating {finish : UInt8 → MachineCycle Unit} {fault : Fault}
    (fails : ∀ byte, (finish byte).FailsWith fault) {cycle : MachineCycle Progress}
    {number : Nat} (listed : (cycle, number) ∈ (updating .immediate finish).zipIdx 1) :
    cycle.FailsWith fault := by
  cases updates_of_mem listed with
  | only elsewhere =>
    exact failsWith_retiring (.sound_bind (steady_load .immediate).sound fails)
  | start memory | read memory | write memory => cases memory

/-- The last cycle of a copy to the byte after the opcode fails. -/
theorem failsWith_copy_immediate (source : Operand) {cycle : MachineCycle Progress} {number : Nat}
    (listed : (cycle, number) ∈ (Instruction.load .immediate source).cycles.zipIdx 1)
    (last : number = (Instruction.load .immediate source).cycles.length) :
    cycle.FailsWith .immediateTarget := by
  obtain ⟨work, part, rfl⟩ := exists_part_of_mem_closing listed
  have steady : Steady work := steady_of_mem_parts (List.mem_of_getElem? part)
  simp only [Instruction.cycles, length_closing] at last
  rw [if_pos last]
  have copying : (copy .immediate source).FailsWith .immediateTarget :=
    .sound_bind (steady_load source).sound fun byte => failsWith_store_immediate byte
  exact failsWith_retiring (.sound_bind steady.sound fun _ => copying)

end Schedule

namespace Instruction

open MachineCycle Schedule

/-- The last cycle of an instruction that stores to the byte after its opcode fails. -/
theorem failsWith_last (instruction : Instruction) (storing : instruction.storesImmediate = true) :
    ∀ entry ∈ instruction.cycles.zipIdx 1, entry.2 = instruction.cycles.length →
      entry.1.FailsWith .immediateTarget := by
  rintro ⟨cycle, number⟩ listed last
  unfold storesImmediate at storing
  split at storing
  · exact failsWith_copy_immediate _ listed last
  · exact failsWith_updating (fun byte => (failsWith_store_immediate _).bind _) listed
  · exact failsWith_updating (fun byte => (failsWith_store_immediate _).bind _) listed
  · refine failsWith_updating (fun byte => ?_) listed
    refine .sound_bind sound_regs fun regs => ?_
    exact .sound_bind (sound_changeRegs _) fun _ => failsWith_store_immediate _
  · exact failsWith_updating (fun byte => failsWith_store_immediate _) listed
  · exact failsWith_updating (fun byte => failsWith_store_immediate _) listed
  · cases storing

/-- An instruction that stores to the byte after its opcode has a behaviour. -/
theorem ne_invalid_of_storesImmediate {instruction : Instruction}
    (storing : instruction.storesImmediate = true) : instruction ≠ .invalid := by
  rintro rfl
  cases storing

/-- An instruction that stores to the byte after its opcode is no branch. -/
theorem condition_of_storesImmediate {instruction : Instruction}
    (storing : instruction.storesImmediate = true) : instruction.condition = none := by
  cases instruction with
  | jp | jr | call | ret => cases storing
  | _ => rfl

/-- A cycle behind which others are left does not complete the instruction. -/
theorem progress_of_one_lt_remaining {instruction : Instruction} {cycle : Nat}
    {regs : RegisterFile} (more : 1 < instruction.remaining cycle regs)
    (unfinished : cycle < instruction.cycles.length) :
    instruction.progress (cycle + 1) regs = .running := by
  cases progress : instruction.progress (cycle + 1) regs with
  | running => rfl
  | retired =>
    have one := remaining_of_retired unfinished progress
    omega

/-- The only cycle that is left completes the instruction. -/
theorem progress_of_remaining_eq_one {instruction : Instruction} {cycle : Nat}
    {regs : RegisterFile} (one : instruction.remaining cycle regs = 1)
    (unfinished : cycle < instruction.cycles.length) :
    instruction.progress (cycle + 1) regs = .retired := by
  cases progress : instruction.progress (cycle + 1) regs with
  | retired => rfl
  | running =>
    have last := ne_length_of_running progress
    have less : instruction.remaining cycle regs = instruction.remaining (cycle + 1) regs + 1 :=
      remaining_of_running unfinished progress rfl
    have left : 0 < instruction.remaining (cycle + 1) regs := remaining_pos (by omega) regs
    omega

end Instruction

namespace Opcode

/-- The cycle with which an opcode that is stepped in order completes: the last one, unless it is a
branch that is not taken. -/
def completion (opcode : Opcode) (regs : RegisterFile) : Nat :=
  if regs.holds opcode.instruction.condition then
    opcode.lastCycle
  else
    opcode.instruction.duration.min

variable {opcode : Opcode}

/-- Before its first cycle an opcode has as many to go as the number of the completing one. -/
theorem remaining_zero_eq_completion (defined : opcode.instruction ≠ .invalid)
    (regs : RegisterFile) : opcode.instruction.remaining 0 regs = opcode.completion regs := by
  have length := length_cycles_eq_lastCycle defined
  unfold Instruction.remaining completion
  by_cases fails : regs.holds opcode.instruction.condition = false
  · obtain ⟨positive, -⟩ := Instruction.branch_of_not_holds fails
    rw [if_pos ⟨fails, positive⟩, if_neg (by simp [fails]), Nat.sub_zero]
  · have holds : regs.holds opcode.instruction.condition = true := by simpa using fails
    rw [if_neg fun both => fails both.1, if_pos holds, length, Nat.sub_zero]

/-- The last step of an opcode that stores to the byte after it fails. -/
theorem outcome_step_of_storesImmediate {activation : Activation} (regs : RegisterFile)
    (storing : opcode.instruction.storesImmediate = true)
    (due : activation.violation opcode.lastCycle opcode.lastCycle = none) :
    (opcode.step opcode.lastCycle activation regs).Always fun stepped _ _ =>
      stepped.outcome = .error .immediateTarget := by
  have defined := Instruction.ne_invalid_of_storesImmediate storing
  obtain ⟨work, listed, step⟩ := step_of_due regs defined due
  have fails := opcode.instruction.failsWith_last storing _ listed
    (length_cycles_eq_lastCycle defined).symm
  rw [step, always_carryOut]
  apply (fails _).mono
  rintro ⟨outcome, context⟩ accesses events failed
  obtain rfl : outcome = .error .immediateTarget := failed
  rfl

end Opcode

namespace Session

variable {μ : Type} [Memory μ] {opcode : Opcode} {made : Nat}

/-- Fewer cycles than an instruction has to go do not complete it, and the next one is due behind
them. -/
theorem calls_ongoing (session : Session μ) (defined : opcode.instruction ≠ .invalid)
    (due : session.activation.violation opcode.lastCycle (made + 1) = none) (count : Nat)
    (few : count < opcode.instruction.remaining made session.regs) :
    let left := session.calls opcode (List.range' (made + 1) count)
    left.answers = session.answers ++ ongoing made count ∧
      left.activation.violation opcode.lastCycle (made + count + 1) = none ∧
      opcode.instruction.remaining made session.regs =
        opcode.instruction.remaining (made + count) left.regs + count := by
  have length := Opcode.length_cycles_eq_lastCycle defined
  induction count generalizing session made with
  | zero => exact ⟨by simp [ongoing], due, rfl⟩
  | succ count ih =>
    have unfinished := Opcode.unfinished_of_due defined due
    have more : 1 < opcode.instruction.remaining made session.regs := by omega
    have running := Instruction.progress_of_one_lt_remaining more unfinished
    have further := Instruction.ne_length_of_running running
    obtain ⟨answers, noted, kept⟩ := session.call_of_due defined (fun last => by omega) due
    rw [running] at answers noted kept
    have less := Instruction.remaining_of_running unfinished running (kept rfl)
    have next : (session.call opcode (made + 1)).activation.violation opcode.lastCycle
        (made + 1 + 1) = none := by
      rw [noted, Activation.violation_eq_none_iff_made]
      exact ⟨rfl, by omega⟩
    obtain ⟨later, behind, total⟩ := ih _ next (by omega)
    rw [List.range'_succ, calls_cons]
    refine ⟨?_, ?_, ?_⟩
    · rw [later, answers, ongoing_succ, List.append_assoc]
      rfl
    · rw [← behind]
      congr 1
      omega
    · rw [less, total]
      have place : made + 1 + count = made + (count + 1) := by omega
      rw [place]
      omega

/-- The cycles that an instruction has to go complete it. -/
theorem calls_completing (session : Session μ) (defined : opcode.instruction ≠ .invalid)
    (storable : opcode.instruction.storesImmediate = false)
    (due : session.activation.violation opcode.lastCycle (made + 1) = none) :
    let count := opcode.instruction.remaining made session.regs
    let left := session.calls opcode (List.range' (made + 1) count)
    left.answers = session.answers ++ completing made (made + count) ∧
      left.activation.retired = true := by
  have unfinished := Opcode.unfinished_of_due defined due
  have positive := Instruction.remaining_pos unfinished session.regs
  obtain ⟨earlier, total⟩ :
      ∃ earlier, opcode.instruction.remaining made session.regs = earlier + 1 :=
    ⟨_, (Nat.sub_add_cancel positive).symm⟩
  intro count left
  have split : left =
      (session.calls opcode (List.range' (made + 1) earlier)).call opcode (made + earlier + 1) := by
    simp only [left, count, total]
    rw [calls_range'_succ, Nat.add_right_comm]
  obtain ⟨answers, last, rest⟩ := session.calls_ongoing defined due earlier (by omega)
  have one : opcode.instruction.remaining (made + earlier)
      (session.calls opcode (List.range' (made + 1) earlier)).regs = 1 := by omega
  have unfinished := Opcode.unfinished_of_due defined last
  have retires := Instruction.progress_of_remaining_eq_one one unfinished
  obtain ⟨final, noted, -⟩ := call_of_due _ defined (fun _ => storable) last
  rw [retires] at final noted
  rw [split]
  refine ⟨?_, by rw [noted]; rfl⟩
  have place : made + count = made + earlier + 1 := by
    simp only [count, total, Nat.add_assoc]
  have between : made + earlier + 1 - made - 1 = earlier := by omega
  rw [final, answers, completing, place, between, List.append_assoc]

end Session

namespace Opcode

variable {opcode : Opcode}

/-- An opcode that stores to the byte after it fails in its last cycle, and in none before. -/
theorem answers_of_storesImmediate (storing : opcode.instruction.storesImmediate = true)
    (regs : RegisterFile) {μ : Type} [Memory μ] (memory : μ) :
    let start : Session μ := { activation := {}, regs, memory }
    (start.calls opcode (List.range' 1 opcode.lastCycle)).answers =
      Session.ongoing 0 (opcode.lastCycle - 1) ++
        [(opcode.lastCycle, .error .immediateTarget)] := by
  intro start
  have defined := Instruction.ne_invalid_of_storesImmediate storing
  have positive := opcode.lastCycle_pos
  have last : opcode.instruction.remaining 0 regs = opcode.lastCycle := by
    rw [remaining_zero_eq_completion defined, completion,
      Instruction.condition_of_storesImmediate storing]
    rfl
  obtain ⟨answers, due, -⟩ := start.calls_ongoing defined opcode.due_first (opcode.lastCycle - 1)
    (by rw [last]; omega)
  have place : 0 + (opcode.lastCycle - 1) + 1 = opcode.lastCycle := by omega
  rw [place] at due
  have failed := (outcome_step_of_storesImmediate
    (start.calls opcode (List.range' 1 (opcode.lastCycle - 1))).regs storing due).exec
      (start.calls opcode (List.range' 1 (opcode.lastCycle - 1))).memory
  have split := start.calls_range'_succ opcode 1 (opcode.lastCycle - 1)
  rw [Nat.sub_add_cancel positive, Nat.add_sub_cancel' positive] at split
  rw [split]
  simp only [Session.call]
  rw [failed, answers]
  rfl

/-- Any other opcode with a behaviour is complete behind its completing cycle, and not before. -/
theorem answers_of_storable (defined : opcode.instruction ≠ .invalid)
    (storable : opcode.instruction.storesImmediate = false) (regs : RegisterFile) {μ : Type}
    [Memory μ] (memory : μ) :
    let start : Session μ := { activation := {}, regs, memory }
    let left := start.calls opcode (List.range' 1 (opcode.completion regs))
    left.answers = Session.completing 0 (opcode.completion regs) ∧
      left.activation.retired = true := by
  intro start left
  obtain ⟨answers, retired⟩ := start.calls_completing defined storable opcode.due_first
  have ends : opcode.instruction.remaining 0 start.regs = opcode.completion regs :=
    remaining_zero_eq_completion defined regs
  rw [ends, Nat.zero_add (opcode.completion regs)] at answers
  rw [ends] at retired
  exact ⟨answers, retired⟩

/-- A step that is accepted has its work in the schedule, and does not fail unless it is the last
one of an opcode that stores to the byte after it. -/
theorem outcome_of_due (defined : opcode.instruction ≠ .invalid) {activation : Activation}
    {cycle : Nat} (due : activation.violation opcode.lastCycle cycle = none)
    (regs : RegisterFile) {μ : Type} [Memory μ] (memory : μ) :
    let outcome := ((opcode.step cycle activation regs).exec memory).value.outcome
    (∃ work, opcode.instruction.cycles[cycle - 1]? = some work) ∧
      ((∃ progress, outcome = .ok progress) ∨
        outcome = .error .immediateTarget ∧ opcode.instruction.storesImmediate = true ∧
          cycle = opcode.lastCycle) := by
  intro outcome
  obtain ⟨work, listed, -⟩ := step_of_due regs defined due
  refine ⟨⟨work, (List.mem_zipIdx_iff_le_and_getElem?_sub.mp listed).2⟩, ?_⟩
  by_cases fails : cycle = opcode.lastCycle ∧ opcode.instruction.storesImmediate = true
  · obtain ⟨rfl, storing⟩ := fails
    exact .inr ⟨(outcome_step_of_storesImmediate regs storing due).exec memory, storing, rfl⟩
  · have storable : cycle = opcode.lastCycle → opcode.instruction.storesImmediate = false := by
      intro last
      simpa [last] using fails
    exact .inl ⟨_, ((always_step_of_due regs defined storable due).exec memory).1⟩

/-- An opcode with a behaviour that is stepped in order from a fresh activation runs up to its
completing cycle, behind which every cycle but a first one is refused. Where it stores to the byte
after it, it fails in its last cycle instead. No other step that is accepted fails, and none finds
the schedule without work for its cycle. -/
theorem steps_to_completion (defined : opcode.instruction ≠ .invalid) (regs : RegisterFile)
    {μ : Type} [Memory μ] (memory : μ) :
    let start : Session μ := { activation := {}, regs, memory }
    (opcode.instruction.storesImmediate = true →
      (start.calls opcode (List.range' 1 opcode.lastCycle)).answers =
          Session.ongoing 0 (opcode.lastCycle - 1) ++
            [(opcode.lastCycle, .error .immediateTarget)] ∧
        Fault.immediateTarget.message = "attempted to write to immediate operand") ∧
    (opcode.instruction.storesImmediate = false →
      let last :=
        if regs.holds opcode.instruction.condition then opcode.lastCycle
        else opcode.instruction.duration.min
      let left := start.calls opcode (List.range' 1 last)
      left.answers = Session.completing 0 last ∧
        ∀ cycle ≠ 1, ∃ violation, left.call opcode cycle =
          { left with
            answers := left.answers ++ [(cycle, .error (opcode.misstep cycle violation))] }) ∧
    ∀ (activation : Activation) (cycle : Nat),
      activation.violation opcode.lastCycle cycle = none →
        let outcome := ((opcode.step cycle activation regs).exec memory).value.outcome
        (∃ work, opcode.instruction.cycles[cycle - 1]? = some work) ∧
          ((∃ progress, outcome = .ok progress) ∨
            outcome = .error .immediateTarget ∧ opcode.instruction.storesImmediate = true ∧
              cycle = opcode.lastCycle) := by
  intro start
  refine ⟨?_, ?_, ?_⟩
  · intro storing
    exact ⟨answers_of_storesImmediate storing regs memory, rfl⟩
  · intro storable last left
    obtain ⟨answers, retired⟩ := answers_of_storable defined storable regs memory
    refine ⟨answers, fun cycle later => ?_⟩
    cases refused : left.activation.violation opcode.lastCycle cycle with
    | some violation => exact ⟨violation, left.call_of_violation refused⟩
    | none =>
      obtain ⟨next, -⟩ := Activation.violation_eq_none_iff_made.mp refused
      have fresh : left.activation.made = 0 := by
        unfold Activation.made
        exact if_pos retired
      omega
  · intro activation cycle due
    exact outcome_of_due defined due regs memory

/-- A call that is not taken completes with its third cycle, and a copy from memory to the byte
after the opcode fails in its third one. -/
theorem completion_of_untaken_call :
    let regs : RegisterFile := { f := { z := true } }
    let start : Session Ram := { activation := {}, regs, memory := .zero }
    let untaken : Opcode := ⟨⟨0xC4, false⟩, .call (some .nz)⟩
    let storing : Opcode := ⟨⟨0x36, false⟩, .load .immediate (.memory .hlIncrement)⟩
    (untaken.instruction ≠ .invalid ∧ storing.instruction ≠ .invalid) ∧
      (start.calls untaken [1, 2, 3]).answers =
        [(1, .ok .running), (2, .ok .running), (3, .ok .retired)] ∧
      (start.calls storing [1, 2, 3]).answers =
        [(1, .ok .running), (2, .ok .running), (3, .error .immediateTarget)] := by
  intro regs start untaken storing
  have called := @steps_to_completion untaken (by decide) regs Ram _ .zero
  have stored := @steps_to_completion storing (by decide) regs Ram _ .zero
  exact ⟨⟨by decide, by decide⟩, (called.2.1 rfl).1, (stored.1 rfl).1⟩

end Opcode

end Sm83
