import Sm83.Proofs.Opcode.Completion
import Sm83.Proofs.Opcode.Table
import Sm83.Proofs.Schedule.Interim

/-!
# Results that show at once

A listed opcode shows what it calculates with the step that completes it, and at once. The steps
before move the program counter and the stack pointer alone, and they write nothing but the first
byte of a word that is pushed and of the stack pointer when that is stored. A step that fails has
done nothing at all.
-/

namespace Sm83

open OpcodeTable

variable {opcode : Opcode} {cycle : Nat} {activation : Activation} {regs : RegisterFile}

namespace Opcode

/-- A step that does not complete a listed opcode does no more than its cycle may do before. -/
theorem always_step_interim (listed : opcode ∈ standard.entries) (cycle : Nat)
    (activation : Activation) (regs : RegisterFile) :
    (opcode.step cycle activation regs).Always fun stepped accesses _ =>
      stepped.outcome = .ok .running →
        opcode.instruction.Interim cycle regs stepped.regs accesses := by
  cases refused : activation.violation opcode.lastCycle cycle with
  | some violation => simp [step_of_violation refused]
  | none =>
    by_cases undefined : opcode.instruction = .invalid
    · simp [step_of_invalid undefined refused]
    · obtain ⟨work, scheduled, step⟩ := step_of_due regs undefined refused
      have ordinary := isOrdinary_of_mem_entries listed
      rw [step, always_carryOut]
      apply (opcode.instruction.withholds_cycles ordinary _ scheduled _).mono
      rintro ⟨outcome, context⟩ accesses events interim
      cases outcome with
      | ok progress => simpa using interim
      | error fault => exact nofun

/-- A step of a listed opcode that fails touches neither the registers nor the bus. -/
theorem step_of_error (listed : opcode ∈ standard.entries) {μ : Type} [Memory μ] {memory : μ}
    {fault : Fault}
    (failed : ((opcode.step cycle activation regs).exec memory).value.outcome = .error fault) :
    ∃ left, opcode.step cycle activation regs = .done ⟨.error fault, left, regs⟩ := by
  cases refused : activation.violation opcode.lastCycle cycle with
  | some violation =>
    rw [step_of_violation refused] at failed ⊢
    obtain rfl := Except.error.inj failed
    exact ⟨_, rfl⟩
  | none =>
    by_cases undefined : opcode.instruction = .invalid
    · rw [step_of_invalid undefined refused] at failed ⊢
      obtain rfl := Except.error.inj failed
      exact ⟨_, rfl⟩
    · have storable := storesImmediate_of_mem_entries listed
      have succeeds := always_step_of_due regs undefined (fun _ => storable) refused
      have progress := (succeeds.exec memory).1
      rw [failed] at progress
      cases progress

end Opcode

namespace Session

variable {μ : Type} [Memory μ] {session : Session μ} {count : Nat}

/-- A cycle before the completing one is called for in order, and does not complete the opcode: the
calls that were made and those that are left add up to the completing cycle. -/
theorem outcome_call_of_lt (listed : opcode ∈ standard.entries)
    (defined : opcode.instruction ≠ .invalid)
    (due : session.activation.violation opcode.lastCycle 1 = none)
    (further : count + 1 < opcode.completion session.regs) :
    let left := session.calls opcode (List.range' 1 count)
    ((opcode.step (count + 1) left.activation left.regs).exec left.memory).value.outcome =
      .ok .running := by
  intro left
  have total := Opcode.remaining_zero_eq_completion defined session.regs
  obtain ⟨-, next, rest⟩ := calls_ongoing session defined due count (by omega)
  simp only [Nat.zero_add] at next rest
  have unfinished := Opcode.unfinished_of_due defined next
  have more : 1 < opcode.instruction.remaining count
      (session.calls opcode (List.range' 1 count)).regs := by omega
  have running := Instruction.progress_of_one_lt_remaining more unfinished
  have storable := storesImmediate_of_mem_entries listed
  have step := Opcode.always_step_of_due left.regs defined (fun _ => storable) next
  rw [(step.exec left.memory).1, running]

/-- What every call keeps that does no more than it may do before the opcode is complete holds until
the opcode completes. -/
theorem calls_induction {holds : Session μ → Prop} (listed : opcode ∈ standard.entries)
    (defined : opcode.instruction ≠ .invalid)
    (due : session.activation.violation opcode.lastCycle 1 = none) (start : holds session)
    (kept : ∀ (between : Session μ) (cycle : Nat), holds between →
      opcode.instruction.Interim cycle between.regs (between.call opcode cycle).regs
        ((opcode.step cycle between.activation between.regs).exec between.memory).accesses →
      holds (between.call opcode cycle))
    (few : count < opcode.completion session.regs) :
    holds (session.calls opcode (List.range' 1 count)) := by
  induction count with
  | zero => exact start
  | succ count ih =>
    have running := outcome_call_of_lt listed defined due few
    have interim := (Opcode.always_step_interim listed _ _ _).exec _ running
    rw [calls_range'_succ, Nat.add_comm 1 count]
    exact kept _ (count + 1) (ih (Nat.lt_of_succ_lt few)) interim

/-- Until an opcode completes, its steps keep all but the program counter and the stack pointer. -/
theorem movesOnly_calls (listed : opcode ∈ standard.entries)
    (defined : opcode.instruction ≠ .invalid)
    (due : session.activation.violation opcode.lastCycle 1 = none)
    (few : count < opcode.completion session.regs) :
    session.regs.MovesOnly (session.calls opcode (List.range' 1 count)).regs :=
  @calls_induction opcode μ _ session count (session.regs.MovesOnly ·.regs) listed defined due rfl
    (fun _ _ moved interim => moved.trans interim.movesOnly) few

/-- Until an opcode completes that neither pushes nor stores the stack pointer, its steps leave the
RAM as it is. -/
theorem memory_calls {session : Session Ram} (listed : opcode ∈ standard.entries)
    (defined : opcode.instruction ≠ .invalid)
    (due : session.activation.violation opcode.lastCycle 1 = none)
    (pushless : opcode.instruction.pushes = false) (storeless : opcode.instruction ≠ .storeSp)
    (few : count < opcode.completion session.regs) :
    (session.calls opcode (List.range' 1 count)).memory = session.memory := by
  refine @calls_induction opcode Ram _ session count (·.memory = session.memory)
    listed defined due rfl (fun between cycle same interim => ?_) few
  have left := Bus.memory_exec (opcode.step cycle between.activation between.regs) between.memory
  exact left.trans ((interim.overwrite pushless storeless _).trans same)

end Session

namespace Opcode

/-- A listed opcode shows nothing by halves. A step that does not complete it keeps every register
but the program counter and the stack pointer, and does no more than its cycle may do before; one
that fails does nothing. Stepped in order, from a first cycle that is accepted, the opcode keeps all
other registers up to the completing step, the only one to say that it is complete; and unless it
pushes or stores the stack pointer, it keeps the RAM. -/
theorem withholds_results (listed : opcode ∈ standard.entries) (activation : Activation)
    (regs : RegisterFile) {μ : Type} [Memory μ] (memory : μ) (ram : Ram) :
    (∀ cycle,
      let stepped := (opcode.step cycle activation regs).exec memory
      let after := stepped.value.regs
      (stepped.value.outcome = .ok .running →
        after = { regs with pc := after.pc, sp := after.sp } ∧
          opcode.instruction.Interim cycle regs after stepped.accesses) ∧
      ∀ fault, stepped.value.outcome = .error fault →
        after = regs ∧ stepped.memory = memory ∧ stepped.accesses = []) ∧
    (∀ cycle address,
      let stepped := (opcode.step cycle activation regs).exec ram
      (∀ byte, .write address byte ∉ stepped.accesses) →
        stepped.memory.read address = ram.read address) ∧
    (opcode.instruction ≠ .invalid → activation.violation opcode.lastCycle 1 = none →
      let last :=
        if regs.holds opcode.instruction.condition then opcode.lastCycle
        else opcode.instruction.duration.min
      let start : Session μ := { activation, regs, memory }
      let startRam : Session Ram := { activation, regs, memory := ram }
      (start.calls opcode (List.range' 1 last)).answers = Session.completing 0 last ∧
        ∀ count < last,
          (let left := (start.calls opcode (List.range' 1 count)).regs
          left = { regs with pc := left.pc, sp := left.sp }) ∧
          (opcode.instruction.pushes = false → opcode.instruction ≠ .storeSp →
            (startRam.calls opcode (List.range' 1 count)).memory = ram)) := by
  refine ⟨?_, ?_, ?_⟩
  · intro cycle stepped after
    constructor
    · intro running
      have interim := (always_step_interim listed cycle activation regs).exec memory running
      exact ⟨interim.movesOnly, interim⟩
    · intro fault failed
      obtain ⟨left, refused⟩ := step_of_error listed failed
      simp only [after, stepped, refused]
      exact ⟨rfl, rfl, rfl⟩
  · intro cycle address stepped kept
    have left := Bus.memory_exec (opcode.step cycle activation regs) ram
    simp only [stepped, left]
    exact ram.read_overwrite_of_kept kept
  · intro defined due last start startRam
    have storable := storesImmediate_of_mem_entries listed
    obtain ⟨answers, -⟩ := start.calls_completing defined storable due
    have ends : opcode.instruction.remaining 0 start.regs = last :=
      remaining_zero_eq_completion defined regs
    rw [ends, Nat.zero_add last] at answers
    refine ⟨answers, fun count few => ⟨?_, fun pushless storeless => ?_⟩⟩
    · exact @Session.movesOnly_calls opcode μ _ start count listed defined due few
    · exact @Session.memory_calls opcode count startRam listed defined due pushless storeless few

/-- The third cycle of a push writes one byte of the word and moves the stack pointer on, and leaves
all else to the fourth; called for too early, that one does nothing. -/
theorem push_shows_at_once :
    let push : Opcode := ⟨⟨0xC5, false⟩, .push .bc⟩
    let regs : RegisterFile := { b := 0x12, c := 0x34, sp := 0 }
    let start : Session Ram := { activation := {}, regs, memory := .zero }
    let reserved := start.calls push [1, 2]
    let third := (push.step 3 reserved.activation reserved.regs).exec reserved.memory
    let early := (push.step 4 reserved.activation reserved.regs).exec reserved.memory
    push ∈ standard.entries ∧
      third.accesses = [.write 0xFFFF 0x12] ∧
      third.value.regs = { regs with pc := 0, sp := 0xFFFE } ∧
      third.memory.read 0xFFFE = reserved.memory.read 0xFFFE ∧
      early.value.regs = reserved.regs ∧
      (start.calls push [1, 2, 3, 4]).answers = Session.completing 0 4 := by
  intro push regs start reserved third early
  have listed : push ∈ standard.entries := by
    have found := standard.lookup_mem_entries ⟨0xC5, false⟩
    rwa [lookup_standard_plain] at found
  have accesses : third.accesses = [.write 0xFFFF 0x12] := by decide
  obtain ⟨steps, bytes, -⟩ := withholds_results listed reserved.activation reserved.regs
    reserved.memory reserved.memory
  obtain ⟨-, -, runs⟩ := withholds_results listed {} regs Ram.zero Ram.zero
  have pc : third.value.regs.pc = 0 := by decide
  have sp : third.value.regs.sp = 0xFFFE := by decide
  have moved : third.value.regs =
      { regs with pc := third.value.regs.pc, sp := third.value.regs.sp } := ((steps 3).1 rfl).1
  rw [pc, sp] at moved
  have elsewhere : ∀ byte, Access.write 0xFFFE byte ∉ third.accesses := by
    rw [accesses]
    intro byte
    simp
  exact ⟨listed, accesses, moved, bytes 3 0xFFFE elsewhere, ((steps 4).2 _ rfl).1,
    (runs nofun push.due_first).1⟩

end Opcode

end Sm83
