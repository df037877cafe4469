import Sm83.Proofs.Processor.Transcript

/-!
# Refused requests

A request for an interrupt is accepted between instructions and at no other time. One that is
refused says what the processor is in the middle of, and changes nothing. So requests that were
refused can be left out of any list of commands, and everything else goes as it went.
-/

namespace Sm83.Processor

variable {μ : Type} [Memory μ] {processor : Processor} {memory : μ} {command : Command}

/-- Whether the entry is a request that was refused. -/
def Entry.isRefused (entry : Entry μ) : Bool :=
  match entry.command, entry.done.value.outcome with
  | .call (.request _), .error _ => true
  | _, _ => false

/-- A request that comes in the middle of something fails, and does nothing else. -/
theorem request_of_busy (busy : processor.phase ≠ .idle) (interrupt : Interrupt) :
    ∃ fault, processor.request interrupt = .done ⟨.error fault, processor⟩ := by
  unfold request
  cases phase : processor.phase with
  | idle => exact absurd phase busy
  | prefixed | executing | servicing | locked => exact ⟨_, rfl⟩

/-- Only a request that comes in the middle of something is refused. -/
theorem exists_request_of_isRefused
    (refused : Entry.isRefused ⟨command, (processor.obey command).exec memory⟩ = true) :
    ∃ interrupt, command = .call (.request interrupt) ∧ processor.phase ≠ .idle := by
  unfold Entry.isRefused at refused
  cases command with
  | run => cases refused
  | call call =>
    cases call with
    | request interrupt =>
      refine ⟨interrupt, rfl, fun idle => ?_⟩
      simp only [obey, request, idle] at refused
      cases refused
    | tick | resume | reset | rewrite => cases refused

/-- A refused request leaves the processor and the memory as they were and makes no access. -/
theorem exec_of_isRefused
    (refused : Entry.isRefused ⟨command, (processor.obey command).exec memory⟩ = true) :
    let done := (processor.obey command).exec memory
    done.value.processor = processor ∧ done.memory = memory ∧ done.accesses = [] := by
  obtain ⟨interrupt, rfl, busy⟩ := exists_request_of_isRefused refused
  obtain ⟨fault, request⟩ := request_of_busy busy interrupt
  simp only [obey, request]
  exact ⟨rfl, rfl, rfl⟩

/-- Leaving out the requests that were refused leaves the other entries as they were, and comes to
the same end with the same accesses. -/
theorem transcript_filter (processor : Processor) (memory : μ) (commands : List Command) :
    let entries := processor.transcript memory commands
    let kept := entries.filter (!·.isRefused)
    processor.transcript memory (kept.map (·.command)) = kept ∧
      processor.left memory (kept.map (·.command)) = processor.left memory commands ∧
      kept.flatMap (·.done.accesses) = entries.flatMap (·.done.accesses) := by
  induction commands generalizing processor memory with
  | nil => exact ⟨rfl, rfl, rfl⟩
  | cons command rest ih =>
    have later := ih ((processor.obey command).exec memory).value.processor
      ((processor.obey command).exec memory).memory
    cases refused : Entry.isRefused ⟨command, (processor.obey command).exec memory⟩ with
    | true =>
      obtain ⟨same, kept, silent⟩ := exec_of_isRefused refused
      rw [same, kept] at later
      simp only [transcript, left, List.filter_cons, refused, List.flatMap_cons, silent, same, kept]
      exact later
    | false =>
      obtain ⟨entries, ends, accesses⟩ := later
      simp only [transcript, left, List.filter_cons, refused, List.flatMap_cons]
      exact ⟨congrArg _ entries, ends, congrArg _ accesses⟩

/-- Requests that are refused leave no trace. A request is accepted exactly between instructions.
In the middle of something it changes neither the processor nor the memory, makes no access, and
says what is in the way: the fault of a lock, the dispatch that runs, or the opcode that executes
and the last cycle that it has come to, which behind the prefix byte is that byte and its only
cycle. So whatever a processor is commanded to do, without the requests that were refused every
other command has the result that it had and leaves what it left, and the same accesses are made. -/
theorem refusals_leave_no_trace (processor : Processor) (memory : μ) :
    (∀ interrupt,
      let asked := (processor.request interrupt).exec memory
      (asked.value.outcome = .ok () ↔ processor.phase = .idle) ∧
      (processor.phase ≠ .idle →
        asked.value.processor = processor ∧ asked.memory = memory ∧ asked.accesses = []) ∧
      (∀ fault, processor.phase = .locked fault → asked.value.outcome = .error fault) ∧
      (∀ active cycle, processor.phase = .servicing active cycle →
        asked.value.outcome = .error (.dispatchInProgress interrupt active cycle)) ∧
      (processor.phase = .prefixed →
        asked.value.outcome = .error (.misstep ⟨0xCB, false⟩ 1 .inFlight)) ∧
      ∀ opcode cycle, processor.executing? = some (opcode, cycle) →
        asked.value.outcome = .error (.misstep opcode.toEncoding cycle .inFlight)) ∧
    ∀ commands,
      let entries := processor.transcript memory commands
      let kept := entries.filter (!·.isRefused)
      processor.transcript memory (kept.map (·.command)) = kept ∧
        processor.left memory (kept.map (·.command)) = processor.left memory commands ∧
        kept.flatMap (·.done.accesses) = entries.flatMap (·.done.accesses) := by
  refine ⟨fun interrupt => ?_, processor.transcript_filter memory⟩
  unfold request executing?
  cases phase : processor.phase with
  | idle => simp [Bus.log]
  | prefixed => simp [prefixByte]
  | executing opcode cycle activation => simp [Opcode.misstep]
  | servicing active cycle => simp
  | locked fault => simp

/-- Requests in the middle of a jump and of a dispatch are refused, and the program goes on without
them as it would have. -/
theorem no_trace_in_jump :
    let ram := Ram.ofProgram 0x0100 [0xC3, 0x00, 0x02]
    let processor := afterBoot .dmgAbc
    let jumping := (processor.tick.exec ram).value.processor
    let commands : List Command :=
      [.call .tick, .call (.request .timer), .run, .call (.request .vblank), .call (.request .stat),
        .run]
    (jumping.phase ≠ .idle ∧ jumping.executing? = some (⟨⟨0xC3, false⟩, .jp none⟩, 1)) ∧
      ((jumping.request .timer).exec ram).value.outcome =
        .error (.misstep ⟨0xC3, false⟩ 1 .inFlight) ∧
      ((jumping.request .timer).exec ram).value.processor = jumping ∧
      processor.left ram [.call .tick, .run, .call (.request .vblank), .run] =
        processor.left ram commands := by
  intro ram processor jumping commands
  have executing : jumping.executing? = some (⟨⟨0xC3, false⟩, .jp none⟩, 1) := by decide +kernel
  have busy : jumping.phase ≠ .idle := by
    intro idle
    unfold executing? at executing
    rw [idle] at executing
    cases executing
  obtain ⟨-, unchanged, -, -, -, misstep⟩ := (refusals_leave_no_trace jumping ram).1 .timer
  have deletes := (refusals_leave_no_trace processor ram).2 commands
  have kept : ((processor.transcript ram commands).filter (!·.isRefused)).map (·.command) =
      [.call .tick, .run, .call (.request .vblank), .run] := by decide +kernel
  simp only [kept] at deletes
  exact ⟨⟨busy, executing⟩, misstep _ _ executing, (unchanged busy).1, deletes.2.1⟩

end Sm83.Processor
