import Sm83.Proofs.Processor.Reachable

/-!
# Transcripts

Whoever owns a processor commands it: the commands are the calls to the processor, and ticking until
it is idle. The transcript of some commands has an entry for each of them, with its result, the
processor and the memory that it left, and what went over the bus. Commands in two parts have the
transcripts of both, the second from where the first part came to.
-/

namespace Sm83.Processor

variable {α β μ : Type} [Memory μ]

/-- What the owner of a processor may have it do. -/
inductive Command where
  /-- Answer a call. -/
  | call (call : Call)
  /-- Tick until idle. -/
  | run

deriving instance DecidableEq for Call, Command

/-- An answer with its result converted. -/
def Answer.map (convert : α → β) (answer : Answer α) : Answer β :=
  ⟨answer.outcome.map convert, answer.processor⟩

/-- Obey a command. Only a run has a result, the number of its ticks. -/
def obey (processor : Processor) : Command → Bus (Answer (Option Nat))
  | .call .tick => return (← processor.tick).map fun _ => none
  | .call (.request interrupt) => return (← processor.request interrupt).map fun _ => none
  | .call call => return ⟨.ok none, ← processor.after call⟩
  | .run => return (← processor.runUntilIdle).map some

/-- A command and what obeying it did. -/
structure Entry (μ : Type) where
  /-- The command. -/
  command : Command
  /-- The answer, the memory that was left, and what went over the bus. -/
  done : Execution μ (Answer (Option Nat))

/-- What obeying commands one after another did, whether they succeeded or not. -/
def transcript (processor : Processor) (memory : μ) : List Command → List (Entry μ)
  | [] => []
  | command :: rest =>
    let done := (processor.obey command).exec memory
    ⟨command, done⟩ :: done.value.processor.transcript done.memory rest

/-- The processor and the memory that obeying commands one after another leaves. -/
def left (processor : Processor) (memory : μ) : List Command → Processor × μ
  | [] => (processor, memory)
  | command :: rest =>
    let done := (processor.obey command).exec memory
    done.value.processor.left done.memory rest

/-- The transcript of commands in two parts goes on from where the first part came to. -/
theorem transcript_append (processor : Processor) (memory : μ) (first second : List Command) :
    processor.transcript memory (first ++ second) =
      processor.transcript memory first ++
        (processor.left memory first).1.transcript (processor.left memory first).2 second := by
  induction first generalizing processor memory with
  | nil => rfl
  | cons command rest ih => simp only [List.cons_append, transcript, left, ih]

end Sm83.Processor
