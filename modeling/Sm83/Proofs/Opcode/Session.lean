import Sm83.Execution
import Sm83.Proofs.Opcode.Step
import Sm83.Proofs.Schedule.Remaining

/-!
# Sessions

A session steps one opcode over a memory by whatever cycle numbers it is called with, and records
every answer and everything that goes over the bus. Only the cycle behind those that were made of an
instruction is accepted. A call that is refused leaves all but the record of answers alone, and one
that is accepted answers with the progress that the instruction makes in its cycle.
-/

namespace Sm83

namespace Activation

/-- The number of cycles that were made of an instruction that is not complete. -/
def made (activation : Activation) : Nat := if activation.retired then 0 else activation.cycle

/-- The cycle behind those that were made is accepted, up to the last one, and no other. -/
theorem violation_eq_none_iff_made {activation : Activation} {last cycle : Nat} :
    activation.violation last cycle = none ↔ cycle = activation.made + 1 ∧ cycle ≤ last := by
  rw [violation_eq_none_iff]
  unfold made
  cases done : activation.retired with
  | true =>
    by_cases first : cycle = 1
    · simp [first]
    · simp [first]
  | false =>
    by_cases first : cycle = 1
    · simp [first]
      omega
    · simp only [first, if_false, Bool.false_eq_true, true_and]
      omega

end Activation

/-- Where the stepping of an opcode over a memory has come to, and what it has recorded. -/
structure Session (μ : Type) where
  /-- The activation that the calls are checked against. -/
  activation : Activation
  /-- The register file. -/
  regs : RegisterFile
  /-- The memory. -/
  memory : μ
  /-- The answers to the calls, in order, each with the cycle that was called for. -/
  answers : List (Nat × Except Fault Progress) := []
  /-- The accesses of the calls, in order. -/
  accesses : List Access := []
  /-- The reports of the calls, in order. -/
  events : List Event := []

namespace Session

variable {μ : Type}

/-- The answers to the calls that were accepted. -/
def accepted (session : Session μ) : List (Nat × Except Fault Progress) :=
  session.answers.filter (·.2.isOk)

/-- A call that is accepted has its answer among the accepted ones. -/
theorem accepted_of_ok {before after : Session μ} {cycle : Nat} {progress : Progress}
    (answered : after.answers = before.answers ++ [(cycle, .ok progress)]) :
    after.accepted = before.accepted ++ [(cycle, .ok progress)] := by
  unfold accepted
  rw [answered, List.filter_append]
  rfl

variable [Memory μ] {opcode : Opcode}

/-- Call for one cycle of an opcode. -/
def call (session : Session μ) (opcode : Opcode) (cycle : Nat) : Session μ :=
  let stepped := (opcode.step cycle session.activation session.regs).exec session.memory
  { activation := stepped.value.activation
    regs := stepped.value.regs
    memory := stepped.memory
    answers := session.answers ++ [(cycle, stepped.value.outcome)]
    accesses := session.accesses ++ stepped.accesses
    events := session.events ++ stepped.events }

/-- Call for cycles of an opcode, one after another, whatever the answers are. -/
def calls (session : Session μ) (opcode : Opcode) (cycles : List Nat) : Session μ :=
  cycles.foldl (·.call opcode ·) session

/-- The answers to so many cycles behind those made, none of which completes the instruction. -/
def ongoing (made count : Nat) : List (Nat × Except Fault Progress) :=
  (List.range' (made + 1) count).map fun cycle => (cycle, .ok .running)

/-- The answers to the cycles behind those made up to a last one, which completes the
instruction. -/
def completing (made last : Nat) : List (Nat × Except Fault Progress) :=
  ongoing made (last - made - 1) ++ [(last, .ok .retired)]

/-- No call changes nothing. -/
@[simp] theorem calls_nil (session : Session μ) (opcode : Opcode) :
    session.calls opcode [] = session := rfl

/-- Calls are made one after another. -/
@[simp] theorem calls_cons (session : Session μ) (opcode : Opcode) (cycle : Nat)
    (cycles : List Nat) :
    session.calls opcode (cycle :: cycles) = (session.call opcode cycle).calls opcode cycles := rfl

/-- Calls can be made in two parts. -/
theorem calls_append (session : Session μ) (opcode : Opcode) (first second : List Nat) :
    session.calls opcode (first ++ second) =
      (session.calls opcode first).calls opcode second := List.foldl_append

/-- The cycles in order are a shorter sequence and the one behind it. -/
theorem calls_range'_succ (session : Session μ) (opcode : Opcode) (first count : Nat) :
    session.calls opcode (List.range' first (count + 1)) =
      (session.calls opcode (List.range' first count)).call opcode (first + count) := by
  rw [List.range'_concat, calls_append, Nat.one_mul]
  rfl

/-- A longer sequence of cycles that do not complete the instruction has one more in front. -/
theorem ongoing_succ (made count : Nat) :
    ongoing made (count + 1) = (made + 1, .ok .running) :: ongoing (made + 1) count := rfl

/-- A longer sequence of cycles that do not complete the instruction has one more at its end. -/
theorem ongoing_concat (made count : Nat) :
    ongoing made (count + 1) = ongoing made count ++ [(made + count + 1, .ok .running)] := by
  unfold ongoing
  rw [List.range'_concat, List.map_append, Nat.one_mul, Nat.add_right_comm]
  rfl

/-- A call that is refused leaves all but the record of answers alone. -/
theorem call_of_violation (session : Session μ) {cycle : Nat} {violation : Violation}
    (refused : session.activation.violation opcode.lastCycle cycle = some violation) :
    session.call opcode cycle =
      { session with
        answers := session.answers ++ [(cycle, .error (opcode.misstep cycle violation))] } := by
  unfold call
  rw [Opcode.step_of_violation refused]
  simp

/-- A call that is accepted answers with the progress of its cycle, unless the cycle is the last one
and stores to the byte after the opcode. It notes the cycle, and keeps the flags unless it completes
the instruction. -/
theorem call_of_due (session : Session μ) {cycle : Nat}
    (defined : opcode.instruction ≠ .invalid)
    (storable : cycle = opcode.lastCycle → opcode.instruction.storesImmediate = false)
    (due : session.activation.violation opcode.lastCycle cycle = none) :
    let progress := opcode.instruction.progress cycle session.regs
    let left := session.call opcode cycle
    left.answers = session.answers ++ [(cycle, .ok progress)] ∧
      left.activation = Activation.after cycle progress left.activation.latch ∧
      (progress = .running → left.regs.f = session.regs.f) := by
  intro progress left
  have step := (Opcode.always_step_of_due session.regs defined storable due).exec session.memory
  obtain ⟨outcome, noted, kept⟩ := step
  refine ⟨?_, noted, kept⟩
  simp only [left, call, outcome]
  rfl

end Session

end Sm83
