import Sm83.Proofs.Bus.Locality
import Sm83.Proofs.Processor.History

/-!
# The bytes that a run depends on

A run of any number of ticks depends on the bytes that it reads before it has written them, and on
no other byte of the RAM. Over two RAMs that agree on those it goes through the same states, fails
in the same ticks and makes the same accesses; and it leaves each RAM as it was but for the same
writes, also where the program that runs writes over itself.
-/

namespace Sm83

/-- What an execution shows apart from the memory that it leaves. -/
def Execution.shown {μ α : Type} (execution : Execution μ α) : Execution Unit α :=
  { execution with memory := () }

namespace Processor

variable {processor : Processor} {left right : Ram} {count : Nat}

/-- The accesses of so many ticks, in order. -/
def traffic {μ : Type} [Memory μ] (processor : Processor) (memory : μ) (count : Nat) :
    List Access := (processor.history memory count).flatMap (·.accesses)

/-- The memory that so many ticks leave. -/
def memoryAfter {μ : Type} [Memory μ] (processor : Processor) (memory : μ) : Nat → μ
  | 0 => memory
  | count + 1 =>
    let ticked := processor.tick.exec memory
    ticked.value.processor.memoryAfter ticked.memory count

/-- One more tick comes in front of the accesses of the others. -/
theorem traffic_succ {μ : Type} [Memory μ] (processor : Processor) (memory : μ) (count : Nat) :
    processor.traffic memory (count + 1) =
      (processor.tick.exec memory).accesses ++
        (processor.tick.exec memory).value.processor.traffic (processor.tick.exec memory).memory
          count := rfl

/-- Ticks overwrite a RAM by their writes and change nothing else in it. -/
theorem memoryAfter_eq (processor : Processor) (ram : Ram) (count : Nat) :
    processor.memoryAfter ram count = ram.overwrite (processor.traffic ram count) := by
  induction count generalizing processor ram with
  | zero => rfl
  | succ count ih =>
    rw [traffic_succ, Ram.overwrite_append, ← Bus.memory_exec]
    exact ih _ _

/-- Over a RAM that agrees with another one on the bytes that ticks borrow from that one, the ticks
show what they show over that one. -/
theorem shown_history_of_agree
    (agree : ∀ address, Borrows address (processor.traffic left count) →
      right.read address = left.read address) :
    (processor.history right count).map Execution.shown =
      (processor.history left count).map Execution.shown := by
  induction count generalizing processor left right with
  | zero => rfl
  | succ count ih =>
    rw [traffic_succ] at agree
    have first := processor.tick.exec_of_agree fun address borrows =>
      agree address (borrows.append_left _)
    have rest := @ih (processor.tick.exec left).value.processor
      (left.overwrite (processor.tick.exec left).accesses)
      (right.overwrite (processor.tick.exec left).accesses) fun address borrows =>
        Ram.read_overwrite_congr fun kept => agree address (by
          rw [← Bus.memory_exec] at borrows
          exact borrows.append_right kept)
    simp only [history, List.map_cons, first, Bus.memory_exec, rest]
    rfl

/-- A run of any number of ticks, from any state, depends on no byte but those that it reads before
it has written them. Over a RAM that agrees on those its ticks have the same results, go through the
same states, and make the same accesses and reports, one by one. What it leaves of either RAM is the
RAM with the same writes made to it. So a byte that it does not read has no part in it, and a byte
that it does not write is kept. -/
theorem depends_on_borrowed (processor : Processor) (count : Nat) (left right : Ram)
    (agree : ∀ address, Borrows address (processor.traffic left count) →
      right.read address = left.read address) :
    let accesses := processor.traffic left count
    (processor.history right count).map Execution.shown =
        (processor.history left count).map Execution.shown ∧
      processor.memoryAfter left count = left.overwrite accesses ∧
      processor.memoryAfter right count = right.overwrite accesses ∧
      (∀ address, (∀ byte, .read address byte ∉ accesses) → ∀ byte,
        (processor.history (left.write address byte) count).map Execution.shown =
          (processor.history left count).map Execution.shown) ∧
      ∀ address, (∀ byte, .write address byte ∉ accesses) →
        (processor.memoryAfter left count).read address = left.read address := by
  intro accesses
  have alike := shown_history_of_agree agree
  have same : processor.traffic right count = accesses := by
    have shown := congrArg (List.flatMap (·.accesses)) alike
    rwa [List.flatMap_map, List.flatMap_map] at shown
  refine ⟨alike, memoryAfter_eq processor left count, ?_, ?_, ?_⟩
  · rw [memoryAfter_eq, same]
  · intro address unread byte
    refine shown_history_of_agree fun other borrows => Ram.read_write_of_ne left byte ?_
    rintro rfl
    obtain ⟨found, listed⟩ := borrows.exists_read
    exact unread found listed
  · intro address kept
    rw [memoryAfter_eq]
    exact left.read_overwrite_of_kept kept

/-- A program that replaces the byte behind its first instruction runs alike over two RAMs that
differ there. -/
theorem borrows_of_self_modifying :
    let left := Ram.ofProgram 0x0100 [0x77, 0xD3]
    let right := left.write 0x0101 0xDB
    let processor : Processor := ⟨{ h := 0x01, l := 0x01, pc := 0x0100 }, .idle⟩
    (∀ address, Borrows address (processor.traffic left 3) →
        right.read address = left.read address) ∧
      (processor.history right 3).map Execution.shown =
        (processor.history left 3).map Execution.shown := by
  intro left right processor
  have traffic : processor.traffic left 3 =
      [.read 0x0100 0x77, .write 0x0101 0x00, .read 0x0101 0x00] := by
    decide +kernel
  have agree : ∀ address, Borrows address (processor.traffic left 3) →
      right.read address = left.read address := by
    intro address borrows
    rw [traffic] at borrows
    rcases borrows with rfl | ⟨elsewhere, here | impossible⟩
    · exact Ram.read_write_of_ne left 0xDB (by decide)
    · exact absurd here elsewhere
    · exact impossible.elim
  exact ⟨agree, (depends_on_borrowed processor 3 left right agree).1⟩

end Processor

end Sm83
