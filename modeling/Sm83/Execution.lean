import Sm83.Bus

/-!
# Memories

A memory answers reads and takes writes; a read may change it. Executing a bus program over a
memory gives the result of the program, the memory it leaves, and what went over the bus in order.
Executing two programs in turn is executing their composition.
-/

namespace Sm83

/-- What a bus program can be executed over. -/
class Memory (μ : Type) where
  /-- The byte at an address, and the memory after it was read. -/
  read : μ → UInt16 → UInt8 × μ
  /-- The memory after a byte was written to an address. -/
  write : μ → UInt16 → UInt8 → μ

/-- The outcome of executing a program over a memory. -/
structure Execution (μ α : Type) where
  /-- The result of the program. -/
  value : α
  /-- The memory that the program leaves. -/
  memory : μ
  /-- The accesses of the program, in order. -/
  accesses : List Access
  /-- The reports of the program, in order. -/
  events : List Event

namespace Execution

variable {μ α : Type}

/-- An execution behind accesses and reports that came before it. -/
def behind (execution : Execution μ α) (accesses : List Access) (events : List Event) :
    Execution μ α :=
  { execution with
    accesses := accesses ++ execution.accesses
    events := events ++ execution.events }

/-- Nothing came before. -/
@[simp] theorem behind_nil (execution : Execution μ α) : execution.behind [] [] = execution := rfl

/-- What came before can be put in front at once. -/
@[simp] theorem behind_behind (execution : Execution μ α) (first second : List Access)
    (early late : List Event) :
    (execution.behind second late).behind first early =
      execution.behind (first ++ second) (early ++ late) := by
  simp [behind]

/-- What came before does not change the result. -/
@[simp] theorem value_behind (execution : Execution μ α) (accesses : List Access)
    (events : List Event) : (execution.behind accesses events).value = execution.value := rfl

/-- What came before does not change the memory that is left. -/
@[simp] theorem memory_behind (execution : Execution μ α) (accesses : List Access)
    (events : List Event) : (execution.behind accesses events).memory = execution.memory := rfl

end Execution

namespace Bus

variable {μ α β : Type} [Memory μ]

/-- Execute a program over a memory. -/
def exec (program : Bus α) (memory : μ) : Execution μ α :=
  match program with
  | done value => ⟨value, memory, [], []⟩
  | read address next =>
    let (byte, memory) := Memory.read memory address
    ((next byte).exec memory).behind [.read address byte] []
  | write address byte next =>
    (next.exec (Memory.write memory address byte)).behind [.write address byte] []
  | report event next => (next.exec memory).behind [] [event]

/-- A result is reached without an access. -/
@[simp] theorem exec_done (value : α) (memory : μ) :
    (done value).exec memory = ⟨value, memory, [], []⟩ := rfl

/-- A read continues with the byte and the memory that the memory answers. -/
@[simp] theorem exec_read (address : UInt16) (next : UInt8 → Bus α) (memory : μ) :
    (read address next).exec memory =
      ((next (Memory.read memory address).1).exec (Memory.read memory address).2).behind
        [.read address (Memory.read memory address).1] [] := rfl

/-- A write continues over the memory with the byte in it. -/
@[simp] theorem exec_write (address : UInt16) (byte : UInt8) (next : Bus α) (memory : μ) :
    (write address byte next).exec memory =
      (next.exec (Memory.write memory address byte)).behind [.write address byte] [] := rfl

/-- A report leaves the memory alone. -/
@[simp] theorem exec_report (event : Event) (next : Bus α) (memory : μ) :
    (report event next).exec memory = (next.exec memory).behind [] [event] := rfl

/-- Composed programs execute in turn. -/
theorem exec_bind (program : Bus α) (next : α → Bus β) (memory : μ) :
    (program >>= next).exec memory =
      ((next (program.exec memory).value).exec (program.exec memory).memory).behind
        (program.exec memory).accesses (program.exec memory).events := by
  induction program generalizing memory with
  | done value => rfl
  | read address rest ih => simp [ih, Execution.behind]
  | write address byte rest ih => simp [ih, Execution.behind]
  | report event rest ih => simp [ih, Execution.behind]

end Bus

end Sm83
