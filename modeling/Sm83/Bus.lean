import Sm83.Event
import Sm83.Word

/-!
# Bus programs

A bus program is a value that says what the processor asks of the memory and what it reports, step
by step, until it has a result. A read continues with whatever byte the memory answers, so a program
is fixed before any memory is chosen, and its accesses can be counted on every path through it.

Programs compose as a lawful monad.
-/

namespace Sm83

/-- One access that went over the bus. -/
inductive Access where
  | read (address : UInt16) (byte : UInt8)
  | write (address : UInt16) (byte : UInt8)
deriving DecidableEq, Repr

/-- A program on the bus with a result. -/
inductive Bus (α : Type) where
  /-- The result. -/
  | done (value : α)
  /-- Read a byte and continue with it. -/
  | read (address : UInt16) (next : UInt8 → Bus α)
  /-- Write a byte and continue. -/
  | write (address : UInt16) (byte : UInt8) (next : Bus α)
  /-- Report an event and continue. -/
  | report (event : Event) (next : Bus α)

namespace Bus

variable {α β γ : Type}

/-- Run one program and then the one that its result selects. -/
def bind (program : Bus α) (next : α → Bus β) : Bus β :=
  match program with
  | done value => next value
  | read address rest => read address fun byte => (rest byte).bind next
  | write address byte rest => write address byte (rest.bind next)
  | report event rest => report event (rest.bind next)

instance : Monad Bus where
  pure := done
  bind := bind

/-- The result alone is the program that does nothing else. -/
@[simp] theorem pure_eq_done (value : α) : (pure value : Bus α) = done value := rfl

/-- What follows a result is selected by it. -/
@[simp] theorem done_bind (value : α) (next : α → Bus β) : done value >>= next = next value := rfl

/-- What follows a program follows its first read. -/
@[simp] theorem read_bind (address : UInt16) (rest : UInt8 → Bus α) (next : α → Bus β) :
    read address rest >>= next = read address fun byte => rest byte >>= next := rfl

/-- What follows a program follows its first write. -/
@[simp] theorem write_bind (address : UInt16) (byte : UInt8) (rest : Bus α) (next : α → Bus β) :
    write address byte rest >>= next = write address byte (rest >>= next) := rfl

/-- What follows a program follows its first report. -/
@[simp] theorem report_bind (event : Event) (rest : Bus α) (next : α → Bus β) :
    report event rest >>= next = report event (rest >>= next) := rfl

/-- A program that is followed by nothing is itself. -/
theorem bind_done (program : Bus α) : program >>= done = program := by
  induction program with
  | done value => rfl
  | read address rest ih => simp [ih]
  | write address byte rest ih => simp [ih]
  | report event rest ih => simp [ih]

/-- Following programs associates. -/
theorem bind_assoc (program : Bus α) (middle : α → Bus β) (last : β → Bus γ) :
    program >>= middle >>= last = program >>= fun value => middle value >>= last := by
  induction program with
  | done value => rfl
  | read address rest ih => simp [ih]
  | write address byte rest ih => simp [ih]
  | report event rest ih => simp [ih]

instance : LawfulMonad Bus :=
  LawfulMonad.mk' Bus (fun program => bind_done program) (fun _ _ => rfl) bind_assoc

/-- Read the byte at an address. -/
def readByte (address : UInt16) : Bus UInt8 := read address done

/-- Write a byte to an address. -/
def writeByte (address : UInt16) (byte : UInt8) : Bus Unit := write address byte (done ())

/-- Report an event. -/
def log (event : Event) : Bus Unit := report event (done ())

/-- Read a word, its lower half first, from an address and the one after it. -/
def readWord (address : UInt16) : Bus UInt16 := do
  let low ← readByte address
  let high ← readByte (address + 1)
  return Word.ofBytes high low

/-- Write a word, its lower half first, to an address and the one after it. -/
def writeWord (address : UInt16) (word : UInt16) : Bus Unit := do
  writeByte address (Word.low word)
  writeByte (address + 1) (Word.high word)

end Bus

end Sm83
