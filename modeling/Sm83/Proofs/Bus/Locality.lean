import Mathlib.Data.List.Induction
import Sm83.Ram

/-!
# The bytes that a bus program depends on

A program on the bus borrows a byte of the memory if it reads the byte before it has written it
itself. Over two RAMs that agree on the bytes that it borrows over one of them, a program does the
same, and it leaves each of them as it was but for the same writes.
-/

namespace Sm83

/-- Whether the byte at an address is read before it is written. -/
def Borrows (address : UInt16) : List Access → Prop
  | [] => False
  | .read source _ :: rest => source = address ∨ Borrows address rest
  | .write target _ :: rest => target ≠ address ∧ Borrows address rest

variable {address : UInt16} {first second accesses : List Access}

/-- What is borrowed is read. -/
theorem Borrows.exists_read (borrows : Borrows address accesses) :
    ∃ byte, .read address byte ∈ accesses := by
  induction accesses with
  | nil => exact borrows.elim
  | cons access rest ih =>
    cases access with
    | read source byte =>
      rcases borrows with rfl | later
      · exact ⟨byte, List.mem_cons_self⟩
      · obtain ⟨byte, listed⟩ := ih later
        exact ⟨byte, List.mem_cons_of_mem _ listed⟩
    | write target byte =>
      obtain ⟨byte, listed⟩ := ih borrows.2
      exact ⟨byte, List.mem_cons_of_mem _ listed⟩

/-- What is borrowed first is borrowed. -/
theorem Borrows.append_left (borrows : Borrows address first) (second : List Access) :
    Borrows address (first ++ second) := by
  induction first with
  | nil => exact borrows.elim
  | cons access rest ih =>
    cases access with
    | read source byte => exact borrows.imp_right ih
    | write target byte => exact ⟨borrows.1, ih borrows.2⟩

/-- What is borrowed behind accesses that do not write it is borrowed. -/
theorem Borrows.append_right (borrows : Borrows address second)
    (kept : ∀ byte, .write address byte ∉ first) : Borrows address (first ++ second) := by
  induction first with
  | nil => exact borrows
  | cons access rest ih =>
    have later : Borrows address (rest ++ second) :=
      ih fun byte listed => kept byte (List.mem_cons_of_mem _ listed)
    cases access with
    | read source byte => exact .inr later
    | write target byte =>
      refine ⟨?_, later⟩
      rintro rfl
      exact kept byte List.mem_cons_self

/-- The byte that an access leaves at an address, if it writes there. -/
def Access.written? (address : UInt16) : Access → Option UInt8
  | read _ _ => none
  | write target byte => if target = address then some byte else none

/-- The byte of the last write to an address, if there is one. -/
def lastWritten? (address : UInt16) (accesses : List Access) : Option UInt8 :=
  accesses.reverse.findSome? (Access.written? address)

/-- There is no last write to an address just if there is none. -/
theorem lastWritten?_eq_none_iff :
    lastWritten? address accesses = none ↔ ∀ byte, .write address byte ∉ accesses := by
  rw [lastWritten?, List.findSome?_eq_none_iff]
  constructor
  · intro unfound byte listed
    have here := unfound (.write address byte) (List.mem_reverse.mpr listed)
    simp [Access.written?] at here
  · intro kept access listed
    cases access with
    | read source byte => rfl
    | write target byte =>
      have elsewhere : target ≠ address := by
        rintro rfl
        exact kept byte (List.mem_reverse.mp listed)
      exact if_neg elsewhere

namespace Ram

variable {left right : Ram}

/-- The RAM with all writes of some accesses made to it, one after another. -/
def overwrite (ram : Ram) : List Access → Ram
  | [] => ram
  | .read _ _ :: rest => ram.overwrite rest
  | .write address byte :: rest => (ram.write address byte).overwrite rest

/-- Accesses in two parts overwrite a RAM in turn. -/
theorem overwrite_append (ram : Ram) (first second : List Access) :
    ram.overwrite (first ++ second) = (ram.overwrite first).overwrite second := by
  induction first generalizing ram with
  | nil => rfl
  | cons access rest ih => cases access <;> exact ih _

/-- Two RAMs that one byte is written to agree there, and wherever they agreed. -/
theorem read_write_congr {target : UInt16} {byte : UInt8}
    (agree : target ≠ address → left.read address = right.read address) :
    (left.write target byte).read address = (right.write target byte).read address := by
  by_cases here : target = address
  · subst here
    rw [read_write_self, read_write_self]
  · rw [read_write_of_ne _ _ here, read_write_of_ne _ _ here]
    exact agree here

/-- A byte is the one that was written last, or else the one from before. -/
theorem read_overwrite (ram : Ram) (address : UInt16) (accesses : List Access) :
    (ram.overwrite accesses).read address =
      (lastWritten? address accesses).getD (ram.read address) := by
  induction accesses using List.reverseRecOn with
  | nil => rfl
  | append_singleton accesses access ih =>
    rw [overwrite_append, lastWritten?, List.reverse_concat, List.findSome?_cons]
    cases access with
    | read source byte => exact ih
    | write target byte =>
      by_cases here : target = address
      · subst here
        simp [Access.written?, overwrite]
      · simp only [Access.written?, if_neg here]
        exact (read_write_of_ne _ _ here).trans ih

/-- Two RAMs that are written alike agree wherever they are written, and wherever they agreed. -/
theorem read_overwrite_congr
    (agree : (∀ byte, .write address byte ∉ accesses) → left.read address = right.read address) :
    (left.overwrite accesses).read address = (right.overwrite accesses).read address := by
  rw [read_overwrite, read_overwrite]
  cases found : lastWritten? address accesses with
  | none => exact agree (lastWritten?_eq_none_iff.mp found)
  | some byte => rfl

/-- A byte that is not written is kept. -/
theorem read_overwrite_of_kept (ram : Ram) (kept : ∀ byte, .write address byte ∉ accesses) :
    (ram.overwrite accesses).read address = ram.read address := by
  rw [read_overwrite, lastWritten?_eq_none_iff.mpr kept, Option.getD_none]

end Ram

/-- Over a RAM that agrees with another one on the bytes that a program borrows from that one, the
program does what it does over that one, and overwrites the RAM by the same writes. -/
theorem Bus.exec_of_agree {α : Type} (program : Bus α) {left right : Ram}
    (agree : ∀ address, Borrows address (program.exec left).accesses →
      right.read address = left.read address) :
    program.exec right =
      { program.exec left with memory := right.overwrite (program.exec left).accesses } := by
  induction program generalizing left right with
  | done value => rfl
  | read source next ih =>
    have found : right.read source = left.read source := agree source (.inl rfl)
    have rest := @ih (left.read source) left right fun address borrows =>
      agree address (.inr borrows)
    simp only [exec_read, Ram.memory_read, found, rest]
    rfl
  | write target byte next ih =>
    have rest := @ih (left.write target byte) (right.write target byte) fun address borrows =>
      Ram.read_write_congr fun elsewhere => agree address ⟨elsewhere, borrows⟩
    simp only [exec_write, Ram.memory_write, rest]
    rfl
  | report event next ih =>
    have rest := @ih left right agree
    simp only [exec_report, rest]
    rfl

/-- A program overwrites a RAM by its writes and changes nothing else in it. -/
theorem Bus.memory_exec {α : Type} (program : Bus α) (ram : Ram) :
    (program.exec ram).memory = ram.overwrite (program.exec ram).accesses :=
  congrArg Execution.memory (program.exec_of_agree fun _ _ => rfl)

end Sm83
