import Sm83.Proofs.Schedule.Timetable

/-!
# What instructions do with their operands

An instruction that uses operands fetches the bytes behind its opcode first, and gets a value or
puts one with its last cycle. What it gets is what the operand held before the instruction, and it
puts its value where the operand was then: neither depends on how far the program counter has moved,
and forming the address moves HL only where the operand says so.
-/

namespace Sm83

open MachineCycle Schedule

/-- The latch that holds so many bytes from an address on, at most two. -/
def Latch.fetched (ram : Ram) (address : UInt16) : Nat → Latch
  | 0 => {}
  | 1 => { low := ram.read address }
  | _ => { low := ram.read address, high := ram.read (address + 1) }

/-- The registers after the address of an operand was formed. -/
def AddressMode.used (mode : AddressMode) (regs : RegisterFile) : RegisterFile :=
  match mode with
  | hlIncrement => regs.setPair .hl (regs.hl + 1)
  | hlDecrement => regs.setPair .hl (regs.hl - 1)
  | _ => regs

/-- The registers after an operand was used. -/
def Operand.used (operand : Operand) (regs : RegisterFile) : RegisterFile :=
  match operand with
  | memory mode => mode.used regs
  | register _ | immediate => regs

variable {before : RegisterFile} {pc : UInt16} {ram left : Ram} {size : Nat} {after : Context}

/-! ## Bytes behind the opcode -/

namespace Schedule

/-- Parts without work leave everything alone. -/
theorem does_inTurn_idle (count : Nat) (context : Context) (ram : Ram) :
    (inTurn (List.replicate count idle)).Does context ram () context ram := by
  induction count with
  | zero => exact does_pure () context ram
  | succ count ih => exact (does_idle context ram).bind ih

/-- Fetching the bytes behind an opcode moves the program counter past them. -/
theorem does_inTurn_fetches (few : size ≤ 2) :
    (inTurn (fetches size)).Does ⟨{ before with pc := before.pc + 1 }, {}⟩ ram ()
      ⟨{ before with pc := before.pc + UInt16.ofNat (1 + size) },
        Latch.fetched ram (before.pc + 1) size⟩ ram := by
  match size with
  | 0 => exact does_pure _ _ _
  | 1 =>
    have next : before.pc + UInt16.ofNat (1 + 1) = before.pc + 1 + 1 :=
      (Word.add_one_add_one before.pc).symm
    rw [next]
    exact ⟨_, _, rfl⟩
  | 2 =>
    have next : before.pc + UInt16.ofNat (1 + 2) = before.pc + 1 + 1 + 1 :=
      (Word.add_one_add_one_add_one before.pc).symm
    rw [next]
    exact ⟨_, _, rfl⟩

/-- An instruction completes with the bytes behind its opcode in the latch and the program counter
past them, however many cycles without work there are. -/
theorem does_run_closing_fetches {finish : MachineCycle Unit} (few : size ≤ 2) (accesses : Nat)
    (finishes : finish.Does
      ⟨{ before with pc := before.pc + UInt16.ofNat (1 + size) },
        Latch.fetched ram (before.pc + 1) size⟩ ram () after left) :
    (run (closing finish (idle :: fetches size ++ List.replicate accesses idle))).Does
      ⟨{ before with pc := before.pc + 1 }, {}⟩ ram
      (idle :: fetches size ++ List.replicate accesses idle).length after left := by
  have nonempty : idle :: fetches size ++ List.replicate accesses idle ≠ [] := by simp
  have parts : (inTurn (idle :: fetches size ++ List.replicate accesses idle)).Does
      ⟨{ before with pc := before.pc + 1 }, {}⟩ ram ()
      ⟨{ before with pc := before.pc + UInt16.ofNat (1 + size) },
        Latch.fetched ram (before.pc + 1) size⟩ ram := by
    rw [List.cons_append, inTurn, inTurn_append]
    exact (does_idle _ _).bind
      ((does_inTurn_fetches few).bind (does_inTurn_idle accesses _ ram))
  rw [run_closing finish nonempty]
  exact parts.bind (finishes.bind (does_pure _ _ _))

end Schedule

/-! ## Single operands -/

/-- The first of the bytes that the latch holds. -/
theorem Latch.low_fetched (positive : 0 < size) (address : UInt16) :
    (Latch.fetched ram address size).low = ram.read address := by
  match size with
  | 1 | size + 2 => rfl

/-- Two of the bytes that the latch holds are a word. -/
theorem Latch.word_fetched (enough : 2 ≤ size) (address : UInt16) :
    (Latch.fetched ram address size).word = ram.wordAt address := by
  match size with
  | size + 2 => rfl

/-- The address of an operand is its effective one. -/
theorem AddressMode.does_address {mode : AddressMode} (proper : mode ≠ .pair .pc)
    (fetched : mode.size ≤ size) :
    mode.address.Does ⟨{ before with pc }, Latch.fetched ram (before.pc + 1) size⟩ ram
      (mode.effective before ram)
      ⟨{ mode.used before with pc }, Latch.fetched ram (before.pc + 1) size⟩ ram := by
  cases mode with
  | pair rr =>
    cases rr with
    | pc => exact absurd rfl proper
    | _ => exact ⟨_, _, rfl⟩
  | hlIncrement | hlDecrement => exact ⟨_, _, rfl⟩
  | absolute =>
    rw [effective, ← Latch.word_fetched fetched]
    exact ⟨_, _, rfl⟩
  | highPage =>
    rw [effective, ← Latch.low_fetched fetched, ← Word.ofBytes_page]
    exact ⟨_, _, rfl⟩
  | highPageC =>
    rw [effective, ← Word.ofBytes_page]
    exact ⟨_, _, rfl⟩

namespace Operand

/-- An operand is got as it was held before the instruction. -/
theorem does_load {operand : Operand} (proper : operand ≠ .memory (.pair .pc))
    (fetched : operand.size ≤ size) :
    operand.load.Does ⟨{ before with pc }, Latch.fetched ram (before.pc + 1) size⟩ ram
      (operand.held before ram)
      ⟨{ operand.used before with pc }, Latch.fetched ram (before.pc + 1) size⟩ ram := by
  cases operand with
  | register r =>
    cases r <;> exact ⟨_, _, rfl⟩
  | immediate =>
    rw [held, ← Latch.low_fetched fetched]
    exact ⟨_, _, rfl⟩
  | memory mode =>
    have addressed := @AddressMode.does_address before pc ram size mode
      (fun same => proper (congrArg memory same)) fetched
    exact addressed.bind ⟨_, _, rfl⟩

/-- A register is put alone. -/
theorem does_store_register (r : Register) (byte : UInt8) (latch : Latch) :
    (register r).store byte |>.Does ⟨{ before with pc }, latch⟩ ram ()
      ⟨{ before.set r byte with pc }, latch⟩ ram := by
  cases r <;> exact ⟨_, _, rfl⟩

/-- A byte in memory is put at the effective address. -/
theorem does_store_memory {mode : AddressMode} (proper : mode ≠ .pair .pc)
    (fetched : mode.size ≤ size) (byte : UInt8) :
    (memory mode).store byte |>.Does
      ⟨{ before with pc }, Latch.fetched ram (before.pc + 1) size⟩ ram ()
      ⟨{ mode.used before with pc }, Latch.fetched ram (before.pc + 1) size⟩
      (ram.write (mode.effective before ram) byte) := by
  have addressed := @AddressMode.does_address before pc ram size mode proper fetched
  exact addressed.bind ⟨_, _, rfl⟩

end Operand

end Sm83
