import Sm83.Proofs.Bus.Locality
import Sm83.Proofs.Schedule.Timetable

/-!
# Cycles that do not complete an instruction

What an instruction calculates shows only when it completes. Until then a cycle moves the program
counter past a byte that it fetches, or the stack pointer, or nothing; it reads at most one byte,
and the only bytes that it writes are the first ones of a word that is pushed and of the stack
pointer when that is stored.
-/

namespace Sm83

/-- The register files differ in the program counter and the stack pointer alone, if at all. -/
def RegisterFile.MovesOnly (before after : RegisterFile) : Prop :=
  after = { before with pc := after.pc, sp := after.sp }

/-- One such change behind another is such a change. -/
theorem RegisterFile.MovesOnly.trans {before between after : RegisterFile}
    (first : before.MovesOnly between) (second : between.MovesOnly after) :
    before.MovesOnly after :=
  calc
    after = { between with pc := after.pc, sp := after.sp } := second
    _ = { before with pc := after.pc, sp := after.sp } :=
      congrArg (fun regs : RegisterFile => { regs with pc := after.pc, sp := after.sp }) first

namespace Instruction

/-- Whether the instruction pushes a word. -/
def pushes : Instruction → Bool
  | push _ | call _ | rst _ => true
  | _ => false

/-- Whether the instruction pops a word. -/
def pops : Instruction → Bool
  | pop _ | ret _ | reti => true
  | _ => false

/-- What a cycle of an instruction may do to the registers and over the bus without completing the
instruction. -/
inductive Interim (instruction : Instruction) (number : Nat) (before : RegisterFile) :
    RegisterFile → List Access → Prop where
  /-- Nothing. -/
  | rest : Interim instruction number before before []
  /-- It fetches a byte after the opcode, the second byte with the second cycle and so on. -/
  | fetch (byte : UInt8) (second : 2 ≤ number) (encoded : number ≤ instruction.length) :
    Interim instruction number before { before with pc := before.pc + 1 } [.read before.pc byte]
  /-- It reads the byte that is to be changed in place. -/
  | inspect (byte : UInt8) (second : number = 2) :
    Interim instruction number before before [.read before.hl byte]
  /-- It pops a byte. -/
  | pop (byte : UInt8) (pops : instruction.pops = true) :
    Interim instruction number before { before with sp := before.sp + 1 } [.read before.sp byte]
  /-- It makes room on the stack, two cycles before it completes. -/
  | reserve (pushes : instruction.pushes = true) (place : number + 2 = instruction.cycles.length) :
    Interim instruction number before { before with sp := before.sp - 1 } []
  /-- It pushes the first byte of a word and makes room for the second, a cycle before it
  completes. -/
  | push (byte : UInt8) (pushes : instruction.pushes = true)
    (place : number + 1 = instruction.cycles.length) :
    Interim instruction number before { before with sp := before.sp - 1 } [.write before.sp byte]
  /-- It stores the first byte of the stack pointer. -/
  | store (address : UInt16) (stores : instruction = storeSp) (fourth : number = 4) :
    Interim instruction number before before [.write address (Word.low before.sp)]

namespace Interim

variable {instruction : Instruction} {number : Nat} {before after : RegisterFile}
  {accesses : List Access}

/-- All but the program counter and the stack pointer is kept. -/
theorem movesOnly (interim : instruction.Interim number before after accesses) :
    before.MovesOnly after := by
  cases interim <;> rfl

/-- What neither pushes nor stores the stack pointer writes nothing. -/
theorem overwrite (interim : instruction.Interim number before after accesses)
    (pushless : instruction.pushes = false) (storeless : instruction ≠ storeSp) (ram : Ram) :
    ram.overwrite accesses = ram := by
  cases interim with
  | rest | fetch | inspect | pop | reserve => rfl
  | push byte pushes => simp [pushless] at pushes
  | store address stores => exact absurd stores storeless

end Interim

end Instruction

namespace Schedule

open MachineCycle Instruction

/-- The work does not fail, and does no more than a cycle may do before the instruction is
complete. -/
def Passes (instruction : Instruction) (number : Nat) (work : MachineCycle Unit) : Prop :=
  ∀ context, work.Succeeds context fun _ after accesses _ =>
    instruction.Interim number context.regs after.regs accesses

/-- Unless the cycle fails or completes the instruction, it does no more than it may do before. -/
def Withholds (instruction : Instruction) (number : Nat) (cycle : MachineCycle Progress) : Prop :=
  ∀ context, (cycle.perform context).Always fun (outcome, after) accesses _ =>
    outcome = .ok .running → instruction.Interim number context.regs after.regs accesses

variable {instruction : Instruction} {number : Nat} {work : MachineCycle Unit}

/-! ## Work -/

/-- A cycle without work does nothing. -/
@[simp] theorem passes_idle : Passes instruction number idle := by
  simp [Passes, idle, Interim.rest]

/-- A first byte is fetched from behind the opcode. -/
theorem passes_fetchLow (second : 2 ≤ number) (encoded : number ≤ instruction.length) :
    Passes instruction number fetchLow := by
  simp [Passes, Interim.fetch, second, encoded]

/-- A further byte is fetched from behind the opcode. -/
theorem passes_fetchHigh (second : 2 ≤ number) (encoded : number ≤ instruction.length) :
    Passes instruction number fetchHigh := by
  simp [Passes, Interim.fetch, second, encoded]

/-- The lower half of a word is popped. -/
theorem passes_popLow (pops : instruction.pops = true) :
    Passes instruction number popLow := by
  simp [Passes, Interim.pop, pops]

/-- The upper half of a word is popped. -/
theorem passes_popHigh (pops : instruction.pops = true) :
    Passes instruction number popHigh := by
  simp [Passes, Interim.pop, pops]

/-- Room is made on the stack. -/
theorem passes_reserve (pushes : instruction.pushes = true)
    (place : number + 2 = instruction.cycles.length) : Passes instruction number reserve := by
  simp [Passes, reserve, Interim.reserve, pushes, place]

/-- The upper half of a word is pushed. -/
theorem passes_pushHigh (word : RegisterFile → UInt16)
    (pushes : instruction.pushes = true) (place : number + 1 = instruction.cycles.length) :
    Passes instruction number (pushHigh word) := by
  simp [Passes, pushHigh, reserve, Interim.push, pushes, place]

/-- The lower half of the stack pointer is stored. -/
@[simp] theorem passes_storeLow :
    Passes .storeSp 4 (do writeByte (← latch).word (Word.low (← regs).sp)) := by
  simp [Passes, Interim.store]

/-- The byte that HL points at is read and kept. -/
theorem passes_keep : Passes instruction 2 (keep (.memory (.pair .hl))) := by
  intro context
  simp only [keep, Operand.load, AddressMode.address, succeeds_bind, succeeds_regs, succeeds_pure,
    succeeds_readByte, succeeds_changeLatch]
  exact fun byte => .inspect byte rfl

/-! ## Cycles -/

/-- Behind its work a cycle may settle whether it completes the instruction, without a change of the
registers and without an access. -/
theorem withholds_of_passes {settle : MachineCycle Progress}
    (passes : Passes instruction number work)
    (settles : ∀ context, (settle.perform context).Always fun (_, after) accesses _ =>
      after.regs = context.regs ∧ accesses = []) :
    Withholds instruction number (do work; settle) := by
  intro context
  rw [perform_bind, Bus.always_bind]
  apply Bus.Always.mono (passes context)
  rintro ⟨outcome, between⟩ accesses events interim
  cases outcome with
  | ok value =>
    apply (settles between).mono
    rintro ⟨outcome, after⟩ further later ⟨same, silent⟩ -
    rw [same, silent, List.append_nil]
    exact interim
  | error fault => exact interim.elim

/-- A cycle that others follow does what its work may do. -/
@[simp] theorem withholds_continuing (passes : Passes instruction number work) :
    Withholds instruction number (continuing work) :=
  withholds_of_passes passes fun context => by simp

/-- A deciding cycle does what its work may do, whatever it decides. -/
@[simp] theorem withholds_deciding (condition : Option Condition)
    (passes : Passes instruction number work) :
    Withholds instruction number (deciding condition work) :=
  withholds_of_passes passes fun context => by simp

/-- A retiring cycle completes the instruction if it does not fail. -/
@[simp] theorem withholds_retiring (work : MachineCycle Unit) :
    Withholds instruction number (retiring work) := by
  intro context
  rw [retiring, perform_bind, Bus.always_bind]
  apply Bus.always_of_forall
  rintro ⟨outcome, after⟩ accesses events
  cases outcome with
  | ok value => simp
  | error fault => simp

/-- A closing schedule fetches bytes and completes the instruction, and does nothing else. -/
theorem withholds_closing {bytes accesses : Nat} {finish : MachineCycle Unit}
    {cycle : MachineCycle Progress}
    (listed : (cycle, number) ∈
      (closing finish (idle :: fetches bytes ++ List.replicate accesses idle)).zipIdx 1)
    (encoded : 1 + bytes ≤ instruction.length) : Withholds instruction number cycle := by
  obtain ⟨work, part, rfl⟩ := exists_part_of_mem_closing listed
  split
  · exact withholds_retiring _
  · rcases idle_or_fetch_of_part part with rfl | ⟨⟨behind, few⟩, rfl | rfl⟩
    · exact withholds_continuing passes_idle
    · exact withholds_continuing (passes_fetchLow (by omega) (by omega))
    · exact withholds_continuing (passes_fetchHigh (by omega) (by omega))

/-- A schedule that changes a named operand reads it, if it is in memory, and completes the
instruction. -/
theorem withholds_updating {operand : Operand} {finish : UInt8 → MachineCycle Unit}
    {cycle : MachineCycle Progress}
    (listed : (cycle, number) ∈ (updating operand finish).zipIdx 1)
    (named : operand.isNamed = true) : Withholds instruction number cycle := by
  cases updates_of_mem listed with
  | start memory => exact withholds_continuing passes_idle
  | read memory =>
    rcases eq_of_isNamed named with ⟨r, rfl⟩ | rfl
    · cases memory
    · exact withholds_continuing passes_keep
  | write memory | only elsewhere => exact withholds_retiring _

end Schedule

namespace Instruction

open MachineCycle Schedule

/-- The two bytes behind the opcode of an instruction of three are fetched in its second and third
cycle. -/
theorem passes_word {instruction : Instruction} (three : instruction.length = 3) :
    Passes instruction 2 fetchLow ∧ Passes instruction 3 fetchHigh :=
  ⟨passes_fetchLow (by omega) (by omega), passes_fetchHigh (by omega) (by omega)⟩

/-- No cycle of an ordinary instruction does more than it may do before the instruction is complete,
unless it completes the instruction or fails. -/
theorem withholds_cycles (instruction : Instruction) (ordinary : instruction.isOrdinary = true) :
    ∀ entry ∈ instruction.cycles.zipIdx 1, Withholds instruction entry.2 entry.1 := by
  cases instruction with
  | invalid => simp [cycles]
  | load target source =>
    rintro ⟨cycle, number⟩ listed
    exact withholds_closing listed (Nat.le_refl _)
  | combine op source =>
    rintro ⟨cycle, number⟩ listed
    exact withholds_closing listed (Nat.le_refl _)
  | bit index operand =>
    rintro ⟨cycle, number⟩ listed
    exact @withholds_closing _ _ 0 _ _ _ listed (Nat.le_add_right 1 _)
  | inc operand | dec operand | shift kind operand | res index operand | set index operand =>
    rintro ⟨cycle, number⟩ listed
    exact withholds_updating listed ordinary
  | loadPair rr =>
    obtain ⟨low, -⟩ := @passes_word (loadPair rr) rfl
    simp [cycles, low]
  | storeSp =>
    obtain ⟨low, high⟩ := @passes_word storeSp rfl
    simp [cycles, low, high]
  | loadHlSpOffset =>
    have offset := @passes_fetchLow loadHlSpOffset 2 (Nat.le_refl 2) (Nat.le_refl 2)
    simp [cycles, offset]
  | addSpOffset =>
    have offset := @passes_fetchLow addSpOffset 2 (Nat.le_refl 2) (Nat.le_refl 2)
    simp [cycles, offset]
  | push rr =>
    have room := @passes_reserve (push rr) 2 rfl rfl
    have upper := @passes_pushHigh (push rr) 3 (·.getPair rr) rfl rfl
    simp [cycles, pushing, room, upper]
  | rst vector =>
    have room := @passes_reserve (rst vector) 2 rfl rfl
    have upper := @passes_pushHigh (rst vector) 3 (·.pc) rfl rfl
    simp [cycles, pushing, room, upper]
  | call condition =>
    obtain ⟨low, high⟩ := @passes_word (call condition) rfl
    have room := @passes_reserve (call condition) 4 rfl rfl
    have upper := @passes_pushHigh (call condition) 5 (·.pc) rfl rfl
    simp [cycles, pushing, low, high, room, upper]
  | jp condition =>
    obtain ⟨low, high⟩ := @passes_word (jp condition) rfl
    simp [cycles, low, high]
  | jr condition =>
    have offset := @passes_fetchLow (jr condition) 2 (Nat.le_refl 2) (Nat.le_refl 2)
    simp [cycles, offset]
  | pop rr =>
    have lower := @passes_popLow (pop rr) 2 rfl
    simp [cycles, lower]
  | reti =>
    have lower := @passes_popLow reti 2 rfl
    have upper := @passes_popHigh reti 3 rfl
    simp [cycles, lower, upper]
  | ret condition =>
    have lower := fun number => @passes_popLow (ret condition) number rfl
    have upper := fun number => @passes_popHigh (ret condition) number rfl
    cases condition <;> simp [cycles, lower, upper]
  | _ => simp [cycles]

end Instruction

end Sm83
