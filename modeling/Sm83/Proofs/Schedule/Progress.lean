import Sm83.Proofs.MachineCycle.Succeeds

/-!
# The progress of a schedule

Each cycle of an instruction either completes it or does not, and which of the two is known from the
number of the cycle and, for a conditional branch, from the flags. A cycle that does not complete
the instruction leaves the flags alone, so a branch is decided by the flags that it started with.
-/

namespace Sm83

/-- The condition of a branch. What is no branch has none, and none always holds. -/
def Instruction.condition : Instruction → Option Condition
  | jp condition | jr condition | call condition | ret condition => condition
  | _ => none

/-- Whether the result is to be stored to the byte after the opcode. -/
def Instruction.storesImmediate : Instruction → Bool
  | load .immediate _ | inc .immediate | dec .immediate => true
  | shift _ .immediate | res _ .immediate | set _ .immediate => true
  | _ => false

/-- An operand that the result can be stored to is not the byte after the opcode. -/
theorem Instruction.ne_immediate_of_storesImmediate {family : Operand → Instruction}
    {operand : Operand} (storable : (family operand).storesImmediate = false)
    (stores : (family .immediate).storesImmediate = true) : operand ≠ .immediate := by
  rintro rfl
  rw [stores] at storable
  cases storable

/-- How far a cycle brings the instruction: the last one completes it, and so does the one that
finds the condition of a branch false. -/
def Instruction.progress (instruction : Instruction) (cycle : Nat) (regs : RegisterFile) :
    Progress :=
  if cycle = instruction.cycles.length ∨
      cycle = instruction.duration.min ∧ regs.holds instruction.condition = false then
    .retired
  else
    .running

/-- No condition always holds. -/
@[simp] theorem RegisterFile.holds_none (regs : RegisterFile) : regs.holds none = true := rfl

/-- A condition looks at the flags alone. -/
theorem RegisterFile.holds_congr {left right : RegisterFile} {condition : Option Condition}
    (flags : left.f = right.f) : left.holds condition = right.holds condition := by
  rcases condition with _ | _ | _ | _ | _ <;> simp [holds, flags]

/-- Moving the program counter decides no condition anew. -/
@[simp] theorem RegisterFile.holds_pc (regs : RegisterFile) (address : UInt16)
    (condition : Option Condition) :
    ({ regs with pc := address } : RegisterFile).holds condition = regs.holds condition :=
  holds_congr rfl

namespace Schedule

open MachineCycle

variable {α β : Type}

/-- The work does not fail. -/
def Sound (work : MachineCycle α) : Prop :=
  ∀ context, work.Succeeds context fun _ _ _ _ => True

/-- The work does not fail and keeps the flags. -/
def Steady (work : MachineCycle α) : Prop :=
  ∀ context, work.Succeeds context fun _ after _ _ => after.regs.f = context.regs.f

/-- The cycle does not fail, its progress depends on the registers alone, and it keeps the flags
unless it completes the instruction. -/
def Decides (cycle : MachineCycle Progress) (decision : RegisterFile → Progress) : Prop :=
  ∀ context, cycle.Succeeds context fun progress after _ _ =>
    progress = decision context.regs ∧ (progress = .running → after.regs.f = context.regs.f)

/-! ## Work that does not fail -/

/-- Sound work is sound in turn. -/
@[simp] theorem Sound.bind {first : MachineCycle α} {next : α → MachineCycle β}
    (before : Sound first) (after : ∀ value, Sound (next value)) : Sound (first >>= next) := by
  intro context
  rw [succeeds_bind]
  exact (before context).mono fun value between _ _ _ => after value between

/-- Steady work is steady in turn. -/
theorem Steady.bind {first : MachineCycle α} {next : α → MachineCycle β}
    (before : Steady first) (after : ∀ value, Steady (next value)) : Steady (first >>= next) := by
  intro context
  rw [succeeds_bind]
  apply (before context).mono
  intro value between _ _ kept
  rw [← kept]
  exact after value between

/-- Steady work does not fail. -/
theorem Steady.sound {work : MachineCycle α} (steady : Steady work) : Sound work :=
  fun context => (steady context).mono fun _ _ _ _ _ => trivial

/-- A cycle without work keeps the flags. -/
@[simp] theorem steady_idle : Steady idle := by simp [Steady, idle]

/-- Looking at the latch keeps the flags. -/
theorem steady_latch : Steady latch := by simp [Steady]

/-- Fetching a first byte keeps the flags. -/
@[simp] theorem steady_fetchLow : Steady fetchLow := by simp [Steady, fetchLow, fetch]

/-- Fetching a further byte keeps the flags. -/
@[simp] theorem steady_fetchHigh : Steady fetchHigh := by simp [Steady, fetchHigh, fetch]

/-- Bytes after the opcode are fetched by one of two kinds of work. -/
theorem eq_fetch_of_mem_fetches {bytes : Nat} {work : MachineCycle Unit}
    (listed : work ∈ fetches bytes) : work = fetchLow ∨ work = fetchHigh := by
  cases bytes with
  | zero => simp [fetches] at listed
  | succ more => exact (List.mem_cons.mp listed).imp_right List.eq_of_mem_replicate

/-- Of the parts before the last access of an instruction, those that fetch a byte come behind the
first, one for each byte, and the others are without work. -/
theorem idle_or_fetch_of_part {bytes accesses index : Nat} {work : MachineCycle Unit}
    (part : (idle :: fetches bytes ++ List.replicate accesses idle)[index]? = some work) :
    work = idle ∨
      (1 ≤ index ∧ index ≤ bytes) ∧ (work = fetchLow ∨ work = fetchHigh) := by
  cases index with
  | zero => exact .inl (by simpa using part.symm)
  | succ index =>
    have part : (fetches bytes ++ List.replicate accesses idle)[index]? = some work := by
      simpa using part
    by_cases fetched : index < bytes
    · rw [List.getElem?_append_left (by simpa using fetched)] at part
      exact .inr ⟨by omega, eq_fetch_of_mem_fetches (List.mem_of_getElem? part)⟩
    · rw [List.getElem?_append_right (by simpa using fetched)] at part
      exact .inl (List.eq_of_mem_replicate (List.mem_of_getElem? part))

/-- What holds of a cycle without work and of both kinds of fetches holds of the parts that come
before the last access of an instruction. -/
theorem of_mem_parts {p : MachineCycle Unit → Prop} (waits : p idle) (first : p fetchLow)
    (further : p fetchHigh) {bytes accesses : Nat} {work : MachineCycle Unit}
    (listed : work ∈ idle :: fetches bytes ++ List.replicate accesses idle) : p work := by
  obtain ⟨index, part⟩ := List.mem_iff_getElem?.mp listed
  rcases idle_or_fetch_of_part part with rfl | ⟨-, rfl | rfl⟩
  · exact waits
  · exact first
  · exact further

/-- The parts that come before the last access of an instruction keep the flags. -/
theorem steady_of_mem_parts {bytes accesses : Nat} {work : MachineCycle Unit}
    (listed : work ∈ idle :: fetches bytes ++ List.replicate accesses idle) : Steady work :=
  of_mem_parts steady_idle steady_fetchLow steady_fetchHigh listed

/-- Making room on the stack keeps the flags. -/
@[simp] theorem steady_reserve : Steady reserve := by simp [Steady, reserve]

/-- Pushing the upper half of a word keeps the flags. -/
@[simp] theorem steady_pushHigh (word : RegisterFile → UInt16) : Steady (pushHigh word) := by
  simp [Steady, pushHigh, reserve]

/-- Popping the lower half of a word keeps the flags. -/
@[simp] theorem steady_popLow : Steady popLow := by simp [Steady, popLow, popByte]

/-- Popping the upper half of a word keeps the flags. -/
@[simp] theorem steady_popHigh : Steady popHigh := by simp [Steady, popHigh, popByte]

/-- Reading an operand keeps the flags. -/
theorem steady_load (operand : Operand) : Steady operand.load := by
  rcases operand with _ | _ | _ | _ | _ | _ <;>
    simp [Steady, Operand.load, AddressMode.address, RegisterFile.setPair]

/-- Remembering the byte of an operand keeps the flags. -/
theorem steady_keep (operand : Operand) : Steady (keep operand) :=
  (steady_load operand).bind fun byte => by simp [Steady]

/-- Reading an operand and remembering its byte keeps the flags. -/
theorem steady_loadKeeping (operand : Operand) : Steady (loadKeeping operand) := by
  unfold loadKeeping
  split
  · exact (steady_keep operand).bind fun _ => steady_latch.bind fun held => by simp [Steady]
  · exact steady_load operand

/-- Every operand but the byte after the opcode can be written. -/
theorem sound_store {operand : Operand} (stored : operand ≠ .immediate) (byte : UInt8) :
    Sound (operand.store byte) := by
  rcases operand with _ | _ | _ | _ | _ | _ <;>
    simp_all [Sound, Operand.store, AddressMode.address]

/-- Changing the registers does not fail. -/
@[simp] theorem sound_changeRegs (change : RegisterFile → RegisterFile) :
    Sound (changeRegs change) := by simp [Sound]

/-- Looking at the registers does not fail. -/
@[simp] theorem sound_regs : Sound regs := by simp [Sound]

/-- Looking at the latch does not fail. -/
@[simp] theorem sound_latch : Sound latch := steady_latch.sound

/-- A cycle without work does not fail. -/
@[simp] theorem sound_idle : Sound idle := steady_idle.sound

/-- Fetching a further byte does not fail. -/
@[simp] theorem sound_fetchHigh : Sound fetchHigh := steady_fetchHigh.sound

/-- Popping the upper half of a word does not fail. -/
@[simp] theorem sound_popHigh : Sound popHigh := steady_popHigh.sound

/-- Pushing the lower half of a word does not fail. -/
@[simp] theorem sound_pushLow (word : RegisterFile → UInt16) : Sound (pushLow word) := by
  simp [Sound, pushLow]

/-- Jumping does not fail. -/
@[simp] theorem sound_jump (target : UInt16) : Sound (jump target) := by simp [Sound, jump]

/-- Jumping to the latched word does not fail. -/
@[simp] theorem sound_jumpLatched : Sound jumpLatched := by simp [jumpLatched]

/-- Jumping by an offset does not fail. -/
@[simp] theorem sound_jumpRelative : Sound jumpRelative := by simp [Sound, jumpRelative, jump]

/-- Returning from an interrupt does not fail. -/
@[simp] theorem sound_returnFromInterrupt : Sound returnFromInterrupt := by
  simp [Sound, returnFromInterrupt, jumpLatched, jump]

/-- Halting does not fail. -/
@[simp] theorem sound_waitForInterrupt : Sound waitForInterrupt := by
  simp [Sound, waitForInterrupt, suspend]

/-- Stopping does not fail. -/
@[simp] theorem sound_powerDown : Sound powerDown := by simp [Sound, powerDown, suspend]

/-- Disabling interrupts does not fail. -/
@[simp] theorem sound_disableInterrupts : Sound disableInterrupts := by
  intro context
  simp only [disableInterrupts, succeeds_bind, succeeds_regs]
  split <;> simp

/-- Enabling interrupts does not fail. -/
@[simp] theorem sound_requestInterrupts : Sound requestInterrupts := by
  intro context
  simp only [requestInterrupts, succeeds_bind, succeeds_regs]
  split <;> simp

/-! ## Cycles that decide -/

/-- A cycle that others follow does not complete the instruction. -/
@[simp] theorem decides_continuing {work : MachineCycle Unit} (steady : Steady work) :
    Decides (continuing work) fun _ => .running := by
  intro context
  simp only [continuing, succeeds_bind, succeeds_pure, true_and]
  exact (steady context).mono fun _ _ _ _ kept _ => kept

/-- A retiring cycle completes the instruction. -/
@[simp] theorem decides_retiring {work : MachineCycle Unit} (sound : Sound work) :
    Decides (retiring work) fun _ => .retired := by
  intro context
  simp only [retiring, succeeds_bind, succeeds_pure, true_and, reduceCtorEq, false_implies]
  exact sound context

/-- A deciding cycle completes the instruction if the condition is false. -/
@[simp] theorem decides_deciding {work : MachineCycle Unit} (condition : Option Condition)
    (steady : Steady work) :
    Decides (deciding condition work) fun regs =>
      if regs.holds condition = false then .retired else .running := by
  intro context
  simp only [deciding, succeeds_bind, succeeds_pure, succeeds_regs]
  apply (steady context).mono
  intro _ after _ _ kept
  rw [RegisterFile.holds_congr kept]
  refine ⟨?_, fun _ => kept⟩
  cases context.regs.holds condition <;> rfl

/-- A cycle that decides without a condition does not complete the instruction. -/
@[simp] theorem decides_unconditionally {work : MachineCycle Unit} (steady : Steady work) :
    Decides (deciding none work) fun _ => .running := by
  simpa using decides_deciding none steady

/-- The cycles of a closing schedule are its parts in order, and the last one also finishes. -/
theorem getElem?_closing (finish : MachineCycle Unit) (parts : List (MachineCycle Unit))
    (index : Nat) :
    (closing finish parts)[index]? = parts[index]?.map fun work =>
      if index + 1 = parts.length then retiring do work; finish else continuing work := by
  fun_induction closing finish parts generalizing index with
  | case1 => rfl
  | case2 last => cases index <;> rfl
  | case3 work rest notLast ih =>
    cases index with
    | zero => simp [show rest ≠ [] from notLast]
    | succ index => simp [ih]

/-- A numbered cycle of a closing schedule has a part as its work. -/
theorem exists_part_of_mem_closing {finish : MachineCycle Unit}
    {parts : List (MachineCycle Unit)} {cycle : MachineCycle Progress} {number : Nat}
    (listed : (cycle, number) ∈ (closing finish parts).zipIdx 1) :
    ∃ work, parts[number - 1]? = some work ∧
      cycle = if number = parts.length then retiring do work; finish else continuing work := by
  obtain ⟨positive, scheduled⟩ : 1 ≤ number ∧ (closing finish parts)[number - 1]? = some cycle :=
    List.mem_zipIdx_iff_le_and_getElem?_sub.mp listed
  rw [getElem?_closing, Nat.sub_add_cancel positive] at scheduled
  obtain ⟨work, part, same⟩ := Option.map_eq_some_iff.mp scheduled
  exact ⟨work, part, same.symm⟩

/-- The numbered cycles of an updating schedule. -/
inductive Updates (operand : Operand) (finish : UInt8 → MachineCycle Unit) :
    MachineCycle Progress → Nat → Prop where
  /-- The fetch of the opcode of an update in memory. -/
  | start (memory : operand.isMemory = true) : Updates operand finish (continuing idle) 1
  /-- The read of an update in memory. -/
  | read (memory : operand.isMemory = true) : Updates operand finish (continuing (keep operand)) 2
  /-- The write of an update in memory. -/
  | write (memory : operand.isMemory = true) :
    Updates operand finish (retiring do finish (← latch).value) 3
  /-- The only cycle of an update elsewhere. -/
  | only (elsewhere : operand.isMemory = false) :
    Updates operand finish (retiring do finish (← operand.load)) 1

/-- The cycles of an updating schedule are those. -/
theorem updates_of_mem {operand : Operand} {finish : UInt8 → MachineCycle Unit}
    {cycle : MachineCycle Progress} {number : Nat}
    (listed : (cycle, number) ∈ (updating operand finish).zipIdx 1) :
    Updates operand finish cycle number := by
  unfold updating at listed
  cases memory : operand.isMemory with
  | true =>
    simp only [memory, if_true, List.zipIdx_cons, List.zipIdx_nil, List.mem_cons,
      List.not_mem_nil, or_false, Prod.mk.injEq] at listed
    rcases listed with ⟨rfl, rfl⟩ | ⟨rfl, rfl⟩ | ⟨rfl, rfl⟩
    · exact .start memory
    · exact .read memory
    · exact .write memory
  | false =>
    obtain ⟨rfl, rfl⟩ : cycle = retiring (do finish (← operand.load)) ∧ number = 1 := by
      simpa [memory] using listed
    exact .only memory

/-- An update in memory takes three cycles, any other a single one. -/
theorem length_updating (operand : Operand) (finish : UInt8 → MachineCycle Unit) :
    (updating operand finish).length = if operand.isMemory then 3 else 1 := by
  unfold updating
  split <;> rfl

/-- A closing schedule completes with its last cycle. -/
theorem decides_closing {finish : MachineCycle Unit} {parts : List (MachineCycle Unit)}
    (steady : ∀ work ∈ parts, Steady work) {cycle : MachineCycle Progress} {number : Nat}
    (listed : (cycle, number) ∈ (closing finish parts).zipIdx 1)
    (sound : number = parts.length → Sound finish) :
    Decides cycle fun _ => if number = parts.length then .retired else .running := by
  obtain ⟨work, part, rfl⟩ := exists_part_of_mem_closing listed
  have steady := steady work (List.mem_of_getElem? part)
  by_cases last : number = parts.length
  · rw [if_pos last]
    simp only [last, if_true]
    exact decides_retiring (steady.sound.bind fun _ => sound last)
  · simp only [last, if_false]
    exact decides_continuing steady

/-- An updating schedule completes with its last cycle. -/
theorem decides_updating {operand : Operand} {finish : UInt8 → MachineCycle Unit}
    {cycle : MachineCycle Progress} {number : Nat}
    (listed : (cycle, number) ∈ (updating operand finish).zipIdx 1)
    (sound : number = (updating operand finish).length → ∀ byte, Sound (finish byte)) :
    Decides cycle fun _ =>
      if number = (updating operand finish).length then .retired else .running := by
  have length := length_updating operand finish
  cases updates_of_mem listed with
  | start memory =>
    rw [length, if_pos memory]
    exact decides_continuing steady_idle
  | read memory =>
    rw [length, if_pos memory]
    exact decides_continuing ((steady_load operand).bind fun byte => by simp [Steady])
  | write memory =>
    have last : 3 = (updating operand finish).length := by rw [length, if_pos memory]
    have sound := sound last
    rw [← last]
    exact decides_retiring (steady_latch.sound.bind fun held => sound held.value)
  | only elsewhere =>
    have last : 1 = (updating operand finish).length := by simp [length, elsewhere]
    have sound := sound last
    rw [← last]
    exact decides_retiring ((steady_load operand).sound.bind sound)

end Schedule

namespace Instruction

open MachineCycle Schedule

/-- The progress of a cycle as a decision. -/
theorem progress_eq (instruction : Instruction) (number : Nat) :
    instruction.progress number = fun regs =>
      if number = instruction.cycles.length ∨
          number = instruction.duration.min ∧ regs.holds instruction.condition = false then
        .retired
      else
        .running := rfl

/-- An instruction that is no conditional branch completes with its last cycle. -/
theorem progress_of_condition_eq_none {instruction : Instruction}
    (unconditional : instruction.condition = none) (number : Nat) :
    instruction.progress number = fun _ =>
      if number = instruction.cycles.length then .retired else .running := by
  simp [progress_eq, unconditional]

/-- A cycle that does not complete an instruction is not its last one. -/
theorem ne_length_of_running {instruction : Instruction} {number : Nat} {regs : RegisterFile}
    (running : instruction.progress number regs = .running) :
    number ≠ instruction.cycles.length := by
  intro last
  simp [progress, last] at running

/-- Each cycle of an instruction makes the progress that its number says, unless it is the last one
of an instruction that stores to the byte after the opcode. -/
theorem decides_cycles (instruction : Instruction) :
    ∀ entry ∈ instruction.cycles.zipIdx 1,
      (entry.2 = instruction.cycles.length → instruction.storesImmediate = false) →
        Decides entry.1 (instruction.progress entry.2) := by
  cases instruction with
  | invalid => simp [cycles]
  | load target source =>
    rintro ⟨cycle, number⟩ listed stored
    rw [progress_of_condition_eq_none rfl]
    have decides := decides_closing (fun _ => steady_of_mem_parts) listed fun last => ?_
    · simpa [cycles] using decides
    · have stored := stored (by simpa [cycles] using last)
      have place := @ne_immediate_of_storesImmediate (load · source) target stored rfl
      exact (steady_load source).sound.bind (sound_store place)
  | combine op source =>
    rintro ⟨cycle, number⟩ listed -
    rw [progress_of_condition_eq_none rfl]
    have decides := decides_closing (fun _ => steady_of_mem_parts) listed fun _ =>
      (steady_load source).sound.bind fun byte => sound_changeRegs (·.combine op byte)
    simpa [cycles] using decides
  | bit index operand =>
    rintro ⟨cycle, number⟩ listed -
    rw [progress_of_condition_eq_none rfl]
    have parts := fun work => @steady_of_mem_parts 0 operand.accessCycles work
    have decides := decides_closing parts listed fun _ =>
      (steady_loadKeeping operand).sound.bind fun byte =>
        sound_changeRegs (·.flagBit (byte &&& bitMask index != 0))
    simpa [cycles, consuming] using decides
  | inc operand | dec operand =>
    rintro ⟨cycle, number⟩ listed stored
    rw [progress_of_condition_eq_none rfl]
    refine decides_updating listed fun last byte => ?_
    have stored := stored last
    have place : operand ≠ .immediate := ne_immediate_of_storesImmediate stored rfl
    exact (sound_store place _).bind fun _ => sound_changeRegs _
  | shift kind operand =>
    rintro ⟨cycle, number⟩ listed stored
    rw [progress_of_condition_eq_none rfl]
    refine decides_updating listed fun last byte => ?_
    have stored := stored last
    have place : operand ≠ .immediate := ne_immediate_of_storesImmediate stored rfl
    exact sound_regs.bind fun _ => (sound_changeRegs _).bind fun _ => sound_store place _
  | res index operand | set index operand =>
    rintro ⟨cycle, number⟩ listed stored
    rw [progress_of_condition_eq_none rfl]
    refine decides_updating listed fun last byte => ?_
    have stored := stored last
    have place : operand ≠ .immediate := ne_immediate_of_storesImmediate stored rfl
    exact sound_store place _
  | jp condition | jr condition | call condition | ret condition =>
    cases condition <;>
      simp [progress_eq, cycles, duration, Instruction.condition, Duration.branch, Duration.always,
        pushing, storesImmediate]
  | storeSp =>
    have steady : Steady (do writeByte (← latch).word (Word.low (← regs).sp)) := by simp [Steady]
    have sound : Sound (do writeByte ((← latch).word + 1) (Word.high (← regs).sp)) := by
      simp [Sound]
    simp [progress_eq, condition, cycles, storesImmediate, steady, sound]
  | loadPair rr =>
    have sound := sound_fetchHigh.bind fun _ => sound_latch.bind fun latch =>
      sound_changeRegs (·.setPair rr latch.word)
    simp [progress_eq, condition, cycles, storesImmediate, sound]
  | pop rr =>
    have sound := sound_popHigh.bind fun _ => sound_latch.bind fun latch =>
      sound_changeRegs (·.setPair rr latch.word)
    simp [progress_eq, condition, cycles, storesImmediate, sound]
  | _ => simp [progress_eq, condition, cycles, pushing, storesImmediate]

end Instruction

end Sm83
