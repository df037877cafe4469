import Sm83.Proofs.Schedule.Progress

/-!
# The bus traffic of a schedule

A machine cycle makes at most one access to the memory, and the first one of an instruction makes
none. The exception is the last cycle of a copy from memory to memory, which reads and then writes.
-/

namespace Sm83

namespace MachineCycle

variable {α β : Type}

/-- The cycle makes at most so many accesses, whether it fails or not. -/
def AtMost (limit : Nat) (cycle : MachineCycle α) : Prop :=
  ∀ context, (cycle.perform context).Always fun _ accesses _ => accesses.length ≤ limit

/-- A larger number bounds the accesses as well. -/
theorem AtMost.mono {few many : Nat} {cycle : MachineCycle α} (bounded : cycle.AtMost few)
    (more : few ≤ many) : cycle.AtMost many :=
  fun context => (bounded context).mono fun _ _ _ short => Nat.le_trans short more

/-- The accesses of parts add up. -/
theorem AtMost.bind {first second : Nat} {cycle : MachineCycle α} {next : α → MachineCycle β}
    (before : cycle.AtMost first) (after : ∀ value, (next value).AtMost second) :
    (cycle >>= next).AtMost (first + second) := by
  intro context
  rw [perform_bind, Bus.always_bind]
  apply (before context).mono
  rintro ⟨outcome, between⟩ accesses events few
  cases outcome with
  | ok value =>
    apply (after value between).mono
    intro _ further _ short
    simp only [List.length_append]
    omega
  | error fault =>
    simp only [Bus.always_done, List.append_nil]
    omega

/-- In front of what makes no access, a cycle makes the accesses of its first part. -/
theorem AtMost.bind_zero {limit : Nat} {cycle : MachineCycle α} {next : α → MachineCycle β}
    (before : cycle.AtMost limit) (after : ∀ value, (next value).AtMost 0) :
    (cycle >>= next).AtMost limit := before.bind after

/-- Behind a part without access, a cycle makes the accesses of what follows. -/
theorem AtMost.zero_bind {limit : Nat} {cycle : MachineCycle α} {next : α → MachineCycle β}
    (before : cycle.AtMost 0) (after : ∀ value, (next value).AtMost limit) :
    (cycle >>= next).AtMost limit := by
  have bounded := before.bind after
  rwa [Nat.zero_add] at bounded

/-- A result makes no access. -/
theorem atMost_pure (value : α) : (pure value : MachineCycle α).AtMost 0 := by simp [AtMost]

/-- Looking at the registers makes no access. -/
theorem atMost_regs : regs.AtMost 0 := by simp [AtMost]

/-- Looking at the latch makes no access. -/
theorem atMost_latch : latch.AtMost 0 := by simp [AtMost]

/-- Changing the registers makes no access. -/
theorem atMost_changeRegs (change : RegisterFile → RegisterFile) :
    (changeRegs change).AtMost 0 := by simp [AtMost]

/-- Changing the latch makes no access. -/
theorem atMost_changeLatch (change : Latch → Latch) : (changeLatch change).AtMost 0 := by
  simp [AtMost]

/-- Fetching a first byte is one access. -/
theorem atMost_fetchLow : fetchLow.AtMost 1 := by simp [AtMost, fetchLow, fetch]

/-- Fetching a further byte is one access. -/
theorem atMost_fetchHigh : fetchHigh.AtMost 1 := by simp [AtMost, fetchHigh, fetch]

/-- Reading an operand is an access if it is in memory. -/
theorem atMost_load (operand : Operand) : operand.load.AtMost operand.accessCycles := by
  rcases operand with _ | _ | _ | _ | _ | _ <;>
    simp [AtMost, Operand.load, AddressMode.address, Operand.accessCycles, Operand.isMemory]

/-- Writing an operand is an access if it is in memory. -/
theorem atMost_store (operand : Operand) (byte : UInt8) :
    (operand.store byte).AtMost operand.accessCycles := by
  rcases operand with _ | _ | _ | _ | _ | _ <;>
    simp [AtMost, Operand.store, AddressMode.address, Operand.accessCycles, Operand.isMemory]

end MachineCycle

/-- Whether the instruction copies a byte from memory to memory. No opcode of the tables does. -/
def Instruction.copiesMemory : Instruction → Bool
  | load (.memory _) (.memory _) => true
  | _ => false

namespace Schedule

open MachineCycle

/-- Remembering the byte of an operand is an access if it is in memory. -/
theorem atMost_keep (operand : Operand) : (keep operand).AtMost operand.accessCycles :=
  (atMost_load operand).bind_zero fun _ => atMost_changeLatch _

/-- Reading an operand and remembering its byte is an access if it is in memory. -/
theorem atMost_loadKeeping (operand : Operand) :
    (loadKeeping operand).AtMost operand.accessCycles := by
  unfold loadKeeping
  split
  · exact (atMost_keep operand).bind_zero fun _ => atMost_latch.bind_zero fun held => atMost_pure _
  · exact atMost_load operand

/-- A cycle that others follow makes the accesses of its work. -/
theorem atMost_continuing {limit : Nat} {work : MachineCycle Unit} (bounded : work.AtMost limit) :
    (continuing work).AtMost limit := bounded.bind_zero fun _ => atMost_pure _

/-- A retiring cycle makes the accesses of its work. -/
theorem atMost_retiring {limit : Nat} {work : MachineCycle Unit} (bounded : work.AtMost limit) :
    (retiring work).AtMost limit := bounded.bind_zero fun _ => atMost_pure _

/-- Of the parts before the last access of an instruction, only the fetches make one. -/
theorem atMost_part {bytes accesses index : Nat} {work : MachineCycle Unit}
    (part : (idle :: fetches bytes ++ List.replicate accesses idle)[index]? = some work) :
    work.AtMost (if index = 0 ∨ bytes < index then 0 else 1) := by
  rcases idle_or_fetch_of_part part with rfl | ⟨⟨behind, few⟩, fetch⟩
  · have idles : idle.AtMost 0 := atMost_pure ()
    exact idles.mono (Nat.zero_le _)
  · rw [if_neg (by omega)]
    rcases fetch with rfl | rfl
    · exact atMost_fetchLow
    · exact atMost_fetchHigh

/-- A closing schedule with at most one access at its end makes at most one access a cycle, and none
in the first one. -/
theorem atMost_closing {bytes accesses : Nat} {finish : MachineCycle Unit}
    {cycle : MachineCycle Progress} {number : Nat}
    (listed : (cycle, number) ∈
      (closing finish (idle :: fetches bytes ++ List.replicate accesses idle)).zipIdx 1)
    (bounded : finish.AtMost accesses)
    (few : number = 1 + bytes + accesses → accesses ≤ 1) :
    cycle.AtMost (if number = 1 then 0 else 1) := by
  have positive : 1 ≤ number := (List.mem_zipIdx_iff_le_and_getElem?_sub.mp listed).1
  have length : (idle :: fetches bytes ++ List.replicate accesses idle).length =
      1 + bytes + accesses := by
    simp only [List.length_append, List.length_cons, length_fetches, List.length_replicate]
    omega
  obtain ⟨work, part, rfl⟩ := exists_part_of_mem_closing listed
  rw [length]
  have work := atMost_part part
  by_cases last : number = 1 + bytes + accesses
  · rw [if_pos last]
    have few := few last
    apply (atMost_retiring (work.bind fun _ => bounded)).mono
    split <;> split <;> omega
  · rw [if_neg last]
    apply (atMost_continuing work).mono
    split <;> split <;> omega

/-- An updating schedule makes at most one access a cycle, and none in the first one. -/
theorem atMost_updating {operand : Operand} {finish : UInt8 → MachineCycle Unit}
    {cycle : MachineCycle Progress} {number : Nat}
    (listed : (cycle, number) ∈ (updating operand finish).zipIdx 1)
    (bounded : ∀ byte, (finish byte).AtMost operand.accessCycles) :
    cycle.AtMost (if number = 1 then 0 else 1) := by
  have load := atMost_load operand
  cases updates_of_mem listed with
  | start memory => exact atMost_continuing (atMost_pure ())
  | read memory =>
    have keep := atMost_keep operand
    simp only [Operand.accessCycles, memory, Bool.toNat_true] at keep
    exact atMost_continuing keep
  | write memory =>
    simp only [Operand.accessCycles, memory, Bool.toNat_true] at bounded
    exact atMost_retiring (atMost_latch.bind fun held => bounded held.value)
  | only elsewhere =>
    simp only [Operand.accessCycles, elsewhere, Bool.toNat_false] at load bounded
    exact atMost_retiring (load.bind_zero bounded)

end Schedule

namespace Instruction

open MachineCycle Schedule

/-- A copy that is not from memory to memory uses the bus at most once. -/
theorem accessCycles_add_le {target source : Operand}
    (single : (load target source).copiesMemory = false) :
    target.accessCycles + source.accessCycles ≤ 1 := by
  have ht := target.accessCycles_le
  have hs := source.accessCycles_le
  rcases target with _ | _ | _ <;> rcases source with _ | _ | _ <;>
    simp_all [copiesMemory, Operand.accessCycles, Operand.isMemory]

/-- A cycle of an instruction makes at most one access, and none if it is the first one, unless it
is the last one of a copy from memory to memory. -/
theorem atMost_cycles (instruction : Instruction) :
    ∀ entry ∈ instruction.cycles.zipIdx 1,
      (entry.2 = instruction.cycles.length → instruction.copiesMemory = false) →
        entry.1.AtMost (if entry.2 = 1 then 0 else 1) := by
  cases instruction with
  | invalid => simp [cycles]
  | load target source =>
    rintro ⟨cycle, number⟩ listed single
    have bounded : (copy target source).AtMost (target.accessCycles + source.accessCycles) := by
      rw [Nat.add_comm]
      exact (atMost_load source).bind (atMost_store target)
    refine atMost_closing listed bounded fun last => ?_
    have single := single (by simpa [cycles, Nat.add_comm, Nat.add_left_comm] using last)
    exact accessCycles_add_le single
  | combine op source =>
    rintro ⟨cycle, number⟩ listed -
    exact atMost_closing listed ((atMost_load source).bind_zero fun _ => atMost_changeRegs _)
      fun _ => source.accessCycles_le
  | bit index operand =>
    rintro ⟨cycle, number⟩ listed -
    have bounded := (atMost_loadKeeping operand).bind_zero fun byte =>
      atMost_changeRegs (·.flagBit (byte &&& bitMask index != 0))
    exact @atMost_closing 0 _ _ _ _ listed bounded fun _ => operand.accessCycles_le
  | inc operand | dec operand =>
    rintro ⟨cycle, number⟩ listed -
    exact atMost_updating listed fun byte =>
      (atMost_store operand _).bind_zero fun _ => atMost_changeRegs _
  | shift kind operand =>
    rintro ⟨cycle, number⟩ listed -
    exact atMost_updating listed fun byte =>
      atMost_regs.zero_bind fun _ => (atMost_changeRegs _).zero_bind fun _ => atMost_store operand _
  | res index operand | set index operand =>
    rintro ⟨cycle, number⟩ listed -
    exact atMost_updating listed fun byte => atMost_store operand _
  | di =>
    have bounded : disableInterrupts.AtMost 0 := by
      intro context
      simp only [disableInterrupts, perform_bind, perform_regs, Bus.done_bind]
      split <;> simp
    simpa [cycles, copiesMemory] using atMost_retiring bounded
  | ei =>
    have bounded : requestInterrupts.AtMost 0 := by
      intro context
      simp only [requestInterrupts, perform_bind, perform_regs, Bus.done_bind]
      split <;> simp
    simpa [cycles, copiesMemory] using atMost_retiring bounded
  | ret condition =>
    cases condition <;>
      simp [cycles, AtMost, continuing, retiring, deciding, idle, popLow, popHigh, popByte,
        jumpLatched, jump]
  | _ =>
    simp [cycles, pushing, AtMost, continuing, retiring, deciding, idle, fetchLow, fetchHigh,
      fetch, reserve, pushHigh, pushLow, popLow, popHigh, popByte, jumpLatched, jump,
      jumpRelative, returnFromInterrupt, waitForInterrupt, powerDown, suspend]

end Instruction

end Sm83
