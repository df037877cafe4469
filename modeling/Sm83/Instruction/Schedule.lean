import Sm83.MachineCycle
import Sm83.RegisterFile.Effects

/-!
# Schedules

The schedule of an instruction is the list of its machine cycles. The first is the one in which the
opcode was fetched, so it leaves the memory alone; a branch that is not taken completes before the
end of the list. The list is as long as the documented duration says.
-/

namespace Sm83

/-- The machine cycles of an instruction, in order. -/
abbrev Schedule := List (MachineCycle Progress)

namespace Schedule

open MachineCycle

/-! ## Shapes of schedules -/

/-- A cycle without work of its own. -/
def idle : MachineCycle Unit := pure ()

/-- A cycle that others follow. -/
def continuing (work : MachineCycle Unit) : MachineCycle Progress := do
  work
  return .running

/-- The cycle that completes the instruction. -/
def retiring (work : MachineCycle Unit) : MachineCycle Progress := do
  work
  return .retired

/-- A cycle that completes the instruction unless the condition holds after it. -/
def deciding (condition : Option Condition) (work : MachineCycle Unit) :
    MachineCycle Progress := do
  work
  return if (← regs).holds condition then .running else .retired

/-- A cycle for each part, the last of which also does what completes the instruction. -/
def closing (finish : MachineCycle Unit) : List (MachineCycle Unit) → Schedule
  | [] => []
  | [last] => [retiring do last; finish]
  | work :: rest => continuing work :: closing finish rest

/-- A cycle for each byte after the opcode. -/
def fetches : Nat → List (MachineCycle Unit)
  | 0 => []
  | more + 1 => fetchLow :: List.replicate more fetchHigh

/-- Read an operand and remember its byte. -/
def keep (operand : Operand) : MachineCycle Unit := do
  let byte ← operand.load
  changeLatch fun latch => { latch with value := byte }

/-- The byte in an operand. One in memory is remembered on the way. -/
def loadKeeping (operand : Operand) : MachineCycle UInt8 :=
  if operand.isMemory then do
    keep operand
    return (← latch).value
  else
    operand.load

/-- A schedule that works on an operand and gets it with its last cycle. -/
def consuming (operand : Operand) (finish : UInt8 → MachineCycle Unit) : Schedule :=
  closing (do finish (← loadKeeping operand)) (idle :: List.replicate operand.accessCycles idle)

/-- A schedule that changes an operand in place. One in memory is read a cycle before it is
written. -/
def updating (operand : Operand) (finish : UInt8 → MachineCycle Unit) : Schedule :=
  if operand.isMemory then
    [continuing idle, continuing (keep operand), retiring do finish (← latch).value]
  else
    [retiring do finish (← operand.load)]

/-- The cycles that push a word. The word is taken anew in each of them, the last of which also
does what completes the instruction. -/
def pushing (word : RegisterFile → UInt16) (finish : MachineCycle Unit) : Schedule :=
  [continuing reserve, continuing (pushHigh word), retiring do pushLow word; finish]

/-- A closing schedule has as many cycles as parts. -/
@[simp] theorem length_closing (finish : MachineCycle Unit) (parts : List (MachineCycle Unit)) :
    (closing finish parts).length = parts.length := by
  fun_induction closing finish parts with
  | case1 => rfl
  | case2 => rfl
  | case3 work rest notLast ih => simp [ih]

/-- A fetching schedule has as many cycles as bytes. -/
@[simp] theorem length_fetches (bytes : Nat) : (fetches bytes).length = bytes := by
  cases bytes <;> simp [fetches]

/-! ## The work of single cycles -/

/-- Copy a byte, reading before writing. -/
def copy (target source : Operand) : MachineCycle Unit := do
  target.store (← source.load)

/-- Count an operand up or down. -/
def count (operand : Operand) (down : Bool) (byte : UInt8) : MachineCycle Unit := do
  let result := if down then Arithmetic.decrement byte else Arithmetic.increment byte
  operand.store result.value
  changeRegs (·.flagCount result down)

/-- Shift an operand. -/
def shiftByte (kind : Shift) (operand : Operand) (byte : UInt8) : MachineCycle Unit := do
  let result := kind.apply byte (← regs).f.c
  changeRegs (·.flagShift result)
  operand.store result.value

/-- A byte with one bit set. -/
def bitMask (index : Fin 8) : UInt8 := 1 <<< UInt8.ofNat index

/-- Stop fetching. -/
def suspend : MachineCycle Unit := changeRegs fun regs => { regs with halted := true }

/-- Stop fetching until something happens. -/
def waitForInterrupt : MachineCycle Unit := do
  log (.halted ((← regs).pc - 1))
  suspend

/-- Skip the byte after the opcode, unread, and stop fetching. -/
def powerDown : MachineCycle Unit := do
  changeRegs fun regs => { regs with pc := regs.pc + 1 }
  log (.stopped ((← regs).pc - 2))
  suspend

/-- Disable interrupts, also those about to be enabled. -/
def disableInterrupts : MachineCycle Unit := do
  let before ← regs
  if before.ime || before.imePending then
    log .interruptsDisabled
  changeRegs fun regs => { regs with ime := false, imePending := false }

/-- Enable interrupts from the next instruction on, unless they are enabled. -/
def requestInterrupts : MachineCycle Unit := do
  unless (← regs).ime do
    log .interruptsPending
    changeRegs fun regs => { regs with imePending := true }

/-- Continue at the word that was fetched or popped. -/
def jumpLatched : MachineCycle Unit := do
  jump (← latch).word

/-- Continue at the fetched offset from here. -/
def jumpRelative : MachineCycle Unit := do
  let offset := (← latch).low
  let source := (← regs).pc
  let target := source + Word.ofOffset offset
  log (.jumped offset source target)
  jump target

/-- Continue at the popped word with interrupts enabled. -/
def returnFromInterrupt : MachineCycle Unit := do
  jumpLatched
  log (.returnedFromInterrupt (← regs).pc)
  changeRegs fun regs => { regs with ime := true, imePending := false }

end Schedule

open MachineCycle Schedule

/-- The machine cycles of an instruction. -/
def Instruction.cycles : Instruction → Schedule
  | nop => [retiring idle]
  | stop => [retiring powerDown]
  | halt => [retiring waitForInterrupt]
  | di => [retiring disableInterrupts]
  | ei => [retiring requestInterrupts]
  | daa => [retiring (changeRegs (·.decimalAdjust))]
  | cpl => [retiring (changeRegs (·.complement))]
  | scf => [retiring (changeRegs (·.putCarry true))]
  | ccf => [retiring (changeRegs fun regs => regs.putCarry !regs.f.c)]
  | rotateA kind => [retiring (changeRegs (·.rotateAccumulator kind))]
  | load target source =>
    closing (copy target source)
      (idle :: fetches (target.size + source.size) ++
        List.replicate (target.accessCycles + source.accessCycles) idle)
  | loadPair rr =>
    [continuing idle, continuing fetchLow,
      retiring do
        fetchHigh
        let word := (← latch).word
        changeRegs (·.setPair rr word)]
  | storeSp =>
    [continuing idle, continuing fetchLow, continuing fetchHigh,
      continuing do writeByte (← latch).word (Word.low (← regs).sp),
      retiring do writeByte ((← latch).word + 1) (Word.high (← regs).sp)]
  | loadSpHl => [continuing idle, retiring (changeRegs fun regs => { regs with sp := regs.hl })]
  | loadHlSpOffset =>
    [continuing idle, continuing fetchLow,
      retiring do
        let offset := (← latch).low
        changeRegs (·.putSpOffset .hl offset)]
  | addSpOffset =>
    [continuing idle, continuing fetchLow, continuing idle,
      retiring do
        let offset := (← latch).low
        changeRegs (·.putSpOffset .sp offset)]
  | push rr => continuing idle :: pushing (·.getPair rr) idle
  | pop rr =>
    [continuing idle, continuing popLow,
      retiring do
        popHigh
        let word := (← latch).word
        changeRegs (·.setPair rr word)]
  | combine op source =>
    closing (do
        let byte ← source.load
        changeRegs (·.combine op byte))
      (idle :: fetches source.size ++ List.replicate source.accessCycles idle)
  | inc operand => updating operand (count operand false)
  | dec operand => updating operand (count operand true)
  | incPair rr =>
    [continuing idle, retiring (changeRegs fun regs => regs.setPair rr (regs.getPair rr + 1))]
  | decPair rr =>
    [continuing idle, retiring (changeRegs fun regs => regs.setPair rr (regs.getPair rr - 1))]
  | addHl rr => [continuing idle, retiring (changeRegs (·.addToHl rr))]
  | jp condition =>
    [continuing idle, continuing fetchLow, deciding condition fetchHigh, retiring jumpLatched]
  | jpHl => [retiring (changeRegs fun regs => { regs with pc := regs.hl })]
  | jr condition => [continuing idle, deciding condition fetchLow, retiring jumpRelative]
  | call condition =>
    continuing idle :: continuing fetchLow :: deciding condition fetchHigh ::
      pushing (·.pc) jumpLatched
  | ret none => [continuing idle, continuing popLow, continuing popHigh, retiring jumpLatched]
  | ret (some condition) =>
    [continuing idle, deciding (some condition) idle, continuing popLow, continuing popHigh,
      retiring jumpLatched]
  | reti => [continuing idle, continuing popLow, continuing popHigh, retiring returnFromInterrupt]
  | rst vector => continuing idle :: pushing (·.pc) (jump vector.toUInt16)
  | shift kind operand => updating operand (shiftByte kind operand)
  | bit index operand =>
    consuming operand fun byte => changeRegs (·.flagBit (byte &&& bitMask index != 0))
  | res index operand => updating operand fun byte => operand.store (byte &&& ~~~bitMask index)
  | set index operand => updating operand fun byte => operand.store (byte ||| bitMask index)
  | invalid => []

/-- The documented duration of an instruction counts its cycles and the fetch of its prefix. -/
theorem Instruction.length_cycles {instruction : Instruction} (defined : instruction ≠ .invalid) :
    instruction.cycles.length + instruction.isPrefixed.toNat = instruction.duration.max := by
  cases instruction with
  | invalid => exact absurd rfl defined
  | load | combine =>
    simp only [cycles, duration, Duration.always, isPrefixed, length_closing, length_fetches,
      List.length_append, List.length_cons, List.length_replicate, Bool.toNat_false]
    omega
  | bit =>
    simp only [cycles, consuming, duration, Duration.always, Operand.accessCycles, length_closing]
    split <;> simp_all [isPrefixed]
  | inc | dec | shift | res | set =>
    simp only [cycles, updating, duration]
    split <;> rfl
  | jp condition | jr condition | call condition | ret condition => cases condition <;> rfl
  | _ => rfl

end Sm83
