import Sm83.Instruction.Schedule
import Sm83.Proofs.Bus.Always

/-!
# Cycles that succeed

A part of a machine cycle succeeds if it does not fail, whatever is read, and a condition on its
result, on the context after it, on its accesses and on its reports holds. One rule for each thing a
cycle can do reduces the condition after it to a condition before it, so that a cycle is settled by
going through its parts.
-/

namespace Sm83.MachineCycle

variable {α β : Type}

/-- What a condition after a part of a cycle may speak about: the result, the context, the accesses
and the reports. -/
abbrev Post (α : Type) := α → Context → List Access → List Event → Prop

/-- The cycle does not fail, and the condition holds after it. -/
def Succeeds (cycle : MachineCycle α) (context : Context) (post : Post α) : Prop :=
  (cycle.perform context).Always fun (outcome, after) accesses events =>
    match outcome with
    | .ok value => post value after accesses events
    | .error _ => False

/-- A weaker condition holds as well. -/
theorem Succeeds.mono {cycle : MachineCycle α} {context : Context} {strong weak : Post α}
    (holds : cycle.Succeeds context strong)
    (weaker : ∀ value after accesses events,
      strong value after accesses events → weak value after accesses events) :
    cycle.Succeeds context weak := by
  apply Bus.Always.mono holds
  rintro ⟨outcome, after⟩ accesses events holds
  cases outcome with
  | ok value => exact weaker value after accesses events holds
  | error fault => exact holds

/-! ## Rules -/

/-- A part that only has a result succeeds with it. -/
@[simp] theorem succeeds_pure (value : α) (context : Context) (post : Post α) :
    (pure value : MachineCycle α).Succeeds context post ↔ post value context [] [] := by
  simp [Succeeds]

/-- Parts succeed in turn. -/
@[simp] theorem succeeds_bind (cycle : MachineCycle α) (next : α → MachineCycle β)
    (context : Context) (post : Post β) :
    (cycle >>= next).Succeeds context post ↔
      cycle.Succeeds context fun value between accesses events =>
        (next value).Succeeds between fun result after further later =>
          post result after (accesses ++ further) (events ++ later) := by
  simp only [Succeeds, perform_bind, Bus.always_bind]
  constructor
  · intro holds
    apply Bus.Always.mono holds
    rintro ⟨outcome, between⟩ accesses events rest
    cases outcome with
    | ok value => exact rest
    | error fault => simp at rest
  · intro holds
    apply Bus.Always.mono holds
    rintro ⟨outcome, between⟩ accesses events rest
    cases outcome with
    | ok value => exact rest
    | error fault => exact rest.elim

/-- A part whose result is converted succeeds as it did. -/
@[simp] theorem succeeds_map (convert : α → β) (cycle : MachineCycle α) (context : Context)
    (post : Post β) :
    (convert <$> cycle).Succeeds context post ↔
      cycle.Succeeds context fun value => post (convert value) := by
  rw [map_eq_pure_bind, succeeds_bind]
  simp

/-- Looking at the registers changes nothing. -/
@[simp] theorem succeeds_regs (context : Context) (post : Post RegisterFile) :
    regs.Succeeds context post ↔ post context.regs context [] [] := by
  simp [Succeeds]

/-- A change of the registers is all that it does. -/
@[simp] theorem succeeds_changeRegs (change : RegisterFile → RegisterFile) (context : Context)
    (post : Post Unit) :
    (changeRegs change).Succeeds context post ↔
      post () { context with regs := change context.regs } [] [] := by
  simp [Succeeds]

/-- Looking at the latch changes nothing. -/
@[simp] theorem succeeds_latch (context : Context) (post : Post Latch) :
    latch.Succeeds context post ↔ post context.latch context [] [] := by
  simp [Succeeds]

/-- A change of the latch is all that it does. -/
@[simp] theorem succeeds_changeLatch (change : Latch → Latch) (context : Context)
    (post : Post Unit) :
    (changeLatch change).Succeeds context post ↔
      post () { context with latch := change context.latch } [] [] := by
  simp [Succeeds]

/-- A read may be answered with any byte. -/
@[simp] theorem succeeds_readByte (address : UInt16) (context : Context) (post : Post UInt8) :
    (readByte address).Succeeds context post ↔
      ∀ byte, post byte context [.read address byte] [] := by
  simp [Succeeds]

/-- A write is one access. -/
@[simp] theorem succeeds_writeByte (address : UInt16) (byte : UInt8) (context : Context)
    (post : Post Unit) :
    (writeByte address byte).Succeeds context post ↔
      post () context [.write address byte] [] := by
  simp [Succeeds]

/-- A report is no access. -/
@[simp] theorem succeeds_log (event : Event) (context : Context) (post : Post Unit) :
    (log event).Succeeds context post ↔ post () context [] [event] := by
  simp [Succeeds]

/-! ## Fetching and the stack -/

/-- A fetch reads at the program counter and moves it. -/
@[simp] theorem succeeds_fetch (context : Context) (post : Post UInt8) :
    fetch.Succeeds context post ↔
      ∀ byte, post byte { context with regs := { context.regs with pc := context.regs.pc + 1 } }
        [.read context.regs.pc byte] [] := by
  simp [fetch]

/-- A first byte that is fetched is kept as the lower half. -/
@[simp] theorem succeeds_fetchLow (context : Context) (post : Post Unit) :
    fetchLow.Succeeds context post ↔
      ∀ byte, post () ⟨{ context.regs with pc := context.regs.pc + 1 },
        { context.latch with low := byte }⟩ [.read context.regs.pc byte] [] := by
  simp [fetchLow]

/-- A further byte that is fetched is kept as the upper half. -/
@[simp] theorem succeeds_fetchHigh (context : Context) (post : Post Unit) :
    fetchHigh.Succeeds context post ↔
      ∀ byte, post () ⟨{ context.regs with pc := context.regs.pc + 1 },
        { context.latch with high := byte }⟩ [.read context.regs.pc byte] [] := by
  simp [fetchHigh]

/-- A jump only moves the program counter. -/
@[simp] theorem succeeds_jump (target : UInt16) (context : Context) (post : Post Unit) :
    (jump target).Succeeds context post ↔
      post () { context with regs := { context.regs with pc := target } } [] [] := by
  simp [jump]

/-- Making room only moves the stack pointer. -/
@[simp] theorem succeeds_reserve (context : Context) (post : Post Unit) :
    reserve.Succeeds context post ↔
      post () { context with regs := { context.regs with sp := context.regs.sp - 1 } } [] [] := by
  simp [reserve]

/-- Pushing the upper half of a word writes it and makes room. -/
@[simp] theorem succeeds_pushHigh (word : RegisterFile → UInt16) (context : Context)
    (post : Post Unit) :
    (pushHigh word).Succeeds context post ↔
      post () { context with regs := { context.regs with sp := context.regs.sp - 1 } }
        [.write context.regs.sp (Word.high (word context.regs))] [] := by
  simp [pushHigh]

/-- Pushing the lower half of a word writes it. -/
@[simp] theorem succeeds_pushLow (word : RegisterFile → UInt16) (context : Context)
    (post : Post Unit) :
    (pushLow word).Succeeds context post ↔
      post () context [.write context.regs.sp (Word.low (word context.regs))] [] := by
  simp [pushLow]

/-- A popped lower half is read at the stack pointer, which moves up. -/
@[simp] theorem succeeds_popLow (context : Context) (post : Post Unit) :
    popLow.Succeeds context post ↔
      ∀ byte, post () ⟨{ context.regs with sp := context.regs.sp + 1 },
        { context.latch with low := byte }⟩ [.read context.regs.sp byte] [] := by
  simp [popLow, popByte]

/-- A popped upper half is read at the stack pointer, which moves up. -/
@[simp] theorem succeeds_popHigh (context : Context) (post : Post Unit) :
    popHigh.Succeeds context post ↔
      ∀ byte, post () ⟨{ context.regs with sp := context.regs.sp + 1 },
        { context.latch with high := byte }⟩ [.read context.regs.sp byte] [] := by
  simp [popHigh, popByte]

end Sm83.MachineCycle
