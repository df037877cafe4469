import Sm83.Proofs.MachineCycle.Succeeds

/-!
# Running a schedule

The cycles of an instruction are run one after another, up to the one that completes it. A run is a
machine cycle like any other, longer than a tick allows, so what is known of the parts of a cycle
speaks about whole instructions.
-/

namespace Sm83.Schedule

open MachineCycle

/-- Run the cycles in order until one completes the instruction, and count them. -/
def run : Schedule → MachineCycle Nat
  | [] => return 0
  | cycle :: rest => do
    match ← cycle with
    | .retired => return 1
    | .running => return (← run rest) + 1

/-- The work of all parts, one after another. -/
def inTurn : List (MachineCycle Unit) → MachineCycle Unit
  | [] => return ()
  | part :: rest => do
    part
    inTurn rest

/-- A cycle that others follow is followed by them. -/
@[simp] theorem run_continuing (work : MachineCycle Unit) (rest : Schedule) :
    run (continuing work :: rest) = do
      work
      return (← run rest) + 1 := by
  simp [run, continuing]

/-- A retiring cycle is the last one. -/
@[simp] theorem run_retiring (work : MachineCycle Unit) (rest : Schedule) :
    run (retiring work :: rest) = do
      work
      return 1 := by
  simp [run, retiring]

/-- A deciding cycle is the last one unless its condition holds. -/
@[simp] theorem run_deciding (condition : Option Condition) (work : MachineCycle Unit)
    (rest : Schedule) :
    run (deciding condition work :: rest) = do
      work
      if (← regs).holds condition then
        return (← run rest) + 1
      else
        return 1 := by
  simp only [run, deciding, bind_assoc, pure_bind]
  congr 1
  funext _
  congr 1
  funext regs
  cases regs.holds condition <;> simp

/-- A closing schedule does its parts in turn and then what completes the instruction. -/
theorem run_closing (finish : MachineCycle Unit) {parts : List (MachineCycle Unit)}
    (nonempty : parts ≠ []) :
    run (closing finish parts) = do
      inTurn parts
      finish
      return parts.length := by
  fun_induction closing finish parts with
  | case1 => exact absurd rfl nonempty
  | case2 last => simp [inTurn]
  | case3 work rest notLast ih => simp [inTurn, ih notLast]

/-- A cycle without work leaves everything alone. -/
@[simp] theorem succeeds_idle (context : Context) (post : Post Unit) :
    idle.Succeeds context post ↔ post () context [] [] := succeeds_pure () context post

/-- A jump to the latched word only moves the program counter. -/
@[simp] theorem succeeds_jumpLatched (context : Context) (post : Post Unit) :
    jumpLatched.Succeeds context post ↔
      post () { context with regs := { context.regs with pc := context.latch.word } } [] [] := by
  simp [jumpLatched]

/-- A relative jump moves the program counter and is reported. -/
@[simp] theorem succeeds_jumpRelative (context : Context) (post : Post Unit) :
    jumpRelative.Succeeds context post ↔
      post ()
        { context with regs :=
          { context.regs with pc := context.regs.pc + Word.ofOffset context.latch.low } }
        [] [.jumped context.latch.low context.regs.pc
          (context.regs.pc + Word.ofOffset context.latch.low)] := by
  simp [jumpRelative]

/-- The run of a cycle that others follow is the cycle and then their run. -/
@[simp] theorem succeeds_run_continuing (work : MachineCycle Unit) (rest : Schedule)
    (context : Context) (post : Post Nat) :
    (run (continuing work :: rest)).Succeeds context post ↔
      work.Succeeds context fun _ between accesses events =>
        (run rest).Succeeds between fun count after further later =>
          post (count + 1) after (accesses ++ further) (events ++ later) := by
  rw [run_continuing]
  simp

/-- The run of a retiring cycle is the cycle. -/
@[simp] theorem succeeds_run_retiring (work : MachineCycle Unit) (rest : Schedule)
    (context : Context) (post : Post Nat) :
    (run (retiring work :: rest)).Succeeds context post ↔
      work.Succeeds context fun _ after accesses events => post 1 after accesses events := by
  rw [run_retiring]
  simp

/-- The run of a deciding cycle is the cycle and, if the condition holds after it, the run of those
that follow. -/
@[simp] theorem succeeds_run_deciding (condition : Option Condition) (work : MachineCycle Unit)
    (rest : Schedule) (context : Context) (post : Post Nat) :
    (run (deciding condition work :: rest)).Succeeds context post ↔
      work.Succeeds context fun _ between accesses events =>
        if between.regs.holds condition then
          (run rest).Succeeds between fun count after further later =>
            post (count + 1) after (accesses ++ further) (events ++ later)
        else
          post 1 between accesses events := by
  rw [run_deciding, succeeds_bind]
  constructor
  · intro holds
    apply holds.mono
    intro _ between accesses events settled
    rw [succeeds_bind, succeeds_regs] at settled
    split at settled <;> rename_i taken <;> simpa [taken] using settled
  · intro holds
    apply holds.mono
    intro _ between accesses events settled
    rw [succeeds_bind, succeeds_regs]
    split at settled <;> rename_i taken <;> simpa [taken] using settled

end Sm83.Schedule
