import Sm83.Execution
import Sm83.Proofs.Schedule.Run

/-!
# What cycles do over a memory

A part of a machine cycle that does not fail leaves a result, a context and a memory, all three
determined by the context and the memory that it starts with. One rule for each shape of cycle
composes this for the run of a schedule, so that what a whole instruction does is found by going
through its cycles.
-/

namespace Sm83

open MachineCycle

variable {α β μ : Type} [Memory μ] {before between after : Context} {memory middle left : μ}

namespace MachineCycle

/-- Over a memory the part of a cycle does not fail, and it leaves a result, a context and a
memory. -/
def Does (cycle : MachineCycle α) (before : Context) (memory : μ) (value : α) (after : Context)
    (left : μ) : Prop :=
  ∃ accesses events,
    (cycle.perform before).exec memory = ⟨(.ok value, after), left, accesses, events⟩

/-- A part that only has a result leaves all else alone. -/
theorem does_pure (value : α) (context : Context) (memory : μ) :
    (pure value : MachineCycle α).Does context memory value context memory := ⟨_, _, rfl⟩

/-- Parts that follow one another start with what was left. -/
theorem Does.bind {cycle : MachineCycle α} {next : α → MachineCycle β} {value : α} {result : β}
    (first : cycle.Does before memory value between middle)
    (second : (next value).Does between middle result after left) :
    (cycle >>= next).Does before memory result after left := by
  obtain ⟨accesses, events, first⟩ := first
  obtain ⟨further, later, second⟩ := second
  refine ⟨accesses ++ further, events ++ later, ?_⟩
  rw [perform_bind, Bus.exec_bind, first]
  simp only [second]
  rfl

/-- A part that looks at the registers first starts with what it finds there. -/
theorem does_regs_bind {next : RegisterFile → MachineCycle β} {result : β}
    (does : (next before.regs).Does before memory result after left) :
    (regs >>= next).Does before memory result after left :=
  Does.bind ⟨_, _, rfl⟩ does

/-- A part that looks at the latch first starts with what it finds there. -/
theorem does_latch_bind {next : Latch → MachineCycle β} {result : β}
    (does : (next before.latch).Does before memory result after left) :
    (latch >>= next).Does before memory result after left :=
  Does.bind ⟨_, _, rfl⟩ does

end MachineCycle

namespace Schedule

variable {work : MachineCycle Unit} {rest : Schedule} {condition : Option Condition} {count : Nat}

/-- A cycle without work leaves everything alone. -/
theorem does_idle (context : Context) (memory : μ) : idle.Does context memory () context memory :=
  does_pure () context memory

/-- A cycle that others follow is followed by their run. -/
theorem does_run_continuing (does : work.Does before memory () between middle)
    (behind : (run rest).Does between middle count after left) :
    (run (continuing work :: rest)).Does before memory (count + 1) after left := by
  rw [run_continuing]
  exact does.bind (behind.bind (does_pure _ _ _))

/-- A retiring cycle is the last one. -/
theorem does_run_retiring (does : work.Does before memory () after left) :
    (run (retiring work :: rest)).Does before memory 1 after left := by
  rw [run_retiring]
  exact does.bind (does_pure _ _ _)

/-- A deciding cycle is followed by the run of the others if its condition holds. -/
theorem does_run_deciding_of_holds (does : work.Does before memory () between middle)
    (holds : between.regs.holds condition = true)
    (behind : (run rest).Does between middle count after left) :
    (run (deciding condition work :: rest)).Does before memory (count + 1) after left := by
  rw [run_deciding]
  refine does.bind (does_regs_bind ?_)
  rw [if_pos holds]
  exact behind.bind (does_pure _ _ _)

/-- A deciding cycle is the last one if its condition does not hold. -/
theorem does_run_deciding_of_not_holds (does : work.Does before memory () after left)
    (fails : after.regs.holds condition = false) :
    (run (deciding condition work :: rest)).Does before memory 1 after left := by
  rw [run_deciding]
  refine does.bind (does_regs_bind ?_)
  rw [if_neg (by simp [fails])]
  exact does_pure _ _ _

end Schedule

/-- Over a memory the cycles of an instruction lead from the registers behind the fetch of its
opcode to others, and to a memory. -/
def Instruction.Leads (instruction : Instruction) (fetched : RegisterFile) (memory : μ)
    (after : RegisterFile) (left : μ) : Prop :=
  ∃ count latch,
    (Schedule.run instruction.cycles).Does ⟨fetched, {}⟩ memory count ⟨after, latch⟩ left

end Sm83
