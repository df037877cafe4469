import Sm83.Proofs.Schedule.Progress

/-!
# What is left of a schedule

Once a cycle of an instruction is made, the number of those that are left is known: up to the cycle
that decides a branch that is not taken, otherwise up to the last one. A cycle that does not
complete the instruction leaves one less, and before the first cycle the number is the documented
duration.
-/

namespace Sm83

namespace Instruction

/-- The cycles that an instruction has to go after one of its cycles: up to the one that decides a
branch that is not taken, otherwise up to the last one. -/
def remaining (instruction : Instruction) (cycle : Nat) (regs : RegisterFile) : Nat :=
  if regs.holds instruction.condition = false ∧ cycle < instruction.duration.min then
    instruction.duration.min - cycle
  else
    instruction.cycles.length - cycle

/-- The ticks that an instruction takes from its start, the prefix fetch included. -/
def ticks (instruction : Instruction) (regs : RegisterFile) : Nat :=
  if regs.holds instruction.condition then
    instruction.duration.max
  else
    instruction.duration.min

variable {instruction : Instruction} {cycle : Nat} {regs : RegisterFile}

/-- A condition that does not hold belongs to a branch, which has a cycle that decides it. -/
theorem branch_of_not_holds (fails : regs.holds instruction.condition = false) :
    0 < instruction.duration.min ∧ instruction.duration.min ≤ instruction.cycles.length ∧
      instruction.isPrefixed = false := by
  cases instruction with
  | jp condition | jr condition | call condition | ret condition =>
    cases condition with
    | none => cases fails
    | some condition => refine ⟨?_, ?_, rfl⟩ <;> exact Nat.le_of_ble_eq_true rfl
  | _ => cases fails

/-- What an instruction has to go depends on the flags alone. -/
theorem remaining_congr {left right : RegisterFile} (flags : left.f = right.f) :
    instruction.remaining cycle left = instruction.remaining cycle right := by
  unfold remaining
  rw [RegisterFile.holds_congr flags]

/-- An instruction that has not come to its last cycle has some to go. -/
theorem remaining_pos (unfinished : cycle < instruction.cycles.length) (regs : RegisterFile) :
    0 < instruction.remaining cycle regs := by
  unfold remaining
  split <;> omega

/-- An instruction has at most its cycles to go. -/
theorem remaining_le (instruction : Instruction) (cycle : Nat) (regs : RegisterFile) :
    instruction.remaining cycle regs ≤ instruction.cycles.length := by
  unfold remaining
  by_cases early : regs.holds instruction.condition = false ∧ cycle < instruction.duration.min
  · have bound := (branch_of_not_holds early.1).2.1
    rw [if_pos early]
    omega
  · rw [if_neg early]
    omega

/-- The cycle that completes an instruction is the only one that was left. -/
theorem remaining_of_retired (unfinished : cycle < instruction.cycles.length)
    (retired : instruction.progress (cycle + 1) regs = .retired) :
    instruction.remaining cycle regs = 1 := by
  have ends : cycle + 1 = instruction.cycles.length ∨
      cycle + 1 = instruction.duration.min ∧ regs.holds instruction.condition = false := by
    unfold progress at retired
    split at retired
    · assumption
    · cases retired
  unfold remaining
  by_cases fails : regs.holds instruction.condition = false
  · have bound := (branch_of_not_holds fails).2.1
    by_cases early : cycle < instruction.duration.min
    · rw [if_pos ⟨fails, early⟩]
      omega
    · rw [if_neg fun both => early both.2]
      omega
  · have last := ends.resolve_right fun both => fails both.2
    rw [if_neg fun both => fails both.1]
    omega

/-- A cycle that does not complete an instruction leaves one less than there were. -/
theorem remaining_of_running {after : RegisterFile} (unfinished : cycle < instruction.cycles.length)
    (running : instruction.progress (cycle + 1) regs = .running) (kept : after.f = regs.f) :
    instruction.remaining cycle regs = instruction.remaining (cycle + 1) after + 1 := by
  have goes : ¬ (cycle + 1 = instruction.cycles.length ∨
      cycle + 1 = instruction.duration.min ∧ regs.holds instruction.condition = false) := by
    unfold progress at running
    split at running
    · cases running
    · assumption
  have further : cycle + 1 ≠ instruction.cycles.length := fun same => goes (.inl same)
  unfold remaining
  rw [RegisterFile.holds_congr kept]
  by_cases fails : regs.holds instruction.condition = false
  · have undecided : cycle + 1 ≠ instruction.duration.min := fun same => goes (.inr ⟨same, fails⟩)
    by_cases early : cycle < instruction.duration.min
    · rw [if_pos ⟨fails, early⟩, if_pos ⟨fails, by omega⟩]
      omega
    · rw [if_neg fun both => early both.2, if_neg fun both => early (by omega)]
      omega
  · rw [if_neg fun both => fails both.1, if_neg fun both => fails both.1]
    omega

/-- Before its first cycle an instruction has its duration to go, but for the prefix fetch. -/
theorem remaining_zero (defined : instruction ≠ .invalid) (regs : RegisterFile) :
    instruction.remaining 0 regs + instruction.isPrefixed.toNat = instruction.ticks regs := by
  have length := length_cycles defined
  unfold remaining ticks
  by_cases fails : regs.holds instruction.condition = false
  · obtain ⟨positive, -, plain⟩ := branch_of_not_holds fails
    rw [if_pos ⟨fails, positive⟩, if_neg (by simp [fails]), plain]
    rfl
  · have holds : regs.holds instruction.condition = true := by simpa using fails
    rw [if_neg fun both => fails both.1, if_pos holds]
    exact length

/-- No run of an instruction takes longer than its longest duration. -/
theorem ticks_le (defined : instruction ≠ .invalid) (regs : RegisterFile) :
    instruction.ticks regs ≤ instruction.duration.max := by
  have bound := instruction.remaining_le 0 regs
  have total := remaining_zero defined regs
  have length := length_cycles defined
  omega

end Instruction

end Sm83
