import Sm83.Processor
import Sm83.Execution

/-!
# Ticking until idle

The loop that ticks a processor until it is idle, without a limit on the ticks, as a relation: it
ends after so many ticks, with the answer of the last of them. A loop that ends can be split after
any of its ticks, and a bounded run that allows as many ticks as the loop takes is the loop.
-/

namespace Sm83.Processor

variable {μ : Type} [Memory μ]

/-- Whether a tick with this answer is the last one: it failed, or it left the processor idle. -/
def Answer.isLast (answer : Answer Unit) : Bool :=
  match answer.outcome with
  | .ok () => answer.processor.isIdle
  | .error _ => true

/-- Tick so many times, up to the first tick that fails. -/
def ticks (count : Nat) (processor : Processor) : Bus (Answer Unit) :=
  match count with
  | 0 => return ⟨.ok (), processor⟩
  | count + 1 => do
    let ticked ← processor.tick
    match ticked.outcome with
    | .error fault => return ⟨.error fault, ticked.processor⟩
    | .ok () => ticked.processor.ticks count

/-- Ticking until idle over a memory ends after so many ticks, with an answer and a memory. -/
inductive Ends : Processor → μ → Nat → Answer Unit → μ → Prop where
  /-- The first tick is the last one. -/
  | last {processor : Processor} {memory : μ}
    (final : (processor.tick.exec memory).value.isLast = true) :
    Ends processor memory 1 (processor.tick.exec memory).value (processor.tick.exec memory).memory
  /-- Further ticks follow the first one. -/
  | more {processor : Processor} {memory : μ} {count : Nat} {answer : Answer Unit} {left : μ}
    (ongoing : (processor.tick.exec memory).value.isLast = false)
    (rest : Ends (processor.tick.exec memory).value.processor (processor.tick.exec memory).memory
      count answer left) :
    Ends processor memory (count + 1) answer left

variable {processor : Processor} {memory left : μ} {count : Nat} {answer : Answer Unit}

/-- A tick is not the last one if it succeeds and leaves the processor busy. -/
theorem Answer.isLast_eq_false_iff {answer : Answer Unit} :
    answer.isLast = false ↔ answer.outcome = .ok () ∧ answer.processor.isIdle = false := by
  unfold isLast
  cases answer.outcome <;> simp

/-- A first tick that succeeds is followed by the other ones. -/
theorem exec_ticks_succ (succeeded : (processor.tick.exec memory).value.outcome = .ok ())
    (count : Nat) :
    ((processor.ticks (count + 1)).exec memory).value =
        (((processor.tick.exec memory).value.processor.ticks count).exec
          (processor.tick.exec memory).memory).value ∧
      ((processor.ticks (count + 1)).exec memory).memory =
        (((processor.tick.exec memory).value.processor.ticks count).exec
          (processor.tick.exec memory).memory).memory := by
  constructor
  · simp only [ticks, Bus.exec_bind, succeeded, Execution.value_behind]
  · simp only [ticks, Bus.exec_bind, succeeded, Execution.memory_behind]

/-- A loop that ends with success leaves the processor idle. -/
theorem Ends.idle (ends : Ends processor memory count answer left)
    (succeeded : answer.outcome = .ok ()) : answer.processor.isIdle = true := by
  induction ends with
  | last final =>
    unfold Answer.isLast at final
    rw [succeeded] at final
    exact final
  | more ongoing rest ih => exact ih succeeded

/-- A loop ends in one way. -/
theorem Ends.unique {count' : Nat} {answer' : Answer Unit} {left' : μ}
    (ends : Ends processor memory count answer left)
    (other : Ends processor memory count' answer' left') :
    count' = count ∧ answer' = answer ∧ left' = left := by
  induction ends generalizing count' with
  | last final =>
    cases other with
    | last => exact ⟨rfl, rfl, rfl⟩
    | more ongoing rest =>
      rw [final] at ongoing
      cases ongoing
  | more ongoing rest ih =>
    cases other with
    | last final =>
      rw [final] at ongoing
      cases ongoing
    | more _ rest =>
      obtain ⟨rfl, rfl, rfl⟩ := ih rest
      exact ⟨rfl, rfl, rfl⟩

/-- As many ticks as the loop takes do what the loop does. -/
theorem Ends.exec_ticks (ends : Ends processor memory count answer left) :
    ((processor.ticks count).exec memory).value = answer ∧
      ((processor.ticks count).exec memory).memory = left := by
  induction ends with
  | @last processor memory final =>
    rcases first : (processor.tick.exec memory).value with ⟨fault | _, after⟩
    · simp [ticks, Bus.exec_bind, first]
    · simp [ticks, Bus.exec_bind, first]
  | more ongoing rest ih =>
    obtain ⟨succeeded, -⟩ := Answer.isLast_eq_false_iff.mp ongoing
    obtain ⟨value, memory⟩ := exec_ticks_succ succeeded _
    rw [value, memory]
    exact ih

/-- After fewer ticks than the loop takes the processor is busy, and the loop takes the others. -/
theorem Ends.split (ends : Ends processor memory count answer left) {made : Nat}
    (early : made < count) :
    ((processor.ticks made).exec memory).value.outcome = .ok () ∧
      (0 < made → ((processor.ticks made).exec memory).value.processor.isIdle = false) ∧
      Ends ((processor.ticks made).exec memory).value.processor
        ((processor.ticks made).exec memory).memory (count - made) answer left := by
  induction ends generalizing made with
  | last final =>
    obtain rfl : made = 0 := by omega
    exact ⟨rfl, fun impossible => absurd impossible (Nat.lt_irrefl 0), .last final⟩
  | more ongoing rest ih =>
    cases made with
    | zero => exact ⟨rfl, fun impossible => absurd impossible (Nat.lt_irrefl 0), .more ongoing rest⟩
    | succ made =>
      obtain ⟨succeeded, busy⟩ := Answer.isLast_eq_false_iff.mp ongoing
      obtain ⟨value, memory⟩ := exec_ticks_succ succeeded made
      have early : made < _ := Nat.lt_of_succ_lt_succ early
      obtain ⟨outcome, later, remaining⟩ := ih early
      rw [value, memory, Nat.add_sub_add_right]
      refine ⟨outcome, fun _ => ?_, remaining⟩
      by_cases first : made = 0
      · subst first
        exact busy
      · exact later (Nat.pos_of_ne_zero first)

/-- A run that allows as many ticks as the loop takes does what the loop does, and counts its
ticks. -/
theorem Ends.exec_runFor (ends : Ends processor memory count answer left) {limit : Nat}
    (enough : count ≤ limit) (made : Nat) :
    ((processor.runFor limit made).exec memory).value =
        ⟨answer.outcome.map fun _ => made + count, answer.processor⟩ ∧
      ((processor.runFor limit made).exec memory).memory = left := by
  induction ends generalizing limit made with
  | @last processor memory final =>
    obtain ⟨limit, rfl⟩ : ∃ more, limit = more + 1 := ⟨limit - 1, by omega⟩
    unfold Answer.isLast at final
    rcases first : (processor.tick.exec memory).value with ⟨fault | _, after⟩
    · simp [runFor, Bus.exec_bind, first, Except.map]
    · rw [first] at final
      simp only at final
      simp [runFor, Bus.exec_bind, first, Except.map, final]
  | @more processor memory count answer left ongoing rest ih =>
    obtain ⟨limit, rfl⟩ : ∃ more, limit = more + 1 := ⟨limit - 1, by omega⟩
    obtain ⟨succeeded, busy⟩ := Answer.isLast_eq_false_iff.mp ongoing
    have total : made + (count + 1) = made + 1 + count := by omega
    rw [total, runFor, Bus.exec_bind]
    simp only [succeeded, busy, Execution.value_behind, Execution.memory_behind]
    exact ih (Nat.le_of_succ_le_succ enough) (made + 1)

/-- Running until idle does what the loop does, if the loop takes no more than the allowed
ticks. -/
theorem Ends.exec_runUntilIdle (ends : Ends processor memory count answer left)
    (enough : count ≤ tickLimit) :
    (processor.runUntilIdle.exec memory).value =
        ⟨answer.outcome.map fun _ => count, answer.processor⟩ ∧
      (processor.runUntilIdle.exec memory).memory = left := by
  have run := ends.exec_runFor enough 0
  rwa [Nat.zero_add] at run

end Sm83.Processor
