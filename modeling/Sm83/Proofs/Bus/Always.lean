import Sm83.Execution

/-!
# What always holds of a bus program

A condition on the result of a program, on its accesses and on its reports always holds if it holds
whatever bytes the reads are answered with. It composes along programs that follow one another, and
what always holds is true of every execution over every memory.
-/

namespace Sm83.Bus

variable {α β : Type}

/-- The condition holds of the result, the accesses and the reports, whatever is read. -/
def Always : Bus α → (α → List Access → List Event → Prop) → Prop
  | done value, post => post value [] []
  | read address next, post =>
    ∀ byte, (next byte).Always fun value accesses events =>
      post value (.read address byte :: accesses) events
  | write address byte next, post =>
    next.Always fun value accesses events => post value (.write address byte :: accesses) events
  | report event next, post =>
    next.Always fun value accesses events => post value accesses (event :: events)

/-- A result is reached without an access or a report. -/
@[simp] theorem always_done (value : α) (post : α → List Access → List Event → Prop) :
    (done value).Always post ↔ post value [] [] := Iff.rfl

/-- What holds after a read holds for every byte. -/
@[simp] theorem always_read (address : UInt16) (next : UInt8 → Bus α)
    (post : α → List Access → List Event → Prop) :
    (read address next).Always post ↔
      ∀ byte, (next byte).Always fun value accesses events =>
        post value (.read address byte :: accesses) events := Iff.rfl

/-- What holds after a write has the write in front. -/
@[simp] theorem always_write (address : UInt16) (byte : UInt8) (next : Bus α)
    (post : α → List Access → List Event → Prop) :
    (write address byte next).Always post ↔
      next.Always fun value accesses events =>
        post value (.write address byte :: accesses) events := Iff.rfl

/-- What holds after a report has the report in front. -/
@[simp] theorem always_report (event : Event) (next : Bus α)
    (post : α → List Access → List Event → Prop) :
    (report event next).Always post ↔
      next.Always fun value accesses events => post value accesses (event :: events) := Iff.rfl

/-- What holds of everything always holds. -/
theorem always_of_forall (program : Bus α) {post : α → List Access → List Event → Prop}
    (holds : ∀ value accesses events, post value accesses events) : program.Always post := by
  induction program generalizing post with
  | done value => exact holds _ _ _
  | read address next ih => exact fun byte => ih byte fun value accesses => holds value _
  | write address byte next ih => exact ih fun value accesses => holds value _
  | report event next ih => exact ih fun value accesses events => holds value accesses _

/-- A weaker condition holds as well. -/
theorem Always.mono {program : Bus α} {strong weak : α → List Access → List Event → Prop}
    (holds : program.Always strong)
    (weaker : ∀ value accesses events, strong value accesses events → weak value accesses events) :
    program.Always weak := by
  induction program generalizing strong weak with
  | done value => exact weaker _ _ _ holds
  | read address next ih =>
    intro byte
    exact ih byte (holds byte) fun value accesses events => weaker value _ events
  | write address byte next ih => exact ih holds fun value accesses events => weaker value _ events
  | report event next ih => exact ih holds fun value accesses events => weaker value accesses _

/-- What one program leaves is what the next one starts with. -/
@[simp] theorem always_bind (program : Bus α) (next : α → Bus β)
    (post : β → List Access → List Event → Prop) :
    (program >>= next).Always post ↔
      program.Always fun value accesses events =>
        (next value).Always fun result further later =>
          post result (accesses ++ further) (events ++ later) := by
  induction program generalizing post with
  | done value => rfl
  | read address rest ih => simp [ih]
  | write address byte rest ih => simp [ih]
  | report event rest ih => simp [ih]

/-- Programs that go on alike after whatever a first one can leave are the same. -/
theorem bind_congr {program : Bus α} {left right : α → Bus β}
    (alike : program.Always fun value _ _ => left value = right value) :
    program >>= left = program >>= right := by
  induction program with
  | done value => exact alike
  | read address next ih =>
    simp only [read_bind, read.injEq, true_and]
    funext byte
    exact ih byte (alike byte)
  | write address byte next ih =>
    simp only [write_bind, write.injEq, true_and]
    exact ih alike
  | report event next ih =>
    simp only [report_bind, report.injEq, true_and]
    exact ih alike

/-- What always holds is true of an execution over any memory. -/
theorem Always.exec {μ : Type} [Memory μ] {program : Bus α}
    {post : α → List Access → List Event → Prop} (holds : program.Always post) (memory : μ) :
    post (program.exec memory).value (program.exec memory).accesses
      (program.exec memory).events := by
  induction program generalizing post memory with
  | done value => exact holds
  | read address next ih =>
    exact ih (Memory.read memory address).1 (holds _) (Memory.read memory address).2
  | write address byte next ih => exact ih holds (Memory.write memory address byte)
  | report event next ih => exact ih holds memory

end Sm83.Bus
