import Sm83.RegisterFile

/-!
# The discipline of a stack

What a run does to its stack is a list of events, each with the word that it moves. The events keep
the discipline of a stack if every word that is taken is the last one that was put there and is not
yet taken. Whether there is room for what is put and something to take is a matter of counting
alone; and where everything that is put within a part of the run is taken within it, what is taken
behind that part is what was put in front of it.
-/

namespace Sm83

/-- What a pair keeps of a word that is put into it: the flags have no lower half. -/
def RegisterPair.kept (pair : RegisterPair) (word : UInt16) : UInt16 :=
  if pair = .af then word &&& 0xFFF0 else word

/-- What an operation of the processor does to the stack of words. -/
inductive StackEvent where
  /-- A word is put on top. -/
  | push (word : UInt16)
  /-- The top word is taken and put into a pair, which then has the given value. -/
  | pop (pair : RegisterPair) (value : UInt16)
  /-- The top word is taken, and the run continues at the given address. -/
  | ret (target : UInt16)
  /-- The stack is left alone. -/
  | keep
deriving DecidableEq, Repr

namespace StackEvent

/-- Whether the event takes a word from the stack. -/
def isTake : StackEvent → Bool
  | pop .. | ret _ => true
  | push _ | keep => false

/-- The event takes this word: what it leaves in a pair or as an address is the word. -/
def Takes (word : UInt16) : StackEvent → Prop
  | pop pair value => value = pair.kept word
  | ret target => target = word
  | push _ | keep => False

/-- Only an event that takes a word takes this one. -/
theorem Takes.isTake {event : StackEvent} {word : UInt16} (takes : event.Takes word) :
    event.isTake = true := by
  cases event with
  | pop | ret => rfl
  | push | keep => exact takes.elim

end StackEvent

open StackEvent

/-- The events lead from one stack of words to another. -/
inductive Lifo : List UInt16 → List StackEvent → List UInt16 → Prop where
  /-- Nothing happens. -/
  | nil {words : List UInt16} : Lifo words [] words
  /-- A word comes on top. -/
  | push {words left : List UInt16} {events : List StackEvent} {word : UInt16}
    (rest : Lifo (word :: words) events left) : Lifo words (.push word :: events) left
  /-- The top word is taken. -/
  | take {words left : List UInt16} {event : StackEvent} {events : List StackEvent}
    {word : UInt16} (takes : event.Takes word) (rest : Lifo words events left) :
    Lifo (word :: words) (event :: events) left
  /-- The stack is left alone. -/
  | keep {words left : List UInt16} {events : List StackEvent}
    (rest : Lifo words events left) : Lifo words (.keep :: events) left

/-- The events take no word from an empty stack and put none on a full one, which has as many words
as there are pairs of addresses. -/
def Fits (depth : Nat) : List StackEvent → Prop
  | [] => True
  | .push _ :: events => depth < 32768 ∧ Fits (depth + 1) events
  | .keep :: events => Fits depth events
  | .pop .. :: events | .ret _ :: events => 0 < depth ∧ Fits (depth - 1) events

/-- Everything that the events put on the stack they take from it, and nothing else. -/
inductive Balanced : List StackEvent → Prop where
  /-- Nothing happens. -/
  | nil : Balanced []
  /-- The stack is left alone first. -/
  | keep {events : List StackEvent} (rest : Balanced events) : Balanced (.keep :: events)
  /-- A word is put, and taken behind a balanced part. -/
  | nest {word : UInt16} {inner : List StackEvent} {closer : StackEvent}
    {events : List StackEvent} (within : Balanced inner) (closes : closer.isTake = true)
    (rest : Balanced events) : Balanced (.push word :: (inner ++ closer :: events))

namespace Lifo

variable {words left : List UInt16} {first second : List StackEvent}

/-- Events in two parts lead from stack to stack in turn. -/
theorem append {between : List UInt16} (early : Lifo words first between)
    (late : Lifo between second left) : Lifo words (first ++ second) left := by
  induction early with
  | nil => exact late
  | push rest ih => exact .push (ih late)
  | take takes rest ih => exact .take takes (ih late)
  | keep rest ih => exact .keep (ih late)

/-- What takes a word takes the top one. -/
theorem takes_of_take {word : UInt16} {closer : StackEvent} (closes : closer.isTake = true)
    (run : Lifo (word :: words) (closer :: second) left) :
    closer.Takes word ∧ Lifo words second left := by
  cases run with
  | push rest => cases closes
  | take takes rest => exact ⟨takes, rest⟩
  | keep rest => cases closes

/-- Behind balanced events a stack is what it was before them. -/
theorem of_balanced (balanced : Balanced first) (run : Lifo words (first ++ second) left) :
    Lifo words second left := by
  induction balanced generalizing words second with
  | nil => exact run
  | keep rest ih =>
    cases run with
    | take takes rest => exact takes.elim
    | keep behind => exact ih behind
  | @nest word inner closer events within closes rest inside behind =>
    rw [List.cons_append, List.append_assoc] at run
    cases run with
    | push nested =>
      have closed := takes_of_take closes (inside nested)
      exact behind closed.2
    | take takes rest => exact takes.elim

/-- What is taken behind balanced events is what was put in front of them. -/
theorem takes_of_balanced {word : UInt16} {inner : List StackEvent} {closer : StackEvent}
    (balanced : Balanced inner) (closes : closer.isTake = true)
    (run : Lifo words (first ++ .push word :: (inner ++ closer :: second)) left) :
    closer.Takes word := by
  induction first generalizing words with
  | nil =>
    cases run with
    | push nested => exact (takes_of_take closes (of_balanced balanced nested)).1
    | take takes rest => exact takes.elim
  | cons event events ih =>
    cases run with
    | push rest => exact ih rest
    | take takes rest => exact ih rest
    | keep rest => exact ih rest

end Lifo

/-- An event that takes a word and fits finds one, and there is one less behind it. -/
theorem Fits.of_take {depth : Nat} {event : StackEvent} {events : List StackEvent}
    (takes : event.isTake = true) (fits : Fits depth (event :: events)) :
    0 < depth ∧ Fits (depth - 1) events := by
  cases event with
  | pop | ret => exact fits
  | push | keep => cases takes

end Sm83
