import Mathlib.Data.List.Nodup
import Sm83.Dump.Standard

/-!
# The laws of the standard format

The standard format is lawful. Checking the entries of an object before its fields are read turns
no record down that is read otherwise, and the errors that are at hand do not matter for what is
read.
-/

namespace Sm83.Dump

variable {ε α β : Type}

/-- A computation that goes on behind another one succeeds if both do. -/
theorem bind_eq_ok {first : Except ε α} {next : α → Except ε β} {result : β} :
    first >>= next = .ok result ↔ ∃ value, first = .ok value ∧ next value = .ok result := by
  cases first <;> simp [bind, Except.bind]

/-- A result is what it succeeds with. -/
theorem pure_eq_ok {value result : α} :
    (pure value : Except ε α) = .ok result ↔ value = result := by
  simp [pure, Except.pure]

/-- An error is no success. -/
@[simp] theorem throw_ne_ok {error : ε} {result : α} : (throw error : Except ε α) ≠ .ok result :=
  nofun

/-- Steps in turn succeed if each of them does. -/
theorem forM_eq_ok {steps : List α} {step : α → Except ε Unit} :
    steps.forM step = .ok () ↔ ∀ entry ∈ steps, step entry = .ok () := by
  induction steps with
  | nil => simp [List.forM, pure, Except.pure]
  | cons entry rest ih =>
    change (step entry >>= fun _ => rest.forM step) = .ok () ↔ _
    rw [bind_eq_ok, List.forall_mem_cons, ih]
    constructor
    · rintro ⟨_, first, others⟩
      exact ⟨first, others⟩
    · rintro ⟨first, others⟩
      exact ⟨(), first, others⟩

namespace Fields

variable {fields : Fields Error α} {entries : List (String × Value)} {contents : α}

/-- The first field is read from the entry of its name, and the others from the same entries. -/
theorem ofEntries_cons {name : String} {codec : Codec Error α} {rest : Fields Error β} {first : α}
    {others : β} :
    (cons name codec rest).ofEntries entries = .ok (first, others) ↔
      (∃ value, entries.lookup name = some value ∧ codec.read value = .ok first) ∧
        rest.ofEntries entries = .ok others := by
  rw [ofEntries]
  cases entries.lookup name with
  | none => simp
  | some value =>
    simp only [bind_eq_ok, pure_eq_ok, Prod.mk.injEq, Option.some.injEq]
    constructor
    · rintro ⟨_, read, _, behind, rfl, rfl⟩
      exact ⟨⟨value, rfl, read⟩, behind⟩
    · rintro ⟨⟨_, rfl, read⟩, behind⟩
      exact ⟨first, read, others, behind, rfl, rfl⟩

/-- What is read has passed every check. -/
theorem passes_of_ofEntries (read : fields.ofEntries entries = .ok contents) :
    ∀ entry ∈ fields.checks, ∀ value, entries.lookup entry.1 = some value →
      entry.2 value = .ok () := by
  induction fields with
  | nil => exact fun entry listed => absurd listed List.not_mem_nil
  | cons name codec rest ih =>
    obtain ⟨⟨value, found, first⟩, behind⟩ := ofEntries_cons.mp read
    refine List.forall_mem_cons.mpr ⟨fun other same => ?_, ih behind⟩
    obtain rfl : value = other := Option.some.inj (found.symm.trans same)
    simp [first, discard, Functor.discard, Functor.mapConst, Except.map]

/-- What is read passes the check of all entries. -/
theorem check_of_ofEntries (read : fields.ofEntries entries = .ok contents) :
    fields.check entries = .ok () := by
  refine forM_eq_ok.mpr ?_
  rintro ⟨name, check⟩ listed
  have passes := passes_of_ofEntries read (name, check) (List.mem_mergeSort.mp listed)
  cases found : entries.lookup name with
  | none => simp [found, pure, Except.pure]
  | some value => simpa [found] using passes value found

/-- The first field is read from the first element, and the others from those behind it. -/
theorem ofItems_cons {short long : Error} {name : String} {codec : Codec Error α}
    {rest : Fields Error β} {items : List Value} {first : α} {others : β} :
    (cons name codec rest).ofItems short long items = .ok (first, others) ↔
      ∃ item later, items = item :: later ∧ codec.read item = .ok first ∧
        rest.ofItems short long later = .ok others := by
  cases items with
  | nil => simp [ofItems]
  | cons item later =>
    simp only [ofItems, bind_eq_ok, pure_eq_ok, Prod.mk.injEq, List.cons.injEq]
    constructor
    · rintro ⟨_, read, _, behind, rfl, rfl⟩
      exact ⟨item, later, ⟨rfl, rfl⟩, read, behind⟩
    · rintro ⟨_, _, ⟨rfl, rfl⟩, read, behind⟩
      exact ⟨first, read, others, behind, rfl, rfl⟩

/-- What is read from a list does not depend on the errors that are at hand. -/
theorem ofItems_congr (short long short' long' : Error) (fields : Fields Error α)
    (items : List Value) (contents : α)
    (read : fields.ofItems short long items = .ok contents) :
    fields.ofItems short' long' items = .ok contents := by
  induction fields generalizing items with
  | nil =>
    cases items with
    | nil => exact read
    | cons item later => cases read
  | cons name codec rest ih =>
    obtain ⟨first, others⟩ := contents
    obtain ⟨item, later, rfl, head, behind⟩ := ofItems_cons.mp read
    exact ofItems_cons.mpr ⟨item, later, rfl, head, ih later others behind⟩

end Fields

namespace Format

/-- A number is read from what it is written as, and from nothing else. -/
theorem read_number {expected : Expected} {bound : Nat} {ofNat : Nat → α} {toNat : α → Nat}
    (below : ∀ found, toNat found < bound) (back : ∀ found, ofNat (toNat found) = found)
    (counts : ∀ count, count < bound → toNat (ofNat count) = count) {value : Value} {found : α} :
    (number expected bound ofNat toNat).read value = .ok found ↔ value = .int (toNat found) := by
  constructor
  · intro read
    cases value with
    | int value =>
      simp only [number] at read
      split at read
      · next fits =>
        obtain rfl := pure_eq_ok.mp read
        rw [counts _ (by omega), Int.toNat_of_nonneg fits.1]
      · cases read
    | _ => cases read
  · rintro rfl
    have fits : (0 : Int) ≤ toNat found ∧ (toNat found : Int) < bound :=
      ⟨by omega, by exact_mod_cast below found⟩
    simp only [number, if_pos fits, Int.toNat_natCast, back]
    rfl

/-- The value of a name is the one that has it. -/
theorem named_eq_ok {all : List α} {name : α → String} (distinct : (all.map name).Nodup)
    {text : String} {chosen : α} :
    named all name text = .ok chosen ↔ chosen ∈ all ∧ name chosen = text := by
  unfold named
  cases found : all.find? fun chosen => name chosen == text with
  | none =>
    have unnamed := List.find?_eq_none.mp found
    simp only [beq_iff_eq] at unnamed
    constructor
    · intro read
      cases read
    · rintro ⟨listed, same⟩
      exact absurd same (unnamed chosen listed)
  | some first =>
    have listed := List.mem_of_find?_eq_some found
    have same : name first = text := by simpa using List.find?_some found
    constructor
    · intro read
      obtain rfl := pure_eq_ok.mp read
      exact ⟨listed, same⟩
    · rintro ⟨other, alike⟩
      obtain rfl := List.inj_on_of_nodup_map distinct listed other (same.trans alike.symm)
      rfl

/-- Nothing is read from the value that carries nothing. -/
theorem nothing_eq_ok {value : Value} {found : Unit} :
    nothing value = .ok found ↔ value = .null := by
  cases value <;> simp [nothing, pure, Except.pure]

/-- A named value is read from an object that has its name alone and nothing under it. -/
theorem read_standard_choice_object {type : String} {all : List α} {name : α → String}
    (distinct : (all.map name).Nodup) {entries : List (String × Value)} {chosen : α} :
    (standard.choice type all name).read (.object entries) = .ok chosen ↔
      chosen ∈ all ∧ entries = [(name chosen, .null)] := by
  match entries with
  | [] | _ :: _ :: _ => simp [standard]
  | [(text, value)] =>
    simp only [standard, bind_eq_ok, pure_eq_ok, named_eq_ok distinct, nothing_eq_ok]
    constructor
    · rintro ⟨_, ⟨listed, rfl⟩, _, rfl, rfl⟩
      exact ⟨listed, rfl⟩
    · rintro ⟨listed, same⟩
      cases same
      exact ⟨chosen, ⟨listed, rfl⟩, (), rfl, rfl⟩

/-- An object is read as its fields are. -/
theorem read_standard_object {type : String} {fields : Fields Error α}
    {entries : List (String × Value)} {contents : α} :
    (standard.record type fields).read (.object entries) = .ok contents ↔
      fields.ofEntries entries = .ok contents := by
  change fields.check entries >>= (fun _ => fields.ofEntries entries) = .ok contents ↔ _
  rw [bind_eq_ok]
  constructor
  · rintro ⟨_, -, read⟩
    exact read
  · intro read
    exact ⟨(), Fields.check_of_ofEntries read, read⟩

/-- A list is read as its elements are, whatever errors are at hand. -/
theorem read_standard_list {type : String} {fields : Fields Error α} {items : List Value}
    {contents : α} (short long : Error) :
    (standard.record type fields).read (.list items) = .ok contents ↔
      fields.ofItems short long items = .ok contents :=
  ⟨Fields.ofItems_congr _ _ _ _ fields items contents,
    Fields.ofItems_congr _ _ _ _ fields items contents⟩

/-- The standard format is lawful. -/
theorem standard_lawful : standard.Lawful where
  write_byte _ := rfl
  write_word _ := rfl
  write_boolean _ := rfl
  read_byte :=
    read_number UInt8.toNat_lt (fun _ => UInt8.ofNat_toNat) fun _ => UInt8.toNat_ofNat_of_lt'
  read_word :=
    read_number UInt16.toNat_lt (fun _ => UInt16.ofNat_toNat) fun _ => UInt16.toNat_ofNat_of_lt'
  read_boolean := by
    intro value found
    cases value <;> simp [standard, pure, Except.pure]
  write_choice _ _ _ _ := rfl
  read_choice_string distinct _ _ := named_eq_ok distinct
  read_choice_object distinct _ _ _ := read_standard_choice_object distinct
  string_or_object_of_read := by
    intro _ type all name value chosen read
    cases value with
    | string text => exact .inl ⟨text, rfl⟩
    | object entries => exact .inr ⟨entries, rfl⟩
    | _ => cases read
  write_record _ fields _ contents := ⟨fields.entries contents, rfl, .refl _⟩
  read_object_nil _ _ := read_standard_object.mpr rfl
  read_object_cons := by
    intros
    rw [read_standard_object, Fields.ofEntries_cons, read_standard_object]
  read_list_nil := by
    intro type items
    rw [read_standard_list .notOneKey .notOneKey]
    cases items <;> simp [Fields.ofItems, pure, Except.pure]
  read_list_cons := by
    intros
    simp only [read_standard_list .notOneKey .notOneKey, Fields.ofItems_cons]
  object_or_list_of_read := by
    intro _ type fields value contents read
    cases value with
    | object entries => exact .inl ⟨entries, rfl⟩
    | list items => exact .inr ⟨items, rfl⟩
    | _ => cases read

end Format

end Sm83.Dump
