import Mathlib.Data.List.Forall2
import Mathlib.Data.List.Nodup
import Sm83.Dump.Format

/-!
# Records in dump values

Where a dump value has the fields of a record, the ways in which the fields of a record can be
written down, and what a value has to be if it is to be read as a record. None of it knows of a
format. A lawful format reads a record from the values that have its fields, however many fields
are declared.
-/

namespace Sm83.Dump

namespace Value

/-- The fields that a record has, by name, with their values in the order of declaration. -/
abbrev Fields := List (String × Value)

/-- Where a value has the fields of a record: an object has each of them under its name, and a
list has their values in the order of declaration and nothing else. -/
inductive Holds (fields : Fields) : Value → Prop
  | object {entries : Fields} (found : ∀ field ∈ fields, entries.lookup field.1 = some field.2) :
    Holds fields (.object entries)
  | list : Holds fields (.list (fields.map Prod.snd))

/-- The ways in which the fields of a record can be written down: as an object, in any order and
with other fields among them that the record does not know, or as the list of their values. -/
inductive Form (fields : Fields) : Value → Prop
  | object {entries others : Fields} (order : entries.Perm (fields ++ others))
    (unknown : ∀ other ∈ others, other.1 ∉ fields.map Prod.fst) : Form fields (.object entries)
  | list : Form fields (.list (fields.map Prod.snd))

/-- Fields can be written down as an object in any order. -/
theorem Form.of_perm {fields entries : Fields} (order : entries.Perm fields) :
    (Value.object entries).Form fields :=
  .object (order.trans (.of_eq (List.append_nil fields).symm)) (by simp)

/-- A field of a record: its name, and what its value may be. -/
structure Slot where
  /-- The name. -/
  name : String
  /-- The values that are allowed. -/
  Allows : Value → Prop

/-- The value is a record of the layout: an object with an allowed value under the name of every
field, whatever else it has, or a list of exactly as many allowed values in order. -/
inductive IsRecord (layout : List Slot) : Value → Prop
  | object {entries : Fields} (found : ∀ slot ∈ layout,
      ∃ value, entries.lookup slot.name = some value ∧ slot.Allows value) :
    IsRecord layout (.object entries)
  | list {items : List Value} (allowed : List.Forall₂ Slot.Allows layout items) :
    IsRecord layout (.list items)

/-- The field is one for the slot. -/
def Slot.Takes (slot : Slot) (field : String × Value) : Prop :=
  slot.name = field.1 ∧ slot.Allows field.2

/-- The value is an integer from zero to one less than the bound. -/
def IsBelow (bound : Int) : Value → Prop
  | int value => 0 ≤ value ∧ value < bound
  | _ => False

/-- The value is a truth value. -/
def IsBoolean : Value → Prop
  | bool _ => True
  | _ => False

/-- An entry of an object is found by its name when no other entry has that name. -/
theorem lookup_of_unique {entries : Fields} {name : String} {value : Value}
    (member : (name, value) ∈ entries)
    (unique : ∀ other ∈ entries, other.1 = name → other.2 = value) :
    entries.lookup name = some value := by
  induction entries with
  | nil => cases member
  | cons entry entries ih =>
    rw [List.lookup_cons]
    by_cases same : entry.1 = name
    · have first : entry.2 = value := unique entry (by simp) same
      simp [same, first]
    · have later : (name, value) ∈ entries := by
        cases member with
        | head => exact absurd rfl same
        | tail _ later => exact later
      have differs : (name == entry.1) = false := by simpa using Ne.symm same
      rw [differs]
      exact ih later fun other listed => unique other (List.mem_cons_of_mem entry listed)

/-- Whatever way fields of different names are written down, the value has them. -/
theorem Form.holds {fields : Fields} {value : Value} (form : value.Form fields)
    (distinct : (fields.map Prod.fst).Nodup) : value.Holds fields := by
  cases form with
  | list => exact .list
  | @object entries others order unknown =>
    refine .object fun field listed => lookup_of_unique ?_ fun other present same => ?_
    · exact order.mem_iff.mpr (List.mem_append_left others listed)
    · cases List.mem_append.mp (order.mem_iff.mp present) with
      | inl known =>
        have equal : other = field := List.inj_on_of_nodup_map distinct known listed same
        rw [equal]
      | inr extra =>
        have known : other.1 ∈ fields.map Prod.fst := by
          rw [same]
          exact List.mem_map_of_mem listed
        exact absurd known (unknown other extra)

/-- What a layout allows in an object can be listed as fields. -/
theorem exists_fields_of_entries {layout : List Slot} {entries : Fields}
    (found : ∀ slot ∈ layout,
      ∃ value, entries.lookup slot.name = some value ∧ slot.Allows value) :
    ∃ fields, List.Forall₂ Slot.Takes layout fields ∧
      ∀ field ∈ fields, entries.lookup field.1 = some field.2 := by
  induction layout with
  | nil => exact ⟨[], .nil, by simp⟩
  | cons slot layout ih =>
    obtain ⟨value, there, allowed⟩ := found slot (by simp)
    obtain ⟨fields, taken, present⟩ :=
      ih fun slot listed => found slot (List.mem_cons_of_mem _ listed)
    refine ⟨(slot.name, value) :: fields, .cons ⟨rfl, allowed⟩ taken, ?_⟩
    exact List.forall_mem_cons.mpr ⟨there, present⟩

/-- What a layout allows in a list are the values of fields. -/
theorem exists_fields_of_items {layout : List Slot} {items : List Value}
    (allowed : List.Forall₂ Slot.Allows layout items) :
    ∃ fields, List.Forall₂ Slot.Takes layout fields ∧ fields.map Prod.snd = items := by
  induction allowed with
  | nil => exact ⟨[], .nil, rfl⟩
  | @cons slot item layout items first _ ih =>
    obtain ⟨fields, taken, values⟩ := ih
    exact ⟨(slot.name, item) :: fields, .cons ⟨rfl, first⟩ taken, by simp [values]⟩

/-- Fields of a layout that an object has are what the layout asks of it. -/
theorem found_of_takes {layout : List Slot} {fields entries : Fields}
    (taken : List.Forall₂ Slot.Takes layout fields)
    (present : ∀ field ∈ fields, entries.lookup field.1 = some field.2) :
    ∀ slot ∈ layout, ∃ value, entries.lookup slot.name = some value ∧ slot.Allows value := by
  induction taken with
  | nil => simp
  | @cons slot field layout fields first _ ih =>
    obtain ⟨here, later⟩ := List.forall_mem_cons.mp present
    refine List.forall_mem_cons.mpr ⟨⟨field.2, ?_, first.2⟩, ih later⟩
    rw [first.1]
    exact here

/-- A value is a record when it has some fields that the layout allows. -/
theorem isRecord_iff {layout : List Slot} {value : Value} :
    value.IsRecord layout ↔
      ∃ fields, List.Forall₂ Slot.Takes layout fields ∧ value.Holds fields := by
  constructor
  · intro record
    cases record with
    | object found =>
      obtain ⟨fields, taken, present⟩ := exists_fields_of_entries found
      exact ⟨fields, taken, .object present⟩
    | list allowed =>
      obtain ⟨fields, taken, rfl⟩ := exists_fields_of_items allowed
      exact ⟨fields, taken, .list⟩
  · rintro ⟨fields, taken, holds⟩
    cases holds with
    | object present => exact .object (found_of_takes taken present)
    | list =>
      refine .list (List.forall₂_map_right_iff.mpr (taken.imp ?_))
      exact fun slot field takes => takes.2

/-- The integers below a bound are the numbers that are counted up to it. -/
theorem isBelow_iff {α : Type} {bound : Nat} {toNat : α → Nat}
    (below : ∀ counted, toNat counted < bound)
    (onto : ∀ number < bound, ∃ counted, toNat counted = number) {value : Value} :
    value.IsBelow bound ↔ ∃ counted, value = .int (toNat counted) := by
  constructor
  · intro fits
    cases value with
    | int number =>
      obtain ⟨positive, small⟩ := fits
      obtain ⟨counted, same⟩ := onto number.toNat (by omega)
      refine ⟨counted, congrArg Value.int ?_⟩
      rw [same, Int.toNat_of_nonneg positive]
    | _ => cases fits
  · rintro ⟨counted, rfl⟩
    have small := below counted
    exact ⟨by omega, by omega⟩

/-- The integers below 256 are the numbers of the bytes. -/
theorem isBelow_iff_byte {value : Value} :
    value.IsBelow 256 ↔ ∃ byte : UInt8, value = .int byte.toNat :=
  isBelow_iff UInt8.toNat_lt fun _ small => ⟨_, UInt8.toNat_ofNat_of_lt' small⟩

/-- The integers below 65536 are the numbers of the words. -/
theorem isBelow_iff_word {value : Value} :
    value.IsBelow 65536 ↔ ∃ word : UInt16, value = .int word.toNat :=
  isBelow_iff UInt16.toNat_lt fun _ small => ⟨_, UInt16.toNat_ofNat_of_lt' small⟩

/-- The truth values are those. -/
theorem isBoolean_iff {value : Value} : value.IsBoolean ↔ ∃ found, value = .bool found := by
  cases value <;> simp [IsBoolean]

end Value

variable {ε α β : Type}

/-- A packed value is read where the one that it is packed from is. -/
theorem Codec.read_map_eq_ok {codec : Codec ε α} {pack : α → β} {unpack : β → α}
    (packs : ∀ value, pack (unpack value) = value) (unpacks : ∀ value, unpack (pack value) = value)
    {value : Value} {found : β} :
    (codec.map pack unpack).read value = .ok found ↔ codec.read value = .ok (unpack found) := by
  have packed : ∀ inner, pack inner = found ↔ inner = unpack found := by
    intro inner
    constructor
    · rintro rfl
      exact (unpacks inner).symm
    · rintro rfl
      exact packs found
  simp only [map]
  cases codec.read value with
  | error error => simp [Functor.map, Except.map]
  | ok inner => simp [Functor.map, Except.map, packed]

/-- The given fields have the names of the declared ones, and a value each from which the contents
are read. -/
def Fields.Gives : {α : Type} → Fields ε α → α → Value.Fields → Prop
  | _, nil, _, given => given = []
  | _, cons name codec rest, contents, given =>
    ∃ value others, given = (name, value) :: others ∧ codec.read value = .ok contents.1 ∧
      rest.Gives contents.2 others

namespace Format.Lawful

variable {format : Format ε} {type : String}

/-- A record is read from the entries of an object that has its fields. -/
theorem read_object (lawful : format.Lawful) {fields : Fields ε α}
    (distinct : fields.names.Nodup) (entries : Value.Fields) (contents : α) :
    (format.record type fields).read (.object entries) = .ok contents ↔
      ∃ given, fields.Gives contents given ∧
        ∀ field ∈ given, entries.lookup field.1 = some field.2 := by
  induction fields with
  | nil => simp [Fields.Gives, lawful.read_object_nil]
  | cons name codec rest ih =>
    obtain ⟨first, others⟩ := contents
    obtain ⟨apart, distinct⟩ := List.nodup_cons.mp distinct
    rw [lawful.read_object_cons apart, ih distinct]
    constructor
    · rintro ⟨⟨value, found, read⟩, given, gives, present⟩
      exact ⟨(name, value) :: given, ⟨value, given, rfl, read, gives⟩,
        List.forall_mem_cons.mpr ⟨found, present⟩⟩
    · rintro ⟨-, ⟨value, given, rfl, read, gives⟩, present⟩
      obtain ⟨found, present⟩ := List.forall_mem_cons.mp present
      exact ⟨⟨value, found, read⟩, given, gives, present⟩

/-- A record is read from the list of the values of its fields. -/
theorem read_list (lawful : format.Lawful) (fields : Fields ε α) (items : List Value)
    (contents : α) :
    (format.record type fields).read (.list items) = .ok contents ↔
      ∃ given, fields.Gives contents given ∧ items = given.map Prod.snd := by
  induction fields generalizing items with
  | nil => simp [Fields.Gives, lawful.read_list_nil]
  | cons name codec rest ih =>
    obtain ⟨first, others⟩ := contents
    rw [lawful.read_list_cons]
    constructor
    · rintro ⟨item, later, rfl, read, behind⟩
      obtain ⟨given, gives, rfl⟩ := (ih later others).mp behind
      exact ⟨(name, item) :: given, ⟨item, given, rfl, read, gives⟩, rfl⟩
    · rintro ⟨-, ⟨value, given, rfl, read, gives⟩, rfl⟩
      exact ⟨value, given.map Prod.snd, rfl, read, (ih _ others).mpr ⟨given, gives, rfl⟩⟩

/-- A record of fields with different names is read from the values that have its fields, and from
nothing else. -/
theorem read_record (lawful : format.Lawful) {fields : Fields ε α}
    (distinct : fields.names.Nodup) (value : Value) (contents : α) :
    (format.record type fields).read value = .ok contents ↔
      ∃ given, fields.Gives contents given ∧ value.Holds given := by
  constructor
  · intro read
    rcases lawful.object_or_list_of_read read with ⟨entries, rfl⟩ | ⟨items, rfl⟩
    · obtain ⟨given, gives, present⟩ := (lawful.read_object distinct entries contents).mp read
      exact ⟨given, gives, .object present⟩
    · obtain ⟨given, gives, rfl⟩ := (lawful.read_list fields items contents).mp read
      exact ⟨given, gives, .list⟩
  · rintro ⟨given, gives, holds⟩
    cases holds with
    | object present => exact (lawful.read_object distinct _ contents).mpr ⟨given, gives, present⟩
    | list => exact (lawful.read_list fields _ contents).mpr ⟨given, gives, rfl⟩

end Format.Lawful

end Sm83.Dump
