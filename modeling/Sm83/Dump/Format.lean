import Sm83.Dump.Value

/-!
# Formats

A type is dumped as it is declared: as a record of named fields, or as a choice between names. How
a declaration turns into a writer and a reader is up to a format, which is a parameter of all
dumps. What is relied on of a format are its laws, a predicate of it: numbers and truth values stand
for themselves, a record is written as an object and read from an object, field by field and
whatever else the object has, or from the list of its fields, element by element. Nothing is known
of the errors.
-/

namespace Sm83.Dump

variable {ε α β : Type}

/-- How the values of a type are written down, and how they are read back. -/
structure Codec (ε α : Type) where
  /-- The value that is written. -/
  write : α → Value
  /-- What a value is read as, if it is. -/
  read : Value → Except ε α

/-- The codec of a type whose values are those of another one, packed. -/
def Codec.map (codec : Codec ε α) (pack : α → β) (unpack : β → α) : Codec ε β where
  write value := codec.write (unpack value)
  read value := pack <$> codec.read value

/-- The fields that a record is declared with, in order: their names and the codecs of their
types. -/
inductive Fields (ε : Type) : Type → Type 1 where
  | nil : Fields ε Unit
  | cons {α β : Type} (name : String) (codec : Codec ε α) (rest : Fields ε β) : Fields ε (α × β)

namespace Fields

/-- The names of the fields. -/
def names : {α : Type} → Fields ε α → List String
  | _, nil => []
  | _, cons name _ rest => name :: rest.names

/-- The names of the fields with what is written of their contents. -/
def entries : {α : Type} → Fields ε α → α → List (String × Value)
  | _, nil, _ => []
  | _, cons name codec rest, (first, others) => (name, codec.write first) :: rest.entries others

end Fields

/-- A format: codecs of numbers and truth values, and a codec of every type that is declared as a
choice between named values or as a record. -/
structure Format (ε : Type) where
  /-- Bytes. -/
  byte : Codec ε UInt8
  /-- Words. -/
  word : Codec ε UInt16
  /-- Truth values. -/
  boolean : Codec ε Bool
  /-- A choice between named values. -/
  choice {α : Type} (type : String) (all : List α) (name : α → String) : Codec ε α
  /-- A record. -/
  record {α : Type} (type : String) (fields : Fields ε α) : Codec ε α

/-- What is relied on of a format. -/
structure Format.Lawful (format : Format ε) : Prop where
  /-- A byte is written as its number. -/
  write_byte (byte : UInt8) : format.byte.write byte = .int byte.toNat
  /-- A word is written as its number. -/
  write_word (word : UInt16) : format.word.write word = .int word.toNat
  /-- A truth value is written as itself. -/
  write_boolean (value : Bool) : format.boolean.write value = .bool value
  /-- A byte is read from its number, and from nothing else. -/
  read_byte {value : Value} {byte : UInt8} :
    format.byte.read value = .ok byte ↔ value = .int byte.toNat
  /-- A word is read from its number, and from nothing else. -/
  read_word {value : Value} {word : UInt16} :
    format.word.read value = .ok word ↔ value = .int word.toNat
  /-- A truth value is read from itself, and from nothing else. -/
  read_boolean {value : Value} {found : Bool} :
    format.boolean.read value = .ok found ↔ value = .bool found
  /-- A named value is written as its name. -/
  write_choice {α : Type} (type : String) (all : List α) (name : α → String) (chosen : α) :
    (format.choice type all name).write chosen = .string (name chosen)
  /-- A named value is read from its name. -/
  read_choice_string {α : Type} {type : String} {all : List α} {name : α → String}
    (distinct : (all.map name).Nodup) {text : String} {chosen : α} :
    (format.choice type all name).read (.string text) = .ok chosen ↔
      chosen ∈ all ∧ name chosen = text
  /-- A named value is read from an object that has its name, nothing under it and no other
  name. -/
  read_choice_object {α : Type} {type : String} {all : List α} {name : α → String}
    (distinct : (all.map name).Nodup) {entries : List (String × Value)}
    (proper : (entries.map Prod.fst).Nodup) {chosen : α} :
    (format.choice type all name).read (.object entries) = .ok chosen ↔
      chosen ∈ all ∧ entries = [(name chosen, .null)]
  /-- A named value is read from nothing else than strings and objects. -/
  string_or_object_of_read {α : Type} {type : String} {all : List α} {name : α → String}
    {value : Value} {chosen : α} (read : (format.choice type all name).read value = .ok chosen) :
    (∃ text, value = .string text) ∨ ∃ entries, value = .object entries
  /-- A record of fields with different names is written as an object with the fields as entries,
  in some order. -/
  write_record {α : Type} (type : String) {fields : Fields ε α} (distinct : fields.names.Nodup)
    (contents : α) :
    ∃ entries, (format.record type fields).write contents = .object entries ∧
      entries.Perm (fields.entries contents)
  /-- A record without fields is read from every object. -/
  read_object_nil (type : String) (entries : List (String × Value)) :
    (format.record type .nil).read (.object entries) = .ok ()
  /-- A record is read from an object if its first field is read from the entry of its name and
  the others, which have other names, are read from the same object. -/
  read_object_cons {α β : Type} {type name : String} {codec : Codec ε α} {rest : Fields ε β}
    (apart : name ∉ rest.names) {entries : List (String × Value)} {first : α} {others : β} :
    (format.record type (.cons name codec rest)).read (.object entries) = .ok (first, others) ↔
      (∃ value, entries.lookup name = some value ∧ codec.read value = .ok first) ∧
        (format.record type rest).read (.object entries) = .ok others
  /-- A record without fields is read from the empty list, and from no other list. -/
  read_list_nil {type : String} {items : List Value} :
    (format.record type .nil).read (.list items) = .ok () ↔ items = []
  /-- A record is read from a list if its first field is read from the first element and the
  others are read from the list behind it. -/
  read_list_cons {α β : Type} {type name : String} {codec : Codec ε α} {rest : Fields ε β}
    {items : List Value} {first : α} {others : β} :
    (format.record type (.cons name codec rest)).read (.list items) = .ok (first, others) ↔
      ∃ item later, items = item :: later ∧ codec.read item = .ok first ∧
        (format.record type rest).read (.list later) = .ok others
  /-- A record is read from nothing else than objects and lists. -/
  object_or_list_of_read {α : Type} {type : String} {fields : Fields ε α} {value : Value}
    {contents : α} (read : (format.record type fields).read value = .ok contents) :
    (∃ entries, value = .object entries) ∨ ∃ items, value = .list items

end Sm83.Dump
