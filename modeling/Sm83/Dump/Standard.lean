import Sm83.Dump.Format
import Sm83.Text.Quoted

/-!
# The standard format

A format with errors that say what is wrong with a value. In an object every field that is present
is checked, in the order of the names, before an absent one is reported.
-/

namespace Sm83.Dump

/-- What a reader expects. -/
inductive Expected where
  | byte
  | word
  | boolean
  | unit
  | choice
  | record (type : String)
deriving DecidableEq, Repr

/-- Why a value was not read. -/
inductive Error where
  /-- The value is of another kind. -/
  | wrongKind (found : Value) (expected : Expected)
  /-- The number does not fit. -/
  | outOfRange (value : Int) (expected : Expected)
  /-- A field is absent. -/
  | missingField (name : String)
  /-- The list is too short. -/
  | tooShort (length : Nat) (expected : Expected) (size : Nat)
  /-- The list is too long. -/
  | tooLong (length : Nat)
  /-- There is no such name. -/
  | unknownVariant (name : String) (known : List String)
  /-- A name was to be given by the only key of an object. -/
  | notOneKey
deriving Repr

/-! ## What an error says -/

/-- How an error names a value that it did not expect. -/
def Value.describe : Value → String
  | null => "null"
  | bool value => "boolean `" ++ toString value ++ "`"
  | int value => "integer `" ++ toString value ++ "`"
  | real numeral => "floating point `" ++ numeral ++ "`"
  | string text => "string " ++ Text.quoted text
  | list _ => "sequence"
  | object _ => "map"

/-- How an error names what was expected. -/
def Expected.text : Expected → String
  | byte => "u8"
  | word => "u16"
  | boolean => "a boolean"
  | unit => "unit"
  | choice => "string or map"
  | record type => "struct " ++ type

/-- What an error says. -/
def Error.message : Error → String
  | wrongKind found expected =>
    "invalid type: " ++ found.describe ++ ", expected " ++ expected.text
  | outOfRange value expected =>
    "invalid value: integer `" ++ toString value ++ "`, expected " ++ expected.text
  | missingField name => "missing field `" ++ name ++ "`"
  | tooShort length expected size =>
    "invalid length " ++ toString length ++ ", expected " ++ expected.text ++ " with " ++
      toString size ++ " elements"
  | tooLong length =>
    "invalid length " ++ toString length ++ ", expected fewer elements in array"
  | unknownVariant name known =>
    "unknown variant `" ++ name ++ "`, expected one of " ++
      ", ".intercalate (known.map fun name => "`" ++ name ++ "`")
  | notOneKey => "invalid value: map, expected map with a single key"

/-! ## Records -/

namespace Fields

variable {α : Type}

/-- The names of the fields, each with what is to be checked of a value under it. -/
def checks : {α : Type} → Fields Error α → List (String × (Value → Except Error Unit))
  | _, nil => []
  | _, cons name codec rest => (name, fun value => discard (codec.read value)) :: rest.checks

/-- Check what an object has under the names of the fields, in the order of the names. -/
def check (fields : Fields Error α) (entries : List (String × Value)) : Except Error Unit :=
  (fields.checks.mergeSort fun first second => first.1 ≤ second.1).forM fun (name, check) =>
    match entries.lookup name with
    | none => return ()
    | some value => check value

/-- The contents of the fields in the entries of an object. -/
def ofEntries : {α : Type} → Fields Error α → List (String × Value) → Except Error α
  | _, nil, _ => return ()
  | _, cons name codec rest, entries => do
    match entries.lookup name with
    | none => throw (.missingField name)
    | some value => return (← codec.read value, ← rest.ofEntries entries)

/-- The contents of the fields in the elements of a list, with the errors of one that is too short
or too long. -/
def ofItems (short long : Error) : {α : Type} → Fields Error α → List Value → Except Error α
  | _, nil, [] => return ()
  | _, nil, _ :: _ => throw long
  | _, cons _ _ _, [] => throw short
  | _, cons _ codec rest, item :: items =>
    return (← codec.read item, ← rest.ofItems short long items)

end Fields

/-! ## The format -/

namespace Format

/-- Numbers below a bound, and how they are made and counted. -/
def number {α : Type} (expected : Expected) (bound : Nat) (ofNat : Nat → α) (toNat : α → Nat) :
    Codec Error α where
  write value := .int (toNat value)
  read
    | .int value =>
      if 0 ≤ value ∧ value < bound then return ofNat value.toNat
      else throw (.outOfRange value expected)
    | found => throw (.wrongKind found expected)

/-- The named value of a name. -/
def named {α : Type} (all : List α) (name : α → String) (text : String) : Except Error α :=
  match all.find? fun chosen => name chosen == text with
  | some chosen => return chosen
  | none => throw (.unknownVariant text (all.map name))

/-- A value that carries nothing. -/
def nothing : Value → Except Error Unit
  | .null => return ()
  | found => throw (.wrongKind found .unit)

/-- The format whose errors say what is wrong. -/
def standard : Format Error where
  byte := number .byte 256 UInt8.ofNat UInt8.toNat
  word := number .word 65536 UInt16.ofNat UInt16.toNat
  boolean :=
    { write := .bool
      read := fun
        | .bool value => return value
        | found => throw (.wrongKind found .boolean) }
  choice _ all name :=
    { write := fun chosen => .string (name chosen)
      read := fun
        | .string text => named all name text
        | .object [(text, value)] => do
          let chosen ← named all name text
          nothing value
          return chosen
        | .object _ => throw .notOneKey
        | found => throw (.wrongKind found .choice) }
  record type fields :=
    { write := fun contents => .object (fields.entries contents)
      read := fun
        | .object entries => do
          fields.check entries
          fields.ofEntries entries
        | .list items =>
          let short : Error := .tooShort items.length (.record type) fields.names.length
          fields.ofItems short (.tooLong items.length) items
        | found => throw (.wrongKind found (.record type)) }

end Format

end Sm83.Dump
