import Sm83.Dump.RegisterFile
import Sm83.Proofs.Dump.Record
import Sm83.Proofs.Dump.Standard

/-!
# Register files in dump values

In every lawful format a register file is read back from its dump, and from every other way of
writing down its fields, and from nothing else.
-/

namespace Sm83

open Dump

variable {ε : Type} {format : Format ε}

namespace Flags

/-- The fields of the flags. -/
def fields (flags : Flags) : Value.Fields :=
  [("z", .bool flags.z), ("n", .bool flags.n), ("h", .bool flags.h), ("c", .bool flags.c)]

/-- What the fields of flags may be. -/
def layout : List Value.Slot :=
  [⟨"z", Value.IsBoolean⟩, ⟨"n", Value.IsBoolean⟩, ⟨"h", Value.IsBoolean⟩, ⟨"c", Value.IsBoolean⟩]

/-- The fields of flags have different names. -/
theorem distinct_names (format : Format ε) : (declared format).names.Nodup := by
  simp [declared, Fields.names]

/-- Flags are written as an object of their fields. -/
theorem write_codec (lawful : format.Lawful) (flags : Flags) :
    ∃ entries, (codec format).write flags = .object entries ∧ entries.Perm flags.fields := by
  obtain ⟨entries, written, order⟩ := lawful.write_record "Flags" (distinct_names format) _
  refine ⟨entries, written, order.trans (.of_eq ?_)⟩
  simp only [declared, Fields.entries, lawful.write_boolean, fields]

/-- Flags are read from the values that have their fields. -/
theorem read_codec (lawful : format.Lawful) (value : Value) (flags : Flags) :
    (codec format).read value = .ok flags ↔ value.Holds flags.fields := by
  rw [codec, Codec.read_map_eq_ok (fun _ => rfl) (fun _ => rfl),
    lawful.read_record (distinct_names format)]
  simp only [declared, Fields.Gives, lawful.read_boolean, fields, ↓existsAndEq, and_true,
    true_and]

/-- The fields that the layout of flags allows are those of some flags. -/
theorem takes_iff {given : Value.Fields} :
    List.Forall₂ Value.Slot.Takes layout given ↔ ∃ flags : Flags, given = flags.fields := by
  simp only [layout, List.forall₂_cons_left_iff, List.forall₂_nil_left_iff, Value.Slot.Takes,
    Value.isBoolean_iff, Prod.exists, ↓existsAndEq, and_true, true_and]
  constructor
  · rintro ⟨c, h, n, z, rfl⟩
    exact ⟨⟨z, n, h, c⟩, rfl⟩
  · rintro ⟨flags, rfl⟩
    exact ⟨flags.c, flags.h, flags.n, flags.z, rfl⟩

/-- The records of the layout are the values that have the fields of some flags. -/
theorem isRecord_iff {value : Value} :
    value.IsRecord layout ↔ ∃ flags : Flags, value.Holds flags.fields := by
  simp only [Value.isRecord_iff, takes_iff, ↓existsAndEq, true_and]

end Flags

namespace RegisterFile

/-- The fields of a register file, with the value that its flags are written as. -/
def fields (regs : RegisterFile) (flags : Value) : Value.Fields :=
  let byte (byte : UInt8) : Value := .int byte.toNat
  let word (word : UInt16) : Value := .int word.toNat
  [("a", byte regs.a), ("f", flags), ("b", byte regs.b), ("c", byte regs.c), ("d", byte regs.d),
    ("e", byte regs.e), ("h", byte regs.h), ("l", byte regs.l), ("sp", word regs.sp),
    ("pc", word regs.pc), ("ime", .bool regs.ime), ("ime_pending", .bool regs.imePending),
    ("halted", .bool regs.halted)]

/-- What the fields of a register file may be. -/
def layout : List Value.Slot :=
  let byte : Value → Prop := Value.IsBelow 256
  let word : Value → Prop := Value.IsBelow 65536
  let boolean : Value → Prop := Value.IsBoolean
  [⟨"a", byte⟩, ⟨"f", Value.IsRecord Flags.layout⟩, ⟨"b", byte⟩, ⟨"c", byte⟩, ⟨"d", byte⟩,
    ⟨"e", byte⟩, ⟨"h", byte⟩, ⟨"l", byte⟩, ⟨"sp", word⟩, ⟨"pc", word⟩, ⟨"ime", boolean⟩,
    ⟨"ime_pending", boolean⟩, ⟨"halted", boolean⟩]

/-- The fields of a register file have different names. -/
theorem distinct_names (format : Format ε) : (declared format).names.Nodup := by
  simp [declared, Fields.names]

/-- A register file is written as an object of its fields, with its flags as they are written. -/
theorem write_codec (lawful : format.Lawful) (regs : RegisterFile) :
    ∃ entries, (codec format).write regs = .object entries ∧
      entries.Perm (regs.fields ((Flags.codec format).write regs.f)) := by
  obtain ⟨entries, written, order⟩ := lawful.write_record "Registers" (distinct_names format) _
  refine ⟨entries, written, order.trans (.of_eq ?_)⟩
  simp only [declared, Fields.entries, lawful.write_byte, lawful.write_word,
    lawful.write_boolean, fields]

/-- A register file is read from the values that have its fields, with its flags written as any
value that has theirs. -/
theorem read_codec (lawful : format.Lawful) (value : Value) (regs : RegisterFile) :
    (codec format).read value = .ok regs ↔
      ∃ flags, flags.Holds regs.f.fields ∧ value.Holds (regs.fields flags) := by
  rw [codec, Codec.read_map_eq_ok (fun _ => rfl) (fun _ => rfl),
    lawful.read_record (distinct_names format)]
  simp only [declared, Fields.Gives, lawful.read_byte, lawful.read_word, lawful.read_boolean,
    Flags.read_codec lawful, fields, ↓existsAndEq, and_true, true_and]

/-- The fields that the layout of register files allows are those of some register file. -/
theorem takes_iff {given : Value.Fields} :
    List.Forall₂ Value.Slot.Takes layout given ↔
      ∃ (regs : RegisterFile) (flags : Value),
        flags.Holds regs.f.fields ∧ given = regs.fields flags := by
  simp only [layout, List.forall₂_cons_left_iff, List.forall₂_nil_left_iff, Value.Slot.Takes,
    Value.isBelow_iff_byte, Value.isBelow_iff_word, Value.isBoolean_iff, Flags.isRecord_iff,
    Prod.exists, ↓existsAndEq, and_true, true_and]
  constructor
  · rintro ⟨flags, halted, imePending, ime, pc, sp, l, h, e, d, c, b, a, ⟨f, holds⟩, rfl⟩
    exact ⟨{ a, f, b, c, d, e, h, l, sp, pc, ime, imePending, halted }, flags, holds, rfl⟩
  · rintro ⟨⟨a, f, b, c, d, e, h, l, sp, pc, ime, imePending, halted⟩, flags, holds, rfl⟩
    exact ⟨flags, halted, imePending, ime, pc, sp, l, h, e, d, c, b, a, ⟨f, holds⟩, rfl⟩

/-- The records of the layout are the values that have the fields of some register file. -/
theorem isRecord_iff {value : Value} :
    value.IsRecord layout ↔
      ∃ (regs : RegisterFile) (flags : Value),
        flags.Holds regs.f.fields ∧ value.Holds (regs.fields flags) := by
  rw [Value.isRecord_iff]
  constructor
  · rintro ⟨given, taken, holds⟩
    obtain ⟨regs, flags, flagsHold, rfl⟩ := takes_iff.mp taken
    exact ⟨regs, flags, flagsHold, holds⟩
  · rintro ⟨regs, flags, flagsHold, holds⟩
    exact ⟨regs.fields flags, takes_iff.mpr ⟨regs, flags, flagsHold, rfl⟩, holds⟩

/-- A register file is read from every way of writing down its fields and its flags. -/
theorem read_of_form (lawful : format.Lawful) {regs : RegisterFile} {flags value : Value}
    (flagsForm : flags.Form regs.f.fields) (form : value.Form (regs.fields flags)) :
    (codec format).read value = .ok regs := by
  have flagsHold : flags.Holds regs.f.fields := flagsForm.holds (by simp [Flags.fields])
  have holds : value.Holds (regs.fields flags) := form.holds (by simp [fields])
  exact (read_codec lawful value regs).mpr ⟨flags, flagsHold, holds⟩

/-- A register file is read back as it was written. -/
theorem read_write (lawful : format.Lawful) (regs : RegisterFile) :
    (codec format).read ((codec format).write regs) = .ok regs := by
  obtain ⟨flags, flagsWritten, flagsOrder⟩ := Flags.write_codec lawful regs.f
  obtain ⟨entries, written, order⟩ := write_codec lawful regs
  rw [written]
  rw [flagsWritten] at order
  exact read_of_form lawful (.of_perm flagsOrder) (.of_perm order)

/-- In every lawful format register files are read from what they can be written down as and from
nothing else. A register file is dumped as an object of its fields, with its flags as an object of
theirs, and it is read from that, and from whatever its fields can be written down as, with the
flags in it in any such form of their own. Some register file is read from a value exactly when the
value is a record of the layout, and it is the one whose fields the value has. So a register file
that was read is read again from its own dump. -/
theorem codec_exact (format : Format ε) (lawful : format.Lawful) :
    let write := (codec format).write
    let read := (codec format).read
    (∀ regs : RegisterFile, ∃ entries flags, write regs = .object entries ∧
        entries.Perm (regs.fields (.object flags)) ∧ flags.Perm regs.f.fields) ∧
      (∀ regs : RegisterFile, read (write regs) = .ok regs) ∧
      (∀ (regs : RegisterFile) (flags value : Value),
        flags.Form regs.f.fields → value.Form (regs.fields flags) → read value = .ok regs) ∧
      (∀ value : Value, (∃ regs, read value = .ok regs) ↔ value.IsRecord layout) ∧
      (∀ (value : Value) (regs : RegisterFile), read value = .ok regs ↔
        ∃ flags, flags.Holds regs.f.fields ∧ value.Holds (regs.fields flags)) ∧
      ∀ value : Value, (do let regs ← read value; read (write regs)) = read value := by
  intro write read
  refine ⟨?_, read_write lawful, ?_, ?_, read_codec lawful, ?_⟩
  · intro regs
    obtain ⟨flags, flagsWritten, flagsOrder⟩ := Flags.write_codec lawful regs.f
    obtain ⟨entries, written, order⟩ := write_codec lawful regs
    rw [flagsWritten] at order
    exact ⟨entries, flags, written, order, flagsOrder⟩
  · intro regs flags value flagsForm form
    exact read_of_form lawful flagsForm form
  · intro value
    rw [isRecord_iff]
    exact exists_congr fun regs => read_codec lawful value regs
  · intro value
    cases found : read value with
    | error error => rfl
    | ok regs => exact read_write lawful regs

/-- The registers of a machine that has booted are read with their flags as a list and behind a
field that is not theirs. -/
theorem codec_behind_unknown :
    let regs := RegisterFile.afterBoot .dmg0
    let flags : Value := .list [.bool regs.f.z, .bool regs.f.n, .bool regs.f.h, .bool regs.f.c]
    Format.standard.Lawful ∧
      (codec Format.standard).read (.object (("model", .string "DMG0") :: regs.fields flags)) =
        .ok regs := by
  intro regs flags
  have order : (("model", .string "DMG0") :: regs.fields flags).Perm
      (regs.fields flags ++ [("model", .string "DMG0")]) :=
    (List.perm_append_singleton _ _).symm
  have unknown : ∀ other ∈ [("model", Value.string "DMG0")],
      other.1 ∉ (regs.fields flags).map Prod.fst := by
    simp [fields]
  obtain ⟨-, -, forms, -⟩ := codec_exact Format.standard Format.standard_lawful
  exact ⟨Format.standard_lawful, forms regs flags _ .list (.object order unknown)⟩

end RegisterFile

namespace Model

/-- A model is read from its name, alone or as the only one in an object with nothing under it. -/
theorem read_codec (lawful : format.Lawful) {value : Value}
    (proper : ∀ entries, value = .object entries → (entries.map Prod.fst).Nodup) (model : Model) :
    (codec format).read value = .ok model ↔
      value = .string model.text ∨ value = .object [(model.text, .null)] := by
  have distinct : (all.map text).Nodup := by decide
  have listed : model ∈ all := by cases model <;> decide
  constructor
  · intro read
    rcases lawful.string_or_object_of_read read with ⟨name, rfl⟩ | ⟨entries, rfl⟩
    · obtain ⟨-, rfl⟩ := (lawful.read_choice_string distinct).mp read
      exact .inl rfl
    · obtain ⟨-, rfl⟩ := (lawful.read_choice_object distinct (proper entries rfl)).mp read
      exact .inr rfl
  · rintro (rfl | rfl)
    · exact (lawful.read_choice_string distinct).mpr ⟨listed, rfl⟩
    · exact (lawful.read_choice_object distinct (by simp)).mpr ⟨listed, rfl⟩

end Model

end Sm83
