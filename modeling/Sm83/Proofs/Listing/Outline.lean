import Sm83.Instruction.Text
import Sm83.Proofs.Text.Numeral

/-!
# Outlines of templates

A template with one slot shows a value between characters that do not depend on it. The outline of
a text is what is left of it without its numerals, so it is the same for every value that a template
shows.
-/

namespace Sm83

/-! ## Templates -/

namespace Text

/-- The characters of a template around a value. -/
def chars (value : Option UInt16) (template : List Piece) : List Char :=
  template.flatMap fun piece => (piece.text value).toList

/-- The slot that a part of a template is. -/
def Piece.slot? : Piece → Option Slot
  | words _ => none
  | slot kind => some kind

/-- The slots of a template. -/
def slots (template : List Piece) : List Slot := template.filterMap Piece.slot?

/-- The number of bytes that a slot shows. -/
def Slot.size : Slot → Nat
  | byte | page | offset | addedOffset => 1
  | word | address => 2

/-- A template without a slot shows no value. -/
theorem chars_of_slots_eq_nil {template : List Piece} (fixed : slots template = [])
    (value other : Option UInt16) : chars value template = chars other template := by
  induction template with
  | nil => rfl
  | cons piece rest ih =>
    cases piece with
    | words text => exact congrArg (text.toList ++ ·) (ih fixed)
    | slot kind => exact absurd fixed (List.cons_ne_nil _ _)

/-- A template with one slot shows a value between characters that do not depend on it. -/
theorem exists_chars_of_slots_eq_singleton {template : List Piece} {kind : Slot}
    (single : slots template = [kind]) :
    ∃ before after, ∀ value, chars (some value) template =
      before ++ (kind.fill value).toList ++ after := by
  induction template with
  | nil => exact absurd single.symm (List.cons_ne_nil _ _)
  | cons piece rest ih =>
    cases piece with
    | words text =>
      obtain ⟨before, after, around⟩ := ih single
      refine ⟨text.toList ++ before, after, fun value => ?_⟩
      rw [List.append_assoc, List.append_assoc, ← List.append_assoc before, ← around]
      rfl
    | slot other =>
      obtain ⟨rfl, fixed⟩ : other = kind ∧ slots rest = [] := List.cons.inj single
      refine ⟨[], chars none rest, fun value => ?_⟩
      rw [chars_of_slots_eq_nil fixed none (some value)]
      rfl

/-- Around two values, a template with one slot differs in what the slot shows. -/
theorem fill_eq_of_chars_eq {template : List Piece} {kind : Slot} {value other : UInt16}
    (single : slots template = [kind])
    (same : chars (some value) template = chars (some other) template) :
    kind.fill value = kind.fill other := by
  obtain ⟨before, after, around⟩ := exists_chars_of_slots_eq_singleton single
  rw [around, around] at same
  exact String.toList_inj.mp (List.append_cancel_left (List.append_cancel_right same))

/-- What a slot shows tells the bytes that it shows. -/
theorem Slot.eq_of_fill_eq {kind : Slot} {value other : UInt16}
    (same : kind.fill value = kind.fill other) :
    Word.low value = Word.low other ∧ (kind.size = 2 → value = other) := by
  cases kind with
  | byte | page =>
    have shown := hexByte_injective (String.append_right_inj "$" |>.mp same)
    exact ⟨shown, fun double => absurd double (by decide)⟩
  | word | address =>
    have shown := hexWord_injective (String.append_right_inj "$" |>.mp same)
    exact ⟨congrArg Word.low shown, fun _ => shown⟩
  | offset | addedOffset =>
    exact ⟨signedOffset_injective same, fun double => absurd double (by decide)⟩

/-! ## Outlines -/

/-- Whether a character opens a numeral, as the mark of a hexadecimal one or as a sign. -/
def opensNumeral (char : Char) : Bool := char = '$' || char = '+' || char = '-'

/-- What the outline keeps of a character behind the opening of a numeral: no digit, and of a sign
only that it is one. -/
def trace (char : Char) : Option Char :=
  if isDigit char then none else if char = '-' then some '+' else some char

/-- The outline of a text: the characters up to its first numeral, and the traces of the others. -/
def outline : List Char → List Char
  | [] => []
  | char :: rest =>
    if opensNumeral char then (char :: rest).filterMap trace else char :: outline rest

/-- Digits leave no trace. -/
theorem filterMap_trace_of_digits {text : List Char}
    (digits : ∀ char ∈ text, isDigit char = true) : text.filterMap trace = [] :=
  List.filterMap_eq_nil_iff.mpr fun char listed => if_pos (digits char listed)

/-- Characters in front of two texts leave them alike in outline. -/
theorem outline_append_congr (before : List Char) {text other : List Char}
    (traces : text.filterMap trace = other.filterMap trace)
    (outlines : outline text = outline other) :
    outline (before ++ text) = outline (before ++ other) := by
  induction before with
  | nil => exact outlines
  | cons char rest ih =>
    simp only [List.cons_append, outline]
    split
    · simp only [List.filterMap_cons, List.filterMap_append, traces]
    · rw [ih]

/-- A value is shown as digits behind a character that opens a numeral, which leaves the same trace
for every value. -/
theorem Slot.exists_fill (kind : Slot) : ∃ mark, ∀ value, ∃ opening digits,
    (kind.fill value).toList = opening :: digits ∧ opensNumeral opening = true ∧
      trace opening = some mark ∧ digits.filterMap trace = [] := by
  cases kind with
  | byte | page =>
    refine ⟨'$', fun value => ⟨'$', hexDigits .lower 2 (Word.low value).toNat, ?_, rfl, rfl, ?_⟩⟩
    · exact String.toList_append.trans (congrArg (['$'] ++ ·) String.toList_ofList)
    · exact filterMap_trace_of_digits fun _ => isDigit_of_mem_hexDigits
  | word | address =>
    refine ⟨'$', fun value => ⟨'$', hexDigits .lower 4 value.toNat, ?_, rfl, rfl, ?_⟩⟩
    · exact String.toList_append.trans (congrArg (['$'] ++ ·) String.toList_ofList)
    · exact filterMap_trace_of_digits fun _ => isDigit_of_mem_hexDigits
  | offset | addedOffset =>
    refine ⟨'+', fun value => ?_⟩
    simp only [fill, toList_signedOffset]
    split
    · exact ⟨'+', _, rfl, rfl, rfl, filterMap_trace_of_digits fun _ => isDigit_of_mem_toString⟩
    · exact ⟨'-', _, rfl, rfl, rfl, filterMap_trace_of_digits fun _ => isDigit_of_mem_toString⟩

/-- The outline of a template is the same around every value, and so are the traces. -/
theorem outline_chars (template : List Piece) (value other : UInt16) :
    (chars (some value) template).filterMap trace = (chars (some other) template).filterMap trace ∧
      outline (chars (some value) template) = outline (chars (some other) template) := by
  induction template with
  | nil => exact ⟨rfl, rfl⟩
  | cons piece rest ih =>
    obtain ⟨traces, outlines⟩ := ih
    have split : ∀ value, chars (some value) (piece :: rest) =
        (piece.text (some value)).toList ++ chars (some value) rest := fun _ => rfl
    rw [split, split]
    cases piece with
    | words text =>
      refine ⟨?_, outline_append_congr text.toList traces outlines⟩
      exact (List.filterMap_append ..).trans
        ((congrArg _ traces).trans (List.filterMap_append ..).symm)
    | slot kind =>
      obtain ⟨mark, shown⟩ := kind.exists_fill
      obtain ⟨opening, digits, fill, opens, kept, dropped⟩ := shown value
      obtain ⟨opening', digits', fill', opens', kept', dropped'⟩ := shown other
      have left : (Piece.text (some value) (.slot kind)).toList = opening :: digits := fill
      have right : (Piece.text (some other) (.slot kind)).toList = opening' :: digits' := fill'
      have behind : ((opening :: digits) ++ chars (some value) rest).filterMap trace =
          ((opening' :: digits') ++ chars (some other) rest).filterMap trace := by
        simp only [List.filterMap_append, List.filterMap_cons, kept, kept', dropped, dropped',
          traces]
      rw [left, right]
      refine ⟨behind, ?_⟩
      rw [List.cons_append, List.cons_append, outline, outline, if_pos opens, if_pos opens']
      exact behind

end Text

end Sm83
