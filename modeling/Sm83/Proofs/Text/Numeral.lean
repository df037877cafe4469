import Sm83.Text.Numeral
import Mathlib.Algebra.Group.Nat.Defs
import Mathlib.Logic.Function.Basic

/-!
# Numerals read back

A numeral of a fixed width tells the number modulo the power of its base, and the signed numeral of
an offset tells the byte. Both are written in digits behind the sign that opens them.
-/

namespace Sm83.Text

/-! ## Digits -/

/-- Whether a character is a digit of a decimal or of a lower-case hexadecimal numeral. -/
def isDigit (char : Char) : Bool := char.isDigit || ('a' ≤ char && char ≤ 'f')

/-- Below sixteen, different values have different digits. -/
theorem hexDigit_inj (letters : LetterCase) :
    ∀ value < 16, ∀ other < 16,
      hexDigit letters value = hexDigit letters other → value = other := by
  cases letters <;> decide

/-- Below sixteen, a value has a digit. -/
theorem isDigit_hexDigit : ∀ value < 16, isDigit (hexDigit .lower value) = true := by
  decide

/-- A numeral of a fixed width is written in digits. -/
theorem isDigit_of_mem_hexDigits {width value : Nat} {char : Char}
    (listed : char ∈ hexDigits .lower width value) : isDigit char = true := by
  induction width generalizing value with
  | zero => exact absurd listed List.not_mem_nil
  | succ width ih =>
    rcases List.mem_append.mp listed with before | last
    · exact ih before
    · rw [List.mem_singleton.mp last]
      exact isDigit_hexDigit _ (Nat.mod_lt value (by decide))

/-- A decimal numeral is written in digits. -/
theorem isDigit_of_mem_toString {value : Nat} {char : Char}
    (listed : char ∈ (toString value).toList) : isDigit char = true := by
  rw [Nat.toString_eq_repr, Nat.toList_repr] at listed
  have decimal : char.isDigit = true :=
    Nat.isDigit_of_mem_toDigits (by decide) (by decide) listed
  rw [isDigit, decimal, Bool.true_or]

/-! ## Injectivity -/

/-- A numeral of a fixed width tells the number modulo the power of its base. -/
theorem mod_eq_of_hexDigits_eq {letters : LetterCase} {width value other : Nat}
    (same : hexDigits letters width value = hexDigits letters width other) :
    value % 16 ^ width = other % 16 ^ width := by
  induction width generalizing value other with
  | zero => rw [Nat.pow_zero, Nat.mod_one, Nat.mod_one]
  | succ width ih =>
    obtain ⟨before, last⟩ := List.append_inj' same rfl
    have units : value % 16 = other % 16 :=
      hexDigit_inj letters _ (Nat.mod_lt value (by decide)) _ (Nat.mod_lt other (by decide))
        (List.singleton_inj.mp last)
    rw [Nat.pow_succ', Nat.mod_mul, Nat.mod_mul, units, ih before]

/-- Two digits tell a byte. -/
theorem hexByte_injective : Function.Injective hexByte := by
  intro byte other same
  have remainder : byte.toNat % 256 = other.toNat % 256 :=
    mod_eq_of_hexDigits_eq (String.ofList_inj.mp same)
  rw [Nat.mod_eq_of_lt byte.toNat_lt, Nat.mod_eq_of_lt other.toNat_lt] at remainder
  exact UInt8.toNat_inj.mp remainder

/-- Four digits tell a word. -/
theorem hexWord_injective : Function.Injective hexWord := by
  intro word other same
  have remainder : word.toNat % 65536 = other.toNat % 65536 :=
    mod_eq_of_hexDigits_eq (String.ofList_inj.mp same)
  rw [Nat.mod_eq_of_lt word.toNat_lt, Nat.mod_eq_of_lt other.toNat_lt] at remainder
  exact UInt16.toNat_inj.mp remainder

/-- A decimal numeral tells the number. -/
theorem toString_nat_injective : Function.Injective (toString : Nat → String) := by
  intro value other same
  have digits : Nat.toDigits 10 value = Nat.toDigits 10 other := by
    rw [← Nat.toList_repr, ← Nat.toList_repr, ← Nat.toString_eq_repr, same, Nat.toString_eq_repr]
  have read : Nat.ofDigitChars 10 (Nat.toDigits 10 value) 0 =
      Nat.ofDigitChars 10 (Nat.toDigits 10 other) 0 := by rw [digits]
  rwa [Nat.ofDigitChars_ten_toDigits, Nat.ofDigitChars_ten_toDigits] at read

/-- The sign of an offset and the number behind it. -/
theorem toList_signedOffset (byte : UInt8) :
    (signedOffset byte).toList =
      if byte < 0x80 then '+' :: (toString byte.toNat).toList
      else '-' :: (toString (256 - byte.toNat)).toList := by
  unfold signedOffset
  split
  · exact String.toList_append
  · exact String.toList_append

/-- The signed numeral of an offset tells the byte. -/
theorem signedOffset_injective : Function.Injective signedOffset := by
  intro byte other same
  have read := congrArg String.toList same
  have below := byte.toNat_lt
  have below' := other.toNat_lt
  rw [toList_signedOffset, toList_signedOffset] at read
  split at read <;> split at read
  · exact UInt8.toNat_inj.mp (toString_nat_injective (String.toList_inj.mp (List.cons.inj read).2))
  · exact absurd (List.cons.inj read).1 (by decide)
  · exact absurd (List.cons.inj read).1 (by decide)
  · have distances := toString_nat_injective (String.toList_inj.mp (List.cons.inj read).2)
    exact UInt8.toNat_inj.mp (by omega)

end Sm83.Text
