/-!
# Numerals

Hexadecimal numerals, of a fixed width or as short as possible, and the signed decimal numeral of a
byte offset.
-/

namespace Sm83.Text

/-- The two spellings of the hexadecimal digits above nine. -/
inductive LetterCase where
  | lower
  | upper
deriving DecidableEq, Repr

/-- The hexadecimal digit of a value below sixteen. -/
def hexDigit (letters : LetterCase) (value : Nat) : Char :=
  if value < 10 then
    Char.ofNat (value + '0'.toNat)
  else
    match letters with
    | .lower => Char.ofNat (value - 10 + 'a'.toNat)
    | .upper => Char.ofNat (value - 10 + 'A'.toNat)

/-- The last `width` hexadecimal digits of a number, most significant first. -/
def hexDigits (letters : LetterCase) : (width : Nat) → (value : Nat) → List Char
  | 0, _ => []
  | width + 1, value =>
    hexDigits letters width (value / 16) ++ [hexDigit letters (value % 16)]

/-- Two lower-case hexadecimal digits. -/
def hexByte (byte : UInt8) : String := String.ofList (hexDigits .lower 2 byte.toNat)

/-- Four lower-case hexadecimal digits. -/
def hexWord (word : UInt16) : String := String.ofList (hexDigits .lower 4 word.toNat)

/-- Two upper-case hexadecimal digits. -/
def upperHexByte (byte : UInt8) : String := String.ofList (hexDigits .upper 2 byte.toNat)

/-- Four upper-case hexadecimal digits. -/
def upperHexWord (word : UInt16) : String := String.ofList (hexDigits .upper 4 word.toNat)

/-- A number in lower-case hexadecimal without leading zeros. -/
def hexNumeral (value : Nat) : String := String.ofList (Nat.toDigits 16 value)

/-- A byte offset in decimal, its sign always written. -/
def signedOffset (byte : UInt8) : String :=
  if byte < 0x80 then
    "+" ++ toString byte.toNat
  else
    "-" ++ toString (256 - byte.toNat)

end Sm83.Text
