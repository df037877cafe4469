/-!
# Bytes and words

A word has two byte halves. The halves determine the word, the word determines its halves, and a
byte read as a two's complement offset extends its sign into the high half.
-/

namespace Sm83.Word

/-- The upper eight bits of a word. -/
def high (word : UInt16) : UInt8 := (word >>> 8).toUInt8

/-- The lower eight bits of a word. -/
def low (word : UInt16) : UInt8 := word.toUInt8

/-- The word with the given halves. -/
def ofBytes (high low : UInt8) : UInt16 := high.toUInt16 <<< 8 ||| low.toUInt16

/-- A byte as an offset from -128 to 127, so that adding the word moves an address by it. -/
def ofOffset (byte : UInt8) : UInt16 :=
  if byte < 0x80 then byte.toUInt16 else ofBytes 0xFF byte

/-- The upper half is the quotient by 256. -/
theorem toNat_high (word : UInt16) : (high word).toNat = word.toNat / 256 := by
  have bound := word.toNat_lt
  simp only [high, UInt16.toNat_toUInt8, UInt16.toNat_shiftRight, Nat.shiftRight_eq_div_pow,
    UInt16.reduceToNat, Nat.reduceMod, Nat.reducePow]
  omega

/-- The lower half is the remainder by 256. -/
theorem toNat_low (word : UInt16) : (low word).toNat = word.toNat % 256 := by
  simp [low]

/-- A word weighs its upper half by 256. -/
theorem toNat_ofBytes (high low : UInt8) :
    (ofBytes high low).toNat = 256 * high.toNat + low.toNat := by
  have hh := high.toNat_lt
  have hl := low.toNat_lt
  have disjoint := Nat.shiftLeft_add_eq_or_of_lt (i := 8) hl high.toNat
  simp only [Nat.shiftLeft_eq] at disjoint
  simp only [ofBytes, UInt16.toNat_or, UInt16.toNat_shiftLeft, UInt8.toNat_toUInt16,
    UInt16.reduceToNat, Nat.reduceMod, Nat.shiftLeft_eq]
  rw [Nat.mod_eq_of_lt (by omega), ← disjoint]
  omega

/-- A word is made of its halves. -/
@[simp] theorem ofBytes_high_low (word : UInt16) : ofBytes (high word) (low word) = word := by
  apply UInt16.toNat_inj.mp
  rw [toNat_ofBytes, toNat_high, toNat_low]
  omega

/-- The upper half of a composed word is the one it was composed from. -/
@[simp] theorem high_ofBytes (upper lower : UInt8) : high (ofBytes upper lower) = upper := by
  apply UInt8.toNat_inj.mp
  have := lower.toNat_lt
  rw [toNat_high, toNat_ofBytes]
  omega

/-- The lower half of a composed word is the one it was composed from. -/
@[simp] theorem low_ofBytes (upper lower : UInt8) : low (ofBytes upper lower) = lower := by
  apply UInt8.toNat_inj.mp
  have := lower.toNat_lt
  rw [toNat_low, toNat_ofBytes]
  omega

/-- An address that lies a number behind another one wraps around the last one. -/
theorem toNat_add_ofNat (address : UInt16) (count : Nat) :
    (address + UInt16.ofNat count).toNat = (address.toNat + count) % 65536 := by
  rw [UInt16.toNat_add, UInt16.toNat_ofNat', Nat.add_mod_mod]

/-- The word of an address and a number together is the address that many behind. -/
theorem ofNat_toNat_add (address : UInt16) (count : Nat) :
    UInt16.ofNat (address.toNat + count) = address + UInt16.ofNat count := by
  rw [UInt16.ofNat_add, UInt16.ofNat_toNat]

/-- Down by one address twice is down by a word. -/
theorem sub_one_sub_one (pointer : UInt16) : pointer - 1 - 1 = pointer - 2 := by
  apply UInt16.toNat_inj.mp
  simp only [UInt16.toNat_sub, UInt16.reduceToNat]
  omega

/-- Up by one address twice is up by a word. -/
theorem add_one_add_one (pointer : UInt16) : pointer + 1 + 1 = pointer + 2 :=
  UInt16.add_assoc pointer 1 1

/-- Up by one address three times is up by three. -/
theorem add_one_add_one_add_one (pointer : UInt16) : pointer + 1 + 1 + 1 = pointer + 3 := by
  rw [UInt16.add_assoc, UInt16.add_assoc]
  rfl

/-- Going on by one and then by a number of addresses is going on by one more. -/
theorem add_one_add_ofNat (address : UInt16) (count : Nat) :
    address + 1 + UInt16.ofNat count = address + UInt16.ofNat (count + 1) := by
  rw [Nat.add_comm, UInt16.ofNat_add, UInt16.add_assoc]
  rfl

end Sm83.Word
