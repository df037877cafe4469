import Sm83.Ram

/-!
# Words in a RAM

A word lies at an address with its lower half there and its upper half at the next address, which is
the first one behind the last. What is put there is read back and changes no other byte, and the bus
reads and writes words the same way.
-/

namespace Sm83.Ram

/-- The word at an address. -/
def wordAt (ram : Ram) (pointer : UInt16) : UInt16 :=
  Word.ofBytes (ram.read (pointer + 1)) (ram.read pointer)

/-- The RAM after a word was put at an address, the lower half before the upper one. -/
def putWord (ram : Ram) (address word : UInt16) : Ram :=
  (ram.write address (Word.low word)).write (address + 1) (Word.high word)

/-- A word is put with its lower half at the lower address. -/
@[simp] theorem wordAt_putWord (ram : Ram) (address word : UInt16) :
    (ram.putWord address word).wordAt address = word := by
  have apart : address + 1 ≠ address := by
    intro same
    have numbers := congrArg UInt16.toNat same
    have bound := address.toNat_lt
    simp only [UInt16.toNat_add, UInt16.reduceToNat] at numbers
    omega
  unfold wordAt putWord
  rw [read_write_self, read_write_of_ne _ _ apart, read_write_self, Word.ofBytes_high_low]

/-- Putting a word leaves all but two bytes alone. -/
theorem read_putWord_of_ne (ram : Ram) {target address : UInt16} (word : UInt16)
    (low : address ≠ target) (high : address ≠ target + 1) :
    (ram.putWord target word).read address = ram.read address := by
  unfold putWord
  rw [read_write_of_ne _ _ high.symm, read_write_of_ne _ _ low.symm]

/-- A word that is written over the bus is put at its address. -/
theorem exec_writeWord (ram : Ram) (address word : UInt16) :
    (Bus.writeWord address word).exec ram =
      ⟨(), ram.putWord address word,
        [.write address (Word.low word), .write (address + 1) (Word.high word)], []⟩ :=
  rfl

end Sm83.Ram
