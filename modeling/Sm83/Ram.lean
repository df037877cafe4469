import Sm83.Execution

/-!
# RAM

A memory with a byte at every address. A read finds what was last written there, and nothing else
changes. A block of bytes is loaded at rising addresses, from the last address on to the first.
-/

namespace Sm83

/-- A byte for every address. -/
structure Ram where
  /-- The bytes, by address. -/
  bytes : Vector UInt8 UInt16.size
deriving DecidableEq

namespace Ram

/-- The RAM with zero everywhere. -/
def zero : Ram := ⟨Vector.replicate UInt16.size 0⟩

instance : Inhabited Ram := ⟨zero⟩

/-- The byte at an address. -/
def read (ram : Ram) (address : UInt16) : UInt8 :=
  have bound := address.toNat_lt_size
  ram.bytes[address.toNat]

/-- The RAM with a byte at an address replaced. -/
def write (ram : Ram) (address : UInt16) (byte : UInt8) : Ram :=
  ⟨ram.bytes.set address.toNat byte address.toNat_lt_size⟩

instance : Memory Ram where
  read ram address := (ram.read address, ram)
  write := write

/-- Load a block of bytes, one after another from an address on. -/
def load (ram : Ram) (address : UInt16) : List UInt8 → Ram
  | [] => ram
  | byte :: rest => (ram.write address byte).load (address + 1) rest

/-- The RAM that holds a program and is zero elsewhere. -/
def ofProgram (address : UInt16) (program : List UInt8) : Ram := zero.load address program

/-- The bytes as an array. -/
def toArray (ram : Ram) : Array UInt8 := ram.bytes.toArray

/-- At most `count` bytes from an address on, none past the last address. -/
def slice (ram : Ram) (start count : Nat) : Array UInt8 := ram.toArray.extract start (start + count)

/-! ## Reading back -/

/-- Reading a RAM over the bus leaves it unchanged. -/
@[simp] theorem memory_read (ram : Ram) (address : UInt16) :
    Memory.read ram address = (ram.read address, ram) := rfl

/-- Writing over the bus replaces the byte. -/
@[simp] theorem memory_write (ram : Ram) (address : UInt16) (byte : UInt8) :
    Memory.write ram address byte = ram.write address byte := rfl

/-- A byte reads back as it was written. -/
@[simp] theorem read_write_self (ram : Ram) (address : UInt16) (byte : UInt8) :
    (ram.write address byte).read address = byte := by
  simp [read, write]

/-- A write changes no other address. -/
theorem read_write_of_ne (ram : Ram) {written address : UInt16} (byte : UInt8)
    (different : written ≠ address) : (ram.write written byte).read address = ram.read address := by
  have apart : written.toNat ≠ address.toNat := fun same =>
    different (UInt16.toNat_inj.mp same)
  simp [read, write, Vector.getElem_set_ne _ _ apart]

/-- Blocks loaded one behind the other are one block. -/
theorem load_append (ram : Ram) (address : UInt16) (first second : List UInt8) :
    ram.load address (first ++ second) =
      (ram.load address first).load (address + UInt16.ofNat first.length) second := by
  induction first generalizing ram address with
  | nil => simp [load]
  | cons byte rest ih =>
    simp only [List.cons_append, load, ih, List.length_cons, Word.add_one_add_ofNat]

/-- The array has a byte for every address. -/
theorem size_toArray (ram : Ram) : ram.toArray.size = UInt16.size := ram.bytes.size_toArray

/-- The array holds the byte of each address at its number. -/
theorem getElem_toArray (ram : Ram) (address : UInt16) :
    ram.toArray[address.toNat]? = some (ram.read address) := by
  have bound := address.toNat_lt_size
  simp [toArray, read, bound]

end Ram

end Sm83
