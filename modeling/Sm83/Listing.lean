import Sm83.Opcode.Table

/-!
# Listings

A line of a listing is an instruction read back from the bytes that encode it. The bytes come from
any source that yields one at a time; a memory image is such a source, zero past its end.
-/

namespace Sm83

/-- An instruction and the bytes that encode it. -/
structure Line where
  /-- The bytes, in order. -/
  bytes : List UInt8
  /-- The instruction. -/
  instruction : Instruction
  /-- The value of the bytes after the opcode. -/
  operand : Option UInt16
deriving DecidableEq, Repr

namespace Line

/-- The instruction as text, with the value of the bytes after its opcode. -/
def text (line : Line) : String := line.instruction.textWith line.operand

section

variable {m : Type → Type} [Monad m]

/-- Fetch what an instruction takes after the bytes of its opcode. -/
def complete (fetch : m UInt8) (opcode : List UInt8) (instruction : Instruction) : m Line :=
  match instruction.length - opcode.length with
  | 0 => return ⟨opcode, instruction, none⟩
  | 1 => do
    let low ← fetch
    return ⟨opcode ++ [low], instruction, some low.toUInt16⟩
  | _ => do
    let low ← fetch
    let high ← fetch
    return ⟨opcode ++ [low, high], instruction, some (Word.ofBytes high low)⟩

/-- Read the next line from a source of bytes. -/
def next (fetch : m UInt8) : m Line := do
  let first ← fetch
  if first = prefixByte then
    let second ← fetch
    complete fetch [first, second] (OpcodeTable.standard.lookup ⟨second, true⟩).instruction
  else
    complete fetch [first] (OpcodeTable.standard.lookup ⟨first, false⟩).instruction

end

/-- The byte of a memory image at an address, zero past its end. -/
def imageByte (image : Array UInt8) (address : UInt16) : UInt8 := image.getD address.toNat 0

/-- Read the byte of a memory image at a cursor and move the cursor on. -/
def fetchImage (image : Array UInt8) : StateM UInt16 UInt8 := do
  let address ← get
  set (address + 1)
  return imageByte image address

/-- Read the line at an address of a memory image. -/
def ofImage (image : Array UInt8) (address : UInt16) : Line :=
  ((next (fetchImage image)).run address).1

end Line

end Sm83
