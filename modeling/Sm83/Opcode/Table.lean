import Sm83.Bus
import Sm83.Opcode.Decode

/-!
# Opcode tables

Both opcode spaces decoded once, so that an opcode is found by its byte. A look-up finds what the
decoder says, in every slot.
-/

namespace Sm83

/-- The decoded opcode spaces. -/
structure OpcodeTable where
  /-- The opcodes of the plain space, by their byte. -/
  plain : Vector Opcode 256
  /-- The opcodes behind the prefix byte, by their second byte. -/
  prefixed : Vector Opcode 256
deriving DecidableEq

namespace OpcodeTable

/-- The tables of the processor. -/
def standard : OpcodeTable where
  plain := Vector.ofFn fun index =>
    let code := UInt8.ofNat index
    ⟨⟨code, false⟩, Decode.plain code⟩
  prefixed := Vector.ofFn fun index =>
    let code := UInt8.ofNat index
    ⟨⟨code, true⟩, Decode.prefixed code⟩

/-- Build the tables of the processor, which is reported. -/
def build : Bus OpcodeTable := do
  Bus.log .tablesBuilt
  return standard

/-- The opcode of an encoding. -/
def lookup (table : OpcodeTable) (encoding : Encoding) : Opcode :=
  have bound := encoding.code.toNat_lt
  if encoding.prefixed then
    table.prefixed[encoding.code.toNat]
  else
    table.plain[encoding.code.toNat]

/-- Every opcode, the plain space first. -/
def entries (table : OpcodeTable) : List Opcode := table.plain.toList ++ table.prefixed.toList

/-- A plain byte finds the instruction that it decodes to. -/
@[simp] theorem lookup_standard_plain (code : UInt8) :
    standard.lookup ⟨code, false⟩ = ⟨⟨code, false⟩, Decode.plain code⟩ := by
  simp [lookup, standard]

/-- A byte behind the prefix finds the instruction that it decodes to. -/
@[simp] theorem lookup_standard_prefixed (code : UInt8) :
    standard.lookup ⟨code, true⟩ = ⟨⟨code, true⟩, Decode.prefixed code⟩ := by
  simp [lookup, standard]

/-- A look-up finds the encoding that was looked up. -/
theorem toEncoding_lookup_standard (encoding : Encoding) :
    (standard.lookup encoding).toEncoding = encoding := by
  obtain ⟨code, _ | _⟩ := encoding
  · rw [lookup_standard_plain]
  · rw [lookup_standard_prefixed]

/-- The tables list what look-ups find. -/
theorem lookup_mem_entries (table : OpcodeTable) (encoding : Encoding) :
    table.lookup encoding ∈ table.entries := by
  unfold lookup entries
  rw [List.mem_append]
  cases encoding.prefixed with
  | true => exact .inr (by simp)
  | false => exact .inl (by simp)

/-- Look-ups find everything that the tables list. -/
theorem eq_lookup_of_mem_entries {opcode : Opcode} (listed : opcode ∈ standard.entries) :
    opcode = standard.lookup opcode.toEncoding := by
  unfold entries at listed
  rcases List.mem_append.mp listed with plain | prefixed
  · obtain ⟨index, bound, rfl⟩ := List.mem_iff_getElem.mp plain
    simp [standard, lookup]
  · obtain ⟨index, bound, rfl⟩ := List.mem_iff_getElem.mp prefixed
    simp [standard, lookup]

attribute [irreducible] standard

end OpcodeTable

end Sm83
