import Sm83.Execution
import Sm83.Opcode.Table
import Sm83.Proofs.Schedule.Fetch
import Sm83.Proofs.Schedule.Traffic

/-!
# What the opcode tables list

Every byte of the plain space but eleven, and but the prefix byte, stands for an instruction with a
behaviour, and so does every byte behind the prefix. No listed instruction stores to the byte after
its opcode or copies from memory to memory, and none takes more than six cycles.
-/

namespace Sm83

/-- What holds of each of the 256 bytes holds of every byte. -/
theorem forall_byte {p : UInt8 → Prop} (each : ∀ index : Fin 256, p (UInt8.ofNat index))
    (code : UInt8) : p code := by
  have checked := each ⟨code.toNat, code.toNat_lt⟩
  rwa [UInt8.ofNat_toNat] at checked

namespace Decode

/-- The bytes of the plain space that stand for no instruction. -/
def undefinedCodes : List UInt8 :=
  [0xD3, 0xDB, 0xDD, 0xE3, 0xE4, 0xEB, 0xEC, 0xED, 0xF4, 0xFC, 0xFD]

/-- A plain byte has no behaviour exactly if it is one of the undefined ones or the prefix byte. -/
theorem plain_eq_invalid_iff : ∀ code : UInt8,
    plain code = .invalid ↔ code = prefixByte ∨ code ∈ undefinedCodes :=
  forall_byte (by decide +kernel)

/-- The prefix byte is none of the undefined bytes. -/
theorem ne_prefixByte_of_undefined {code : UInt8} (undefined : code ∈ undefinedCodes) :
    code ≠ prefixByte := by
  rintro rfl
  revert undefined
  decide

/-- Every byte behind the prefix has a behaviour. -/
theorem prefixed_ne_invalid (code : UInt8) : prefixed code ≠ .invalid := by
  unfold prefixed
  split <;> exact Instruction.noConfusion

/-- No plain instruction belongs to the space behind the prefix byte. -/
@[simp] theorem isPrefixed_plain : ∀ code : UInt8, (plain code).isPrefixed = false :=
  forall_byte (by decide +kernel)

/-- Every instruction behind the prefix byte belongs there. -/
@[simp] theorem isPrefixed_prefixed (code : UInt8) : (prefixed code).isPrefixed = true := by
  unfold prefixed
  split <;> rfl

end Decode

namespace OpcodeTable

/-- Every listed opcode behind the prefix has a behaviour. -/
theorem lookup_prefixed_ne_invalid (code : UInt8) :
    (standard.lookup ⟨code, true⟩).instruction ≠ .invalid := by
  rw [lookup_standard_prefixed]
  exact Decode.prefixed_ne_invalid code

/-- What holds of every decoded byte holds of every listed instruction. -/
theorem of_mem_entries {p : Instruction → Prop} {opcode : Opcode}
    (listed : opcode ∈ standard.entries) (plain : ∀ code, p (Decode.plain code))
    (prefixed : ∀ code, p (Decode.prefixed code)) : p opcode.instruction := by
  rw [eq_lookup_of_mem_entries listed]
  obtain ⟨⟨code, _ | _⟩, instruction⟩ := opcode
  · rw [lookup_standard_plain]
    exact plain code
  · rw [lookup_standard_prefixed]
    exact prefixed code

/-- The limits of the tables, checked on every byte: no listed instruction stores to the byte after
its opcode, copies from memory to memory, changes the program counter as a pair or takes more than
six cycles. -/
theorem limits_of_mem_entries {opcode : Opcode} (listed : opcode ∈ standard.entries) :
    opcode.instruction.storesImmediate = false ∧ opcode.instruction.copiesMemory = false ∧
      opcode.instruction.changesPc = false ∧ opcode.instruction.duration.max ≤ 6 :=
  of_mem_entries (p := fun instruction => instruction.storesImmediate = false ∧
      instruction.copiesMemory = false ∧ instruction.changesPc = false ∧
      instruction.duration.max ≤ 6)
    listed (forall_byte (by decide +kernel)) (forall_byte (by decide +kernel))

/-- No listed instruction stores to the byte after its opcode. -/
theorem storesImmediate_of_mem_entries {opcode : Opcode} (listed : opcode ∈ standard.entries) :
    opcode.instruction.storesImmediate = false :=
  (limits_of_mem_entries listed).1

/-- No listed instruction copies from memory to memory. -/
theorem copiesMemory_of_mem_entries {opcode : Opcode} (listed : opcode ∈ standard.entries) :
    opcode.instruction.copiesMemory = false :=
  (limits_of_mem_entries listed).2.1

/-- No listed instruction changes the program counter as a pair. -/
theorem changesPc_of_mem_entries {opcode : Opcode} (listed : opcode ∈ standard.entries) :
    opcode.instruction.changesPc = false :=
  (limits_of_mem_entries listed).2.2.1

/-- No listed instruction takes more than six cycles. -/
theorem duration_of_mem_entries {opcode : Opcode} (listed : opcode ∈ standard.entries) :
    opcode.instruction.duration.max ≤ 6 :=
  (limits_of_mem_entries listed).2.2.2

/-- No plain instruction has more than a word behind its opcode. -/
theorem extraBytes_plain_le : ∀ code : UInt8, (Decode.plain code).extraBytes ≤ 2 :=
  forall_byte (by decide +kernel)

/-- No instruction behind the prefix has a byte behind its opcode. -/
theorem extraBytes_prefixed (code : UInt8) : (Decode.prefixed code).extraBytes = 1 := by
  unfold Decode.prefixed
  split <;> rfl

end OpcodeTable

/-! ## Instructions in a memory -/

section

variable {μ : Type} [Memory μ] {memory : μ}

/-- The encoding that a memory answers from an address on. -/
def encodingAt (memory : μ) (address : UInt16) : Encoding :=
  if (Memory.read memory address).1 = prefixByte then
    ⟨(Memory.read (Memory.read memory address).2 (address + 1)).1, true⟩
  else
    ⟨(Memory.read memory address).1, false⟩

/-- The instruction that a memory answers from an address on. -/
def instructionAt (memory : μ) (address : UInt16) : Instruction :=
  (OpcodeTable.standard.lookup (encodingAt memory address)).instruction

/-- The instruction at an address is decoded from its bytes, for which no table is needed. -/
theorem instructionAt_eq_decode (memory : μ) (address : UInt16) :
    let encoding := encodingAt memory address
    instructionAt memory address =
      if encoding.prefixed then Decode.prefixed encoding.code else Decode.plain encoding.code := by
  intro encoding
  unfold instructionAt
  change (OpcodeTable.standard.lookup encoding).instruction = _
  obtain ⟨code, isPrefixed⟩ := encoding
  cases isPrefixed with
  | true => exact congrArg Opcode.instruction (OpcodeTable.lookup_standard_prefixed code)
  | false => exact congrArg Opcode.instruction (OpcodeTable.lookup_standard_plain code)

/-- An instruction of the plain space is that of the byte at its address, which is not the prefix
byte. -/
theorem plain_of_instructionAt {address : UInt16}
    (unprefixed : (instructionAt memory address).isPrefixed = false) :
    (Memory.read memory address).1 ≠ prefixByte ∧
      instructionAt memory address = Decode.plain (Memory.read memory address).1 := by
  unfold instructionAt encodingAt at unprefixed ⊢
  by_cases isPrefix : (Memory.read memory address).1 = prefixByte
  · rw [if_pos isPrefix, OpcodeTable.lookup_standard_prefixed, Decode.isPrefixed_prefixed]
      at unprefixed
    cases unprefixed
  · rw [if_neg isPrefix, OpcodeTable.lookup_standard_plain]
    exact ⟨isPrefix, rfl⟩

/-- The instruction at an address has a behaviour unless its first byte is an undefined one. -/
theorem instructionAt_ne_invalid {address : UInt16}
    (defined : (Memory.read memory address).1 ∉ Decode.undefinedCodes) :
    instructionAt memory address ≠ .invalid := by
  unfold instructionAt encodingAt
  by_cases isPrefix : (Memory.read memory address).1 = prefixByte
  · rw [if_pos isPrefix]
    exact OpcodeTable.lookup_prefixed_ne_invalid _
  · rw [if_neg isPrefix, OpcodeTable.lookup_standard_plain]
    intro undefined
    exact defined (((Decode.plain_eq_invalid_iff _).mp undefined).resolve_left isPrefix)

/-- The instruction at an address has no behaviour exactly if its first byte is an undefined one. -/
theorem instructionAt_eq_invalid_iff {address : UInt16} :
    instructionAt memory address = .invalid ↔
      (Memory.read memory address).1 ∈ Decode.undefinedCodes := by
  constructor
  · intro isInvalid
    by_cases undefined : (Memory.read memory address).1 ∈ Decode.undefinedCodes
    · exact undefined
    · exact absurd isInvalid (instructionAt_ne_invalid undefined)
  · intro undefined
    unfold instructionAt encodingAt
    rw [if_neg (Decode.ne_prefixByte_of_undefined undefined), OpcodeTable.lookup_standard_plain]
    exact (Decode.plain_eq_invalid_iff _).mpr (.inr undefined)

end

end Sm83
