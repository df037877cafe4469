import Sm83.Listing
import Sm83.Proofs.Opcode.Table
import Sm83.Proofs.Schedule.Fetch
import Sm83.Ram

/-!
# The listing of a memory image

The line at an address of a RAM image holds the instruction that the RAM answers there, the bytes
that encode it, past the last address on from the first, and the value of those behind its opcode.
Read from any other source, a line is completed with the bytes that the source gives.
-/

namespace Sm83

/-! ## Sources of bytes -/

/-- Run a program so many times, one after another, and give the results in order. -/
def repeated {m : Type → Type} [Monad m] {α : Type} (program : m α) : Nat → m (List α)
  | 0 => return []
  | count + 1 => do
    let result ← program
    let results ← repeated program count
    return result :: results

section

variable {σ τ : Type} {fetch : StateM σ UInt8} {state between after : σ} {byte : UInt8}
  {bytes first second rest : List UInt8}

/-- From one state the source gives these bytes, one after another, and is left in the other. -/
def Yields (fetch : StateM σ UInt8) (state : σ) (bytes : List UInt8) (after : σ) : Prop :=
  (repeated fetch bytes.length).run state = (bytes, after)

/-- No bytes leave a source as it is. -/
@[simp] theorem yields_nil : Yields fetch state [] after ↔ state = after := by
  unfold Yields
  exact ⟨congrArg Prod.snd, congrArg (Prod.mk [])⟩

/-- A source gives a byte and then the others. -/
@[simp] theorem yields_cons :
    Yields fetch state (byte :: rest) after ↔
      (fetch.run state).1 = byte ∧ Yields fetch (fetch.run state).2 rest after := by
  have split : (repeated fetch (byte :: rest).length).run state =
      ((fetch.run state).1 :: ((repeated fetch rest.length).run (fetch.run state).2).1,
        ((repeated fetch rest.length).run (fetch.run state).2).2) := rfl
  unfold Yields
  rw [split, Prod.mk.injEq, List.cons.injEq, Prod.ext_iff, and_assoc]

/-- A source gives bytes in two parts. -/
theorem yields_append :
    Yields fetch state (first ++ second) after ↔
      ∃ between, Yields fetch state first between ∧ Yields fetch between second after := by
  induction first generalizing state with
  | nil => simp
  | cons byte rest ih => simp [ih, and_assoc]

/-- A source is left in one state by the bytes that it gives. -/
theorem Yields.unique {left right : σ} (one : Yields fetch state bytes left)
    (other : Yields fetch state bytes right) : left = right :=
  congrArg Prod.snd (Eq.trans one.symm other)

/-- Of what a source gives from a state, one part is the beginning of the other. -/
theorem Yields.exists_append_eq {left right : σ} (one : Yields fetch state first left)
    (other : Yields fetch state second right) :
    ∃ behind beyond, first ++ behind = second ++ beyond := by
  induction first generalizing state second with
  | nil => exact ⟨second, [], by simp⟩
  | cons byte rest ih =>
    cases second with
    | nil => exact ⟨[], byte :: rest, by simp⟩
    | cons byte' rest' =>
      obtain ⟨here, onward⟩ := yields_cons.mp one
      obtain ⟨there, further⟩ := yields_cons.mp other
      obtain ⟨behind, beyond, same⟩ := ih onward further
      refine ⟨behind, beyond, ?_⟩
      rw [List.cons_append, List.cons_append, same, ← here, there]

end

/-! ## Bytes of a RAM -/

/-- So many bytes of a RAM from an address on, past the last address on from the first. -/
def Ram.block (ram : Ram) (address : UInt16) : Nat → List UInt8
  | 0 => []
  | count + 1 => ram.read address :: ram.block (address + 1) count

namespace Ram

/-- A block has as many bytes as were asked for. -/
@[simp] theorem length_block (ram : Ram) (address : UInt16) (count : Nat) :
    (ram.block address count).length = count := by
  induction count generalizing address with
  | zero => rfl
  | succ count ih => simp [block, ih]

/-- A block is a shorter one and what follows it. -/
theorem block_add (ram : Ram) (address : UInt16) (first second : Nat) :
    ram.block address (first + second) =
      ram.block address first ++ ram.block (address + UInt16.ofNat first) second := by
  induction first generalizing address with
  | zero => simp [block]
  | succ count ih =>
    have total : count + 1 + second = count + second + 1 := by omega
    rw [total, block, ih, block, Word.add_one_add_ofNat, List.cons_append]

/-- The image of a RAM holds its bytes. -/
@[simp] theorem imageByte_toArray (ram : Ram) (address : UInt16) :
    Line.imageByte ram.toArray address = ram.read address := by
  unfold Line.imageByte
  rw [Array.getD_eq_getD_getElem?, getElem_toArray]
  rfl

end Ram

/-! ## Bytes of an instruction -/

/-- The number of bytes of an opcode, its prefix included. -/
def Instruction.opcodeBytes (instruction : Instruction) : Nat := 1 + instruction.isPrefixed.toNat

/-- The bytes of an instruction are those of its opcode and those behind it. -/
theorem Instruction.opcodeBytes_add_operandBytes (instruction : Instruction) :
    instruction.opcodeBytes + instruction.operandBytes = instruction.length := by
  have counted : instruction.isPrefixed.toNat ≤ instruction.extraBytes := by
    cases instruction with
    | shift | bit | res | set => exact Nat.le_refl 1
    | _ => exact Nat.zero_le _
  unfold opcodeBytes operandBytes length
  omega

/-- The value of the bytes behind an opcode. -/
def operandValue : List UInt8 → Option UInt16
  | [] => none
  | [low] => some low.toUInt16
  | low :: high :: _ => some (Word.ofBytes high low)

/-! ## Lines -/

namespace Line

/-- A line is completed with the bytes that its instruction has more than its opcode. -/
theorem run_complete {σ : Type} (fetch : StateM σ UInt8) (state : σ) {opcode : List UInt8}
    {instruction : Instruction} (begun : opcode.length ≤ instruction.length)
    (short : instruction.length ≤ opcode.length + 2) :
    ∃ rest after, (complete fetch opcode instruction).run state =
        (⟨opcode ++ rest, instruction, operandValue rest⟩, after) ∧
      opcode.length + rest.length = instruction.length ∧ Yields fetch state rest after := by
  obtain ⟨more, counted⟩ : ∃ more, instruction.length - opcode.length = more := ⟨_, rfl⟩
  have few : more ≤ 2 := by omega
  have total : opcode.length + more = instruction.length := by omega
  unfold complete
  rw [counted, ← total]
  match more, few with
  | 0, _ => exact ⟨[], state, by rw [List.append_nil]; rfl, rfl, rfl⟩
  | 1, _ => exact ⟨[_], _, rfl, rfl, rfl⟩
  | 2, _ => exact ⟨[_, _], _, rfl, rfl, rfl⟩

/-- The image of a RAM gives the bytes from the address on. -/
theorem eq_block_of_yields {ram : Ram} {address after : UInt16} {bytes : List UInt8}
    (yields : Yields (fetchImage ram.toArray) address bytes after) :
    bytes = ram.block address bytes.length := by
  induction bytes generalizing address with
  | nil => rfl
  | cons byte rest ih =>
    obtain ⟨here, onward⟩ := yields_cons.mp yields
    have first : imageByte ram.toArray address = byte := here
    have others : rest = ram.block (address + 1) rest.length := ih onward
    rw [List.length_cons, Ram.block, ← others, ← first, Ram.imageByte_toArray]

/-- The line that is completed from an image has the bytes behind the opcode. -/
theorem complete_toArray (ram : Ram) {opcode : List UInt8} {instruction : Instruction}
    (address : UInt16) (fetched : opcode.length = instruction.opcodeBytes)
    (short : instruction.operandBytes ≤ 2) :
    ((complete (fetchImage ram.toArray) opcode instruction).run address).1 =
      ⟨opcode ++ ram.block address instruction.operandBytes, instruction,
        operandValue (ram.block address instruction.operandBytes)⟩ := by
  have total := instruction.opcodeBytes_add_operandBytes
  obtain ⟨rest, after, completed, counted, yields⟩ :=
    @run_complete _ (fetchImage ram.toArray) address opcode instruction (by omega) (by omega)
  have missing : rest.length = instruction.operandBytes := by omega
  rw [completed, ← missing, ← eq_block_of_yields yields]

/-- A line that starts with the prefix byte is completed behind the byte that follows it. -/
theorem ofImage_of_prefixed {ram : Ram} {address : UInt16}
    (isPrefix : ram.read address = prefixByte) :
    ofImage ram.toArray address =
      ((complete (fetchImage ram.toArray) (ram.block address 2)
        (instructionAt ram address)).run (address + 2)).1 := by
  unfold ofImage Line.next instructionAt encodingAt
  simp [fetchImage, isPrefix, Ram.block, Word.add_one_add_one]

/-- A line that starts with another byte is completed behind it. -/
theorem ofImage_of_plain {ram : Ram} {address : UInt16} (plain : ram.read address ≠ prefixByte) :
    ofImage ram.toArray address =
      ((complete (fetchImage ram.toArray) (ram.block address 1)
        (instructionAt ram address)).run (address + 1)).1 := by
  unfold ofImage Line.next instructionAt encodingAt
  simp [fetchImage, plain, Ram.block]

/-- The line at an address of an image holds the instruction that the RAM answers there, the bytes
that encode it, and the value of those behind the opcode. -/
theorem ofImage_toArray (ram : Ram) (address : UInt16) :
    ofImage ram.toArray address =
      ⟨ram.block address (instructionAt ram address).length, instructionAt ram address,
        operandValue (ram.block
          (address + UInt16.ofNat (instructionAt ram address).opcodeBytes)
          (instructionAt ram address).operandBytes)⟩ := by
  rw [← (instructionAt ram address).opcodeBytes_add_operandBytes, Ram.block_add]
  by_cases isPrefix : ram.read address = prefixByte
  · have found : instructionAt ram address = Decode.prefixed (ram.read (address + 1)) := by
      simp [instructionAt, encodingAt, isPrefix]
    have opcode : (instructionAt ram address).opcodeBytes = 2 := by
      simp [found, Instruction.opcodeBytes]
    have bare : (instructionAt ram address).operandBytes = 0 := by
      simp [found, Instruction.operandBytes, OpcodeTable.extraBytes_prefixed]
    rw [ofImage_of_prefixed isPrefix,
      complete_toArray ram (address + 2) (by simp [opcode]) (by omega), opcode]
    rfl
  · have found : instructionAt ram address = Decode.plain (ram.read address) := by
      simp [instructionAt, encodingAt, isPrefix]
    have opcode : (instructionAt ram address).opcodeBytes = 1 := by
      simp [found, Instruction.opcodeBytes]
    have few : (instructionAt ram address).operandBytes ≤ 2 := by
      rw [found]
      exact Nat.le_trans (Nat.sub_le _ _) (OpcodeTable.extraBytes_plain_le _)
    rw [ofImage_of_plain isPrefix,
      complete_toArray ram (address + 1) (by simp [opcode]) few, opcode]
    rfl

end Line

end Sm83
