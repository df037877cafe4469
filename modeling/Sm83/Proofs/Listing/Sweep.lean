import Sm83.Proofs.Listing.Image

/-!
# Sweeps

A sweep reads line after line from a source of bytes. Each line takes from the source just the bytes
that it holds, as many as its instruction says, and no two lines start alike, so a line is settled
by its bytes whatever comes behind them. A sweep therefore cuts what it takes from the source into
its lines, in order; over a memory image, these are the bytes from the address on.
-/

namespace Sm83

/-! ## One line -/

/-- The bytes of an opcode, and the instruction that it stands for. -/
inductive StandsFor : List UInt8 → Instruction → Prop where
  /-- A byte of the plain space is an opcode unless it is the prefix byte. -/
  | plain (code : UInt8) (unprefixed : code ≠ prefixByte) : StandsFor [code] (Decode.plain code)
  /-- The prefix byte and any other are an opcode. -/
  | prefixed (code : UInt8) : StandsFor [prefixByte, code] (Decode.prefixed code)

namespace StandsFor

variable {opcode : List UInt8} {instruction : Instruction}

/-- No two opcodes start alike. -/
theorem eq_of_append_eq {opcode' : List UInt8} {instruction' : Instruction}
    (one : StandsFor opcode instruction) (other : StandsFor opcode' instruction')
    {behind beyond : List UInt8} (same : opcode ++ behind = opcode' ++ beyond) :
    opcode = opcode' ∧ instruction = instruction' ∧ behind = beyond := by
  cases one with
  | plain code unprefixed =>
    cases other with
    | plain code' unprefixed' =>
      obtain ⟨rfl, onward⟩ := List.cons.inj same
      exact ⟨rfl, rfl, onward⟩
    | prefixed code' => exact absurd (List.cons.inj same).1 unprefixed
  | prefixed code =>
    cases other with
    | plain code' unprefixed' => exact absurd (List.cons.inj same).1.symm unprefixed'
    | prefixed code' =>
      obtain ⟨rfl, onward⟩ := List.cons.inj (List.cons.inj same).2
      exact ⟨rfl, rfl, onward⟩

/-- The bytes of an opcode are counted with its instruction, which takes at most three bytes. -/
theorem bounds (stands : StandsFor opcode instruction) :
    opcode.length = instruction.opcodeBytes ∧ 1 ≤ opcode.length ∧
      opcode.length ≤ instruction.length ∧ instruction.length ≤ 3 := by
  cases stands with
  | plain code unprefixed =>
    have few := OpcodeTable.extraBytes_plain_le code
    have single : (Decode.plain code).opcodeBytes = 1 := by simp [Instruction.opcodeBytes]
    have length : (Decode.plain code).length = 1 + (Decode.plain code).extraBytes := rfl
    rw [single, List.length_singleton, length]
    omega
  | prefixed code =>
    have double : (Decode.prefixed code).opcodeBytes = 2 := by simp [Instruction.opcodeBytes]
    have length : (Decode.prefixed code).length = 2 := by
      rw [Instruction.length, OpcodeTable.extraBytes_prefixed]
    have opcode : [prefixByte, code].length = 2 := rfl
    rw [double, opcode, length]
    omega

end StandsFor

namespace Line

variable {σ τ : Type}

/-- The line holds the bytes of an opcode and as many behind it as its instruction takes, and the
value of those. -/
inductive IsEncoded : Line → Prop where
  | mk {opcode : List UInt8} {instruction : Instruction} (rest : List UInt8)
    (stands : StandsFor opcode instruction)
    (counted : opcode.length + rest.length = instruction.length) :
    IsEncoded ⟨opcode ++ rest, instruction, operandValue rest⟩

/-- No two lines start alike, so a line is settled by bytes that start with its own. -/
theorem IsEncoded.eq_of_append_eq {one other : Line} (left : one.IsEncoded)
    (right : other.IsEncoded) {behind beyond : List UInt8}
    (same : one.bytes ++ behind = other.bytes ++ beyond) : one = other := by
  obtain ⟨rest, stands, counted⟩ := left
  obtain ⟨rest', stands', counted'⟩ := right
  simp only [List.append_assoc] at same
  obtain ⟨rfl, rfl, onward⟩ := stands.eq_of_append_eq stands' same
  obtain ⟨rfl, -⟩ := List.append_inj onward (by omega)
  rfl

/-- A line holds one to three bytes, as many as its instruction says, and the value of those behind
the opcode. -/
theorem IsEncoded.parts {line : Line} (encoded : line.IsEncoded) :
    (1 ≤ line.bytes.length ∧ line.bytes.length ≤ 3) ∧
      line.bytes.length = line.instruction.length ∧
      line.operand = operandValue (line.bytes.drop line.instruction.opcodeBytes) := by
  obtain ⟨rest, stands, counted⟩ := encoded
  obtain ⟨opcode, positive, -, most⟩ := stands.bounds
  simp only [List.length_append, ← opcode, List.drop_left]
  exact ⟨by omega, counted, trivial⟩

/-- The bytes of an opcode are read first, and the line is completed behind them. -/
theorem exists_run_next (fetch : StateM σ UInt8) (state : σ) :
    ∃ opcode instruction between, StandsFor opcode instruction ∧
      Yields fetch state opcode between ∧
      (next fetch).run state = (complete fetch opcode instruction).run between := by
  have decoded : next fetch = (do
      let first ← fetch
      if first = prefixByte then
        let second ← fetch
        complete fetch [first, second] (Decode.prefixed second)
      else
        complete fetch [first] (Decode.plain first)) := by
    simp only [next, OpcodeTable.lookup_standard_plain, OpcodeTable.lookup_standard_prefixed]
  rcases read : fetch.run state with ⟨first, behind⟩
  rw [decoded, StateT.run_bind, read]
  by_cases isPrefix : first = prefixByte
  · rcases further : fetch.run behind with ⟨second, beyond⟩
    refine ⟨_, _, beyond, .prefixed second, by simp [read, isPrefix, further], ?_⟩
    simp only [isPrefix]
    change (fetch >>= _).run behind = _
    rw [StateT.run_bind, further]
    rfl
  · refine ⟨_, _, behind, .plain first isPrefix, by simp [read], ?_⟩
    change (if first = prefixByte then _ else _ : StateM σ Line).run behind = _
    rw [if_neg isPrefix]

/-- A line is encoded by the bytes that it takes from a source, and these are all that it takes. -/
theorem run_next (fetch : StateM σ UInt8) (state : σ) :
    ((next fetch).run state).1.IsEncoded ∧
      Yields fetch state ((next fetch).run state).1.bytes ((next fetch).run state).2 := by
  obtain ⟨opcode, instruction, between, stands, yields, split⟩ := exists_run_next fetch state
  obtain ⟨-, positive, begun, most⟩ := stands.bounds
  obtain ⟨rest, after, completed, total, onward⟩ := run_complete fetch between begun (by omega)
  rw [split, completed]
  exact ⟨.mk rest stands total, yields_append.mpr ⟨between, yields, onward⟩⟩

/-! ## Sweeps -/

/-- The lines of a sweep are encoded, and their bytes in order are all that it takes. -/
theorem run_sweep (fetch : StateM σ UInt8) (state : σ) (count : Nat) :
    let swept := (repeated (next fetch) count).run state
    swept.1.length = count ∧ (∀ line ∈ swept.1, line.IsEncoded) ∧
      Yields fetch state (swept.1.flatMap (·.bytes)) swept.2 := by
  induction count generalizing state with
  | zero => exact ⟨rfl, fun _ impossible => absurd impossible List.not_mem_nil, rfl⟩
  | succ count ih =>
    obtain ⟨encoded, yields⟩ := run_next fetch state
    obtain ⟨counted, others, onward⟩ := ih ((next fetch).run state).2
    exact ⟨congrArg (· + 1) counted, List.forall_mem_cons.mpr ⟨encoded, others⟩,
      yields_append.mpr ⟨_, yields, onward⟩⟩

/-- From any source that gives the bytes of an encoded line, this line is read: what is read starts
the same bytes, and neither line starts the other. -/
theorem IsEncoded.run_next_eq {line : Line} (encoded : line.IsEncoded) {other : StateM τ UInt8}
    {start later : τ} (yields : Yields other start line.bytes later) :
    (next other).run start = (line, later) := by
  obtain ⟨read, taken⟩ := run_next other start
  obtain ⟨behind, beyond, same⟩ := taken.exists_append_eq yields
  have line : ((next other).run start).1 = line := read.eq_of_append_eq encoded same
  rw [line] at taken
  exact Prod.ext line (taken.unique yields)

/-- From any source that gives the bytes of encoded lines, these lines are read. -/
theorem run_sweep_eq {lines : List Line} (encoded : ∀ line ∈ lines, line.IsEncoded)
    {other : StateM τ UInt8} {start later : τ}
    (yields : Yields other start (lines.flatMap (·.bytes)) later) :
    (repeated (next other) lines.length).run start = (lines, later) := by
  induction lines generalizing start with
  | nil => exact congrArg (Prod.mk []) (yields_nil.mp yields)
  | cons line lines ih =>
    obtain ⟨first, others⟩ := List.forall_mem_cons.mp encoded
    obtain ⟨between, here, onward⟩ := yields_append.mp yields
    have read : (next other).run start = (line, between) := first.run_next_eq here
    have rest := ih others onward
    change ((((next other).run start).1 ::
      ((repeated (next other) lines.length).run ((next other).run start).2).1,
      ((repeated (next other) lines.length).run ((next other).run start).2).2) : List Line × τ) = _
    rw [read]
    exact congrArg (fun rest : List Line × τ => (line :: rest.1, rest.2)) rest

/-! ## Sweeps over an image -/

/-- Lines of a memory image, each read at the address behind the one before. -/
def listing (image : Array UInt8) (address : UInt16) : Nat → List Line
  | 0 => []
  | count + 1 =>
    let line := ofImage image address
    line :: listing image (address + UInt16.ofNat line.bytes.length) count

variable {image : Array UInt8} {address after : UInt16} {bytes : List UInt8}

/-- An image gives its bytes from the address on, and is left behind them. -/
theorem yields_fetchImage (yields : Yields (fetchImage image) address bytes after) :
    after = address + UInt16.ofNat bytes.length ∧
      ∀ index, index < bytes.length →
        bytes[index]? = some (imageByte image (address + UInt16.ofNat index)) := by
  induction bytes generalizing address with
  | nil =>
    have same := yields_nil.mp yields
    exact ⟨by simp [same], fun index impossible => absurd impossible (Nat.not_lt_zero index)⟩
  | cons byte rest ih =>
    obtain ⟨here, onward⟩ := yields_cons.mp yields
    obtain ⟨behind, others⟩ := @ih (address + 1) onward
    refine ⟨?_, ?_⟩
    · rw [behind, Word.add_one_add_ofNat]
      rfl
    · intro index bound
      cases index with
      | zero =>
        have first : imageByte image address = byte := here
        simp [first]
      | succ index =>
        rw [List.getElem?_cons_succ, others index (Nat.lt_of_succ_lt_succ bound),
          Word.add_one_add_ofNat]

/-- The lines of an image are those of one sweep over it. -/
theorem listing_eq (image : Array UInt8) (address : UInt16) (count : Nat) :
    listing image address count =
      ((repeated (next (fetchImage image)) count).run address).1 := by
  induction count generalizing address with
  | zero => rfl
  | succ count ih =>
    obtain ⟨-, yields⟩ := run_next (fetchImage image) address
    obtain ⟨behind, -⟩ := yields_fetchImage yields
    have onward := ih (address + UInt16.ofNat (ofImage image address).bytes.length)
    have rest : ((next (fetchImage image)).run address).2 =
        address + UInt16.ofNat (ofImage image address).bytes.length := behind
    rw [← rest] at onward
    rw [listing, ← rest, onward]
    rfl

/-- What the lines of an image hold are its bytes from the address on, past the last address on from
the first, and zero past its end. -/
theorem getElem?_flatMap_listing (image : Array UInt8) (address : UInt16) {count index : Nat}
    (inside : index < ((listing image address count).flatMap (·.bytes)).length) :
    ((listing image address count).flatMap (·.bytes))[index]? =
      some (image.getD ((address.toNat + index) % 65536) 0) := by
  obtain ⟨-, -, yields⟩ := run_sweep (fetchImage image) address count
  rw [← listing_eq] at yields
  obtain ⟨-, each⟩ := yields_fetchImage yields
  rw [each index inside, imageByte, Word.toNat_add_ofNat]

/-- No opcode has more bytes than its instruction says. -/
theorem opcode_le_length (first second : UInt8) :
    [first].length ≤ (OpcodeTable.standard.lookup ⟨first, false⟩).instruction.length ∧
      [first, second].length ≤ (OpcodeTable.standard.lookup ⟨second, true⟩).instruction.length := by
  rw [OpcodeTable.lookup_standard_plain, OpcodeTable.lookup_standard_prefixed]
  exact ⟨Nat.le_add_right 1 _, (StandsFor.prefixed second).bounds.2.2.1⟩

/-- A sweep over any source takes its bytes in order, the bytes of its lines and no more, and gives
the same lines over any source with the same bytes. Each line holds one to three of them, as many as
its instruction says, with the value of those behind the opcode, and is read again from any source
that gives its bytes. Over an image of any size, from any address on, the lines hold the bytes of
the image, around the last address and zero past its end. No opcode has more bytes than its
instruction, for any first and second byte. -/
theorem sweeps_exactly :
    (∀ {σ : Type} (fetch : StateM σ UInt8) (state : σ) (count : Nat),
      let swept := (repeated (next fetch) count).run state
      let bytes := swept.1.flatMap (·.bytes)
      swept.1.length = count ∧
        (repeated fetch bytes.length).run state = (bytes, swept.2) ∧
        (∀ {τ : Type} (other : StateM τ UInt8) (start later : τ),
          (repeated other bytes.length).run start = (bytes, later) →
          (repeated (next other) count).run start = (swept.1, later)) ∧
        ∀ line ∈ swept.1,
          (1 ≤ line.bytes.length ∧ line.bytes.length ≤ 3) ∧
          line.bytes.length = line.instruction.length ∧
          line.operand = operandValue (line.bytes.drop line.instruction.opcodeBytes) ∧
          ∀ {τ : Type} (other : StateM τ UInt8) (start later : τ),
            (repeated other line.bytes.length).run start = (line.bytes, later) →
            (next other).run start = (line, later)) ∧
    (∀ (image : Array UInt8) (address : UInt16) (count : Nat),
      let lines := listing image address count
      let bytes := lines.flatMap (·.bytes)
      lines.length = count ∧
        lines = ((repeated (next (fetchImage image)) count).run address).1 ∧
        ∀ index, index < bytes.length →
          bytes[index]? = some (image.getD ((address.toNat + index) % 65536) 0)) ∧
    ∀ first second : UInt8,
      [first].length ≤ (OpcodeTable.standard.lookup ⟨first, false⟩).instruction.length ∧
      [first, second].length ≤
        (OpcodeTable.standard.lookup ⟨second, true⟩).instruction.length := by
  refine ⟨?_, ?_, opcode_le_length⟩
  · intro σ fetch state count swept bytes
    obtain ⟨counted, encoded, yields⟩ := run_sweep fetch state count
    refine ⟨counted, yields, fun other start later given => ?_, fun line listed => ?_⟩
    · have again := run_sweep_eq encoded given
      rwa [counted] at again
    · obtain ⟨few, length, operand⟩ := (encoded line listed).parts
      exact ⟨few, length, operand, fun other start later given =>
        (encoded line listed).run_next_eq given⟩
  · intro image address count lines bytes
    have swept := listing_eq image address count
    have counted : (listing image address count).length = count := by
      rw [swept]
      exact (run_sweep (fetchImage image) address count).1
    exact ⟨counted, swept, fun index inside => getElem?_flatMap_listing image address inside⟩

/-- Lines from the last address on, over an image that ends behind a prefix byte: each holds its
bytes, and the second is read again where another image holds them. -/
theorem sweep_around_short_image :
    let image : Array UInt8 := #[0x3E, 0x05, 0xCB]
    let lines : List Line := [⟨[0x00], .nop, none⟩,
      ⟨[0x3E, 0x05], .load (.register .a) .immediate, some 5⟩,
      ⟨[0xCB, 0x00], .shift .rlc (.register .b), none⟩]
    listing image 0xFFFF 3 = lines ∧
      lines.flatMap (·.bytes) = [0x00, 0x3E, 0x05, 0xCB, 0x00] ∧
      (lines.flatMap (·.bytes))[3]? = some (image.getD ((0xFFFF + 3) % 65536) 0) ∧
      (next (fetchImage #[0xCD, 0x3E, 0x05])).run 1 =
        (⟨[0x3E, 0x05], .load (.register .a) .immediate, some 5⟩, 3) := by
  intro image lines
  have listed : listing image 0xFFFF 3 = lines := by decide +kernel
  obtain ⟨swept, images, -⟩ := sweeps_exactly
  obtain ⟨-, same, each⟩ := images image 0xFFFF 3
  obtain ⟨-, -, -, again⟩ := swept (fetchImage image) 0xFFFF 3
  rw [← same] at again
  rw [listed] at each again
  exact ⟨listed, by decide, each 3 (by decide),
    (again _ (by simp [lines])).2.2.2 (fetchImage #[0xCD, 0x3E, 0x05]) 1 3 rfl⟩

end Line

end Sm83
