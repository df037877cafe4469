import Sm83.Proofs.Listing.Outline
import Sm83.Proofs.Listing.Sweep
import Mathlib.Data.List.Pairwise
import Mathlib.Logic.Function.Basic

/-!
# Texts that can be assembled

The outlines of the texts tell the encodings apart, those of texts without a slot together with the
texts themselves, and what the slot shows tells the bytes behind the opcode. So no two lines with
different bytes have one text, but for those without a behaviour and for STOP, whose second byte is
not shown.
-/

namespace Sm83

/-! ## The slot of an instruction -/

/-- The slots of an instruction that shows so many bytes. -/
def slotSizes : Nat → List Nat
  | 0 => []
  | size => [size]

/-- A plain instruction shows the bytes after its opcode in one slot, unless it is STOP. -/
theorem Decode.slots_plain : ∀ code : UInt8, plain code ≠ .stop →
    (Text.slots (plain code).template).map Text.Slot.size =
      slotSizes (plain code).operandBytes :=
  forall_byte (by decide +kernel)

/-- An instruction behind the prefix has no slot. -/
theorem Decode.slots_prefixed : ∀ code : UInt8,
    (Text.slots (prefixed code).template).map Text.Slot.size =
      slotSizes (prefixed code).operandBytes :=
  forall_byte (by decide +kernel)

/-- An instruction shows the bytes after its opcode in one slot, unless it is STOP. -/
theorem StandsFor.slots {opcode : List UInt8} {instruction : Instruction}
    (stands : StandsFor opcode instruction) (shown : instruction ≠ .stop) :
    (Text.slots instruction.template).map Text.Slot.size = slotSizes instruction.operandBytes := by
  cases stands with
  | plain code unprefixed => exact Decode.slots_plain code shown
  | prefixed code => exact Decode.slots_prefixed code

/-! ## Encodings -/

namespace Encoding

/-- The bytes of an encoding, its prefix included. -/
def bytes (encoding : Encoding) : List UInt8 :=
  if encoding.prefixed then [prefixByte, encoding.code] else [encoding.code]

/-- The instruction of an encoding. -/
def instruction (encoding : Encoding) : Instruction :=
  if encoding.prefixed then Decode.prefixed encoding.code else Decode.plain encoding.code

/-- Every encoding, the plain space first. -/
def all : List Encoding :=
  let codes := (List.range 256).map UInt8.ofNat
  codes.map (⟨·, false⟩) ++ codes.map (⟨·, true⟩)

/-- Every encoding is listed. -/
theorem mem_all (encoding : Encoding) : encoding ∈ all := by
  obtain ⟨code, space⟩ := encoding
  have counted : code ∈ (List.range 256).map UInt8.ofNat :=
    List.mem_map.mpr ⟨code.toNat, List.mem_range.mpr code.toNat_lt, UInt8.ofNat_toNat⟩
  cases space with
  | false => exact List.mem_append_left _ (List.mem_map.mpr ⟨code, counted, rfl⟩)
  | true => exact List.mem_append_right _ (List.mem_map.mpr ⟨code, counted, rfl⟩)

/-- The text of an encoding around one value. -/
def sample (encoding : Encoding) : List Char := Text.chars (some 0) encoding.instruction.template

/-- Whether the text of an encoding has no slot. -/
def isFixed (encoding : Encoding) : Bool := (Text.slots encoding.instruction.template).isEmpty

end Encoding

/-- Characters as the digits of one number, which is faster to compare. -/
def numberOf (text : List Char) : Nat := text.foldl (fun sum char => 128 * sum + char.toNat) 1

namespace Encoding

/-- The number of the outline of a text of an encoding. -/
def outlineNumber (encoding : Encoding) : Nat := numberOf (Text.outline encoding.sample)

/-- Whether the texts of two encodings differ in outline or, without a slot, as they stand. -/
def apart (one other : Encoding) : Bool :=
  one.outlineNumber ≠ other.outlineNumber ||
    one.isFixed && other.isFixed && numberOf one.sample ≠ numberOf other.sample

/-- The encodings with a behaviour whose outlines leave a remainder. Only those of one remainder
have to be compared. -/
def ofRemainder (remainder : Nat) : List Encoding :=
  all.filter fun encoding =>
    encoding.instruction ≠ .invalid && encoding.outlineNumber % 16 = remainder

set_option maxRecDepth 10000 in
/-- The check of the tables: the texts of any two encodings of one remainder are apart. -/
theorem pairwise_apart : ∀ remainder < 16,
    (ofRemainder remainder).Pairwise fun one other => one.apart other = true := by
  decide +kernel

/-- The texts of two encodings with a behaviour are apart. -/
theorem apart_of_ne {one other : Encoding} (defined : one.instruction ≠ .invalid)
    (defined' : other.instruction ≠ .invalid) (ne : one ≠ other) : one.apart other = true := by
  by_cases same : one.outlineNumber = other.outlineNumber
  · have symmetric : Std.Symm fun left right : Encoding => left.apart right = true := by
      refine ⟨fun left right => ?_⟩
      simp only [apart, Bool.or_eq_true, Bool.and_eq_true, decide_eq_true_iff]
      rintro (outlines | ⟨⟨left, right⟩, texts⟩)
      · exact .inl outlines.symm
      · exact .inr ⟨⟨right, left⟩, texts.symm⟩
    have listed : one ∈ ofRemainder (one.outlineNumber % 16) :=
      List.mem_filter.mpr ⟨mem_all one, by simp [defined]⟩
    have listed' : other ∈ ofRemainder (one.outlineNumber % 16) :=
      List.mem_filter.mpr ⟨mem_all other, by simp [defined', same]⟩
    exact (pairwise_apart _ (Nat.mod_lt _ (by decide))).forall listed listed' ne
  · simp [apart, same]

/-- Encodings with a behaviour have different texts, whatever values the texts show. -/
theorem eq_of_chars_eq {one other : Encoding} (defined : one.instruction ≠ .invalid)
    (defined' : other.instruction ≠ .invalid) {value value' : UInt16}
    (same : Text.chars (some value) one.instruction.template =
      Text.chars (some value') other.instruction.template) : one = other := by
  by_contra ne
  have outlines : Text.outline one.sample = Text.outline other.sample := by
    unfold sample
    rw [(Text.outline_chars _ 0 value).2, same, (Text.outline_chars _ value' 0).2]
  have numbers : one.outlineNumber = other.outlineNumber := congrArg numberOf outlines
  have apart := apart_of_ne defined defined' ne
  simp only [Encoding.apart, numbers, ne_eq, not_true_eq_false, decide_false, Bool.false_or,
    Bool.and_eq_true, decide_eq_true_iff, isFixed, List.isEmpty_iff] at apart
  obtain ⟨⟨fixed, fixed'⟩, texts⟩ := apart
  have samples : one.sample = other.sample := by
    unfold sample
    rw [Text.chars_of_slots_eq_nil fixed _ (some value), same,
      Text.chars_of_slots_eq_nil fixed' _ (some 0)]
  exact texts (congrArg numberOf samples)

end Encoding

/-! ## Lines -/

/-- The bytes of an opcode are those of an encoding of its instruction. -/
theorem StandsFor.exists_encoding {opcode : List UInt8} {instruction : Instruction}
    (stands : StandsFor opcode instruction) :
    ∃ encoding : Encoding, encoding.bytes = opcode ∧ encoding.instruction = instruction := by
  cases stands with
  | plain code unprefixed => exact ⟨⟨code, false⟩, rfl, rfl⟩
  | prefixed code => exact ⟨⟨code, true⟩, rfl, rfl⟩

/-- Where one slot shows the bytes behind an opcode, the text tells them. -/
theorem eq_of_chars_operandValue_eq {template : List Text.Piece} {rest other : List UInt8}
    (shown : (Text.slots template).map Text.Slot.size = slotSizes rest.length)
    (counted : rest.length = other.length) (few : rest.length ≤ 2)
    (same : Text.chars (operandValue rest) template = Text.chars (operandValue other) template) :
    rest = other := by
  match rest, other, counted, few with
  | [], [], _, _ => rfl
  | [byte], [byte'], _, _ =>
    obtain ⟨kind, single, size⟩ := List.map_eq_singleton_iff.mp shown
    have halves := (Text.Slot.eq_of_fill_eq (Text.fill_eq_of_chars_eq single same)).1
    simpa [Word.low] using halves
  | [low, high], [low', high'], _, _ =>
    obtain ⟨kind, single, size⟩ := List.map_eq_singleton_iff.mp shown
    have words := (Text.Slot.eq_of_fill_eq (Text.fill_eq_of_chars_eq single same)).2 size
    have lower : low = low' := by simpa using congrArg Word.low words
    have upper : high = high' := by simpa using congrArg Word.high words
    rw [lower, upper]

/-- Where one slot shows the bytes behind an opcode, the text is that around some value: without
bytes there is no slot. -/
theorem exists_chars_operandValue {template : List Text.Piece} {rest : List UInt8}
    (shown : (Text.slots template).map Text.Slot.size = slotSizes rest.length) :
    ∃ value, Text.chars (operandValue rest) template = Text.chars (some value) template := by
  match rest with
  | [] => exact ⟨0, Text.chars_of_slots_eq_nil (List.map_eq_nil_iff.mp shown) none (some 0)⟩
  | [low] => exact ⟨low.toUInt16, rfl⟩
  | low :: high :: _ => exact ⟨Word.ofBytes high low, rfl⟩

namespace Line

/-- The characters of the text of a line are those of its template. -/
theorem toList_text (line : Line) :
    line.text.toList = Text.chars line.operand line.instruction.template := by
  rw [Line.text, Instruction.textWith, String.toList_join, List.flatMap_map]
  rfl

/-- A line with a behaviour whose bytes all show is settled by its text. -/
theorem IsEncoded.eq_of_text_eq {one other : Line} (left : one.IsEncoded)
    (right : other.IsEncoded) (defined : one.instruction ≠ .invalid)
    (defined' : other.instruction ≠ .invalid) (shown : one.instruction ≠ .stop)
    (shown' : other.instruction ≠ .stop) (same : one.text = other.text) : one = other := by
  have texts := congrArg String.toList same
  rw [toList_text, toList_text] at texts
  obtain ⟨rest, stands, counted⟩ := left
  obtain ⟨rest', stands', counted'⟩ := right
  obtain ⟨opcode, positive, -, few⟩ := stands.bounds
  obtain ⟨opcode', -, -, -⟩ := stands'.bounds
  obtain ⟨encoding, rfl, rfl⟩ := stands.exists_encoding
  obtain ⟨encoding', rfl, rfl⟩ := stands'.exists_encoding
  have behind : rest.length = encoding.instruction.operandBytes := by
    have total := encoding.instruction.opcodeBytes_add_operandBytes
    omega
  have behind' : rest'.length = encoding'.instruction.operandBytes := by
    have total := encoding'.instruction.opcodeBytes_add_operandBytes
    omega
  have slots := stands.slots shown
  have slots' := stands'.slots shown'
  rw [← behind] at slots
  rw [← behind'] at slots'
  obtain ⟨value, around⟩ := exists_chars_operandValue slots
  obtain ⟨value', around'⟩ := exists_chars_operandValue slots'
  obtain rfl : encoding = encoding' :=
    Encoding.eq_of_chars_eq defined defined' (around.symm.trans (texts.trans around'))
  obtain rfl : rest = rest' :=
    eq_of_chars_operandValue_eq slots (by omega) (by omega) texts
  rfl

/-- Lines with a behaviour, STOP left out, have one text only where they have the same bytes,
whichever sources they are read from. So the text of every such line can be assembled to its
bytes. -/
theorem text_determines_bytes :
    (∀ {σ τ : Type} (fetch : StateM σ UInt8) (state : σ) (other : StateM τ UInt8) (start : τ),
      let one := ((next fetch).run state).1
      let another := ((next other).run start).1
      one.instruction ≠ .invalid → one.instruction ≠ .stop →
      another.instruction ≠ .invalid → another.instruction ≠ .stop →
      one.text = another.text → one.bytes = another.bytes) ∧
    ∃ assemble : String → List UInt8, ∀ {σ : Type} (fetch : StateM σ UInt8) (state : σ),
      let line := ((next fetch).run state).1
      line.instruction ≠ .invalid → line.instruction ≠ .stop →
      assemble line.text = line.bytes := by
  let Shown := { line : Line // line.IsEncoded ∧ line.instruction ≠ .invalid ∧
    line.instruction ≠ .stop }
  have injective : Function.Injective fun line : Shown => line.val.text := by
    rintro ⟨one, left, defined, shown⟩ ⟨other, right, defined', shown'⟩ same
    exact Subtype.ext (left.eq_of_text_eq right defined defined' shown shown' same)
  refine ⟨?_, Function.extend (fun line : Shown => line.val.text) (fun line => line.val.bytes)
    fun _ => [], ?_⟩
  · intro σ τ fetch state other start one another defined shown defined' shown' same
    have left : one.IsEncoded := (run_next fetch state).1
    have right : another.IsEncoded := (run_next other start).1
    rw [left.eq_of_text_eq right defined defined' shown shown' same]
  · intro σ fetch state line defined shown
    exact injective.extend_apply _ _ ⟨line, (run_next fetch state).1, defined, shown⟩

/-- A load from the topmost page reads the same in two images, and has the same bytes; its text and
that of a load from an absolute address are assembled to theirs. -/
theorem load_assembled :
    let image : Array UInt8 := #[0xF0, 0x12, 0xFA, 0x12, 0xFF]
    let page : Line := ⟨[0xF0, 0x12], .load (.register .a) (.memory .highPage), some 0x12⟩
    let far : Line := ⟨[0xFA, 0x12, 0xFF], .load (.register .a) (.memory .absolute), some 0xFF12⟩
    ofImage image 0 = page ∧ ofImage image 2 = far ∧
      (ofImage #[0xFF, 0xF0, 0x12] 1).bytes = page.bytes ∧
      ∃ assemble : String → List UInt8, assemble "ld a, [$ff00+$12]" = page.bytes ∧
        assemble "ld a, [$ff12]" = far.bytes := by
  intro image page far
  have listed : [ofImage image 0, ofImage image 2, ofImage #[0xFF, 0xF0, 0x12] 1] =
      [page, far, page] := by decide +kernel
  obtain ⟨first, second, again⟩ : ofImage image 0 = page ∧ ofImage image 2 = far ∧
      ofImage #[0xFF, 0xF0, 0x12] 1 = page := by simpa using listed
  have listed₀ : (ofImage image 0).instruction ≠ .invalid ∧
      (ofImage image 0).instruction ≠ .stop := by rw [first]; decide
  have listed₂ : (ofImage image 2).instruction ≠ .invalid ∧
      (ofImage image 2).instruction ≠ .stop := by rw [second]; decide
  have listed₁ : (ofImage #[0xFF, 0xF0, 0x12] 1).instruction ≠ .invalid ∧
      (ofImage #[0xFF, 0xF0, 0x12] 1).instruction ≠ .stop := by rw [again]; decide
  obtain ⟨determined, assemble, assembled⟩ := text_determines_bytes
  have same : (ofImage #[0xFF, 0xF0, 0x12] 1).bytes = (ofImage image 0).bytes :=
    determined (fetchImage #[0xFF, 0xF0, 0x12]) 1 (fetchImage image) 0 listed₁.1 listed₁.2
      listed₀.1 listed₀.2 (by rw [← ofImage, ← ofImage, first, again])
  have here : assemble (ofImage image 0).text = (ofImage image 0).bytes :=
    assembled (fetchImage image) 0 listed₀.1 listed₀.2
  have there : assemble (ofImage image 2).text = (ofImage image 2).bytes :=
    assembled (fetchImage image) 2 listed₂.1 listed₂.2
  have pageText : page.text = "ld a, [$ff00+$12]" := by decide +kernel
  have farText : far.text = "ld a, [$ff12]" := by decide +kernel
  rw [first] at same here
  rw [second] at there
  exact ⟨first, second, same, assemble, pageText ▸ here, farText ▸ there⟩

end Line

end Sm83
