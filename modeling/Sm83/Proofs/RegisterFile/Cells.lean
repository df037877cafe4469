import Mathlib.Logic.Function.Basic
import Sm83.Proofs.Schedule.Switches

/-!
# The register file as a map of cells

Eight bytes and two words are the cells of a register file, each of which holds a number. A pair is
two of them or one, and the flags are the upper half of a byte. Whatever is put into the registers,
everything that is read from them is what the map of the cells gives, where each change replaces the
numbers of the cells that it names and of no others.
-/

namespace Sm83

/-- The bytes and the words of a register file. -/
inductive Cell where
  | a
  | f
  | b
  | c
  | d
  | e
  | h
  | l
  | sp
  | pc
deriving DecidableEq, Repr

/-- The number in each cell. -/
abbrev Cells := Cell → Nat

/-- The cell of a byte register. -/
def Register.cell : Register → Cell
  | a => .a
  | b => .b
  | c => .c
  | d => .d
  | e => .e
  | h => .h
  | l => .l

/-- Where a word lies among the cells. -/
inductive Extent where
  /-- In two bytes. -/
  | halves (upper lower : Cell)
  /-- In a cell of its own. -/
  | whole (cell : Cell)

/-- Where a pair lies; the register named first is its upper half. -/
def RegisterPair.extent : RegisterPair → Extent
  | af => .halves .a .f
  | bc => .halves .b .c
  | de => .halves .d .e
  | hl => .halves .h .l
  | sp => .whole .sp
  | pc => .whole .pc

/-- The cells that a word takes. -/
def Extent.cells : Extent → List Cell
  | halves upper lower => [upper, lower]
  | whole cell => [cell]

namespace RegisterFile

/-- A change to a register file. -/
inductive Edit where
  /-- Put a byte into a register. -/
  | set (register : Register) (byte : UInt8)
  /-- Put a word into a pair. -/
  | setPair (pair : RegisterPair) (word : UInt16)
  /-- Take the flags from a byte. -/
  | setFlags (byte : UInt8)

/-- The register file after a change. -/
def edit (regs : RegisterFile) : Edit → RegisterFile
  | .set register byte => regs.set register byte
  | .setPair pair word => regs.setPair pair word
  | .setFlags byte => { regs with f := Flags.ofByte byte }

/-- The register file after changes in turn. -/
def edits (regs : RegisterFile) (changes : List Edit) : RegisterFile := changes.foldl edit regs

/-- The cells that a change names. -/
def Edit.named : Edit → List Cell
  | set register _ => [register.cell]
  | setPair pair _ => pair.extent.cells
  | setFlags _ => [.f]

end RegisterFile

/-! ## Changes to the map -/

namespace Cells

/-- Put a byte into a cell. The one of the flags keeps the upper half of the byte. -/
def putByte (cells : Cells) (cell : Cell) (byte : Nat) : Cells :=
  Function.update cells cell (if cell = .f then byte &&& 0xF0 else byte)

/-- The word in a pair. -/
def pair (cells : Cells) (pair : RegisterPair) : Nat :=
  match pair.extent with
  | .halves upper lower => 256 * cells upper + cells lower
  | .whole cell => cells cell

/-- Put a word into a pair. -/
def putPair (cells : Cells) (pair : RegisterPair) (word : Nat) : Cells :=
  match pair.extent with
  | .halves upper lower => (cells.putByte upper (word / 256)).putByte lower (word % 256)
  | .whole cell => Function.update cells cell word

/-- Whether a branch is taken: bit 7 of the flags' byte is the zero flag, bit 4 the carry flag. -/
def holds (cells : Cells) : Option Condition → Bool
  | none => true
  | some .nz => !(cells .f).testBit 7
  | some .z => (cells .f).testBit 7
  | some .nc => !(cells .f).testBit 4
  | some .c => (cells .f).testBit 4

/-- The cells after a change. -/
def edit (cells : Cells) : RegisterFile.Edit → Cells
  | .set register byte => cells.putByte register.cell byte.toNat
  | .setPair pair word => cells.putPair pair word.toNat
  | .setFlags byte => cells.putByte .f byte.toNat

/-- The cells after changes in turn. -/
def edits (cells : Cells) (changes : List RegisterFile.Edit) : Cells := changes.foldl edit cells

/-- A byte that is put into one cell leaves every other cell alone. -/
theorem putByte_of_ne (cells : Cells) {cell other : Cell} (byte : Nat) (different : other ≠ cell) :
    cells.putByte cell byte other = cells other :=
  Function.update_of_ne different _ _

/-- A change leaves the cells alone that it does not name. -/
theorem edit_of_not_named (cells : Cells) {change : RegisterFile.Edit} {cell : Cell}
    (unnamed : cell ∉ change.named) : cells.edit change cell = cells cell := by
  cases change with
  | set register byte =>
    exact cells.putByte_of_ne _ fun same => unnamed (List.mem_singleton.mpr same)
  | setPair pair word =>
    have outside : cell ∉ pair.extent.cells := unnamed
    change cells.putPair pair word.toNat cell = cells cell
    unfold putPair
    cases lies : pair.extent with
    | halves upper lower =>
      rw [lies] at outside
      simp only [Extent.cells, List.mem_cons, List.not_mem_nil, or_false, not_or] at outside
      exact (putByte_of_ne _ _ outside.2).trans (putByte_of_ne _ _ outside.1)
    | whole place =>
      rw [lies] at outside
      exact Function.update_of_ne (fun same => outside (List.mem_singleton.mpr same)) _ _
  | setFlags byte =>
    exact cells.putByte_of_ne _ fun same => unnamed (List.mem_singleton.mpr same)

/-- Changes in turn leave the cells alone that none of them names. -/
theorem edits_of_not_named (cells : Cells) {changes : List RegisterFile.Edit} {cell : Cell}
    (unnamed : ∀ change ∈ changes, cell ∉ change.named) :
    cells.edits changes cell = cells cell := by
  induction changes generalizing cells with
  | nil => rfl
  | cons change rest ih =>
    have later := ih (cells.edit change) fun other listed =>
      unnamed other (List.mem_cons_of_mem change listed)
    exact later.trans (cells.edit_of_not_named (unnamed change List.mem_cons_self))

end Cells

/-! ## The cells of a register file -/

/-- The byte of the flags as a number. -/
def Flags.weight (flags : Flags) : Nat :=
  128 * flags.z.toNat + 64 * flags.n.toNat + 32 * flags.h.toNat + 16 * flags.c.toNat

/-- The flags weigh what their byte does. -/
theorem Flags.toNat_toByte (flags : Flags) : flags.toByte.toNat = flags.weight := by
  rcases flags with ⟨z, n, h, c⟩
  cases z <;> cases n <;> cases h <;> cases c <;> rfl

/-- Flags that were taken from a byte weigh what its upper half does. -/
theorem Flags.weight_ofByte (byte : UInt8) : (Flags.ofByte byte).weight = byte.toNat &&& 0xF0 := by
  rw [← Flags.toNat_toByte, Flags.toByte_ofByte, UInt8.toNat_and]
  rfl

namespace RegisterFile

/-- The cells of a register file. -/
def cells (regs : RegisterFile) : Cells
  | .a => regs.a.toNat
  | .f => regs.f.weight
  | .b => regs.b.toNat
  | .c => regs.c.toNat
  | .d => regs.d.toNat
  | .e => regs.e.toNat
  | .h => regs.h.toNat
  | .l => regs.l.toNat
  | .sp => regs.sp.toNat
  | .pc => regs.pc.toNat

/-- Putting a byte into a register puts it into its cell. -/
theorem cells_set (regs : RegisterFile) (register : Register) (byte : UInt8) :
    (regs.set register byte).cells = regs.cells.putByte register.cell byte.toNat := by
  funext cell
  cases register <;> cases cell <;> rfl

/-- Taking the flags from a byte puts it into their cell. -/
theorem cells_setFlags (regs : RegisterFile) (byte : UInt8) :
    ({ regs with f := Flags.ofByte byte } : RegisterFile).cells =
      regs.cells.putByte .f byte.toNat := by
  funext cell
  cases cell with
  | f => exact Flags.weight_ofByte byte
  | _ => rfl

/-- Putting a word into a pair puts it into the cells of the pair, one after the other if these are
the cells of two registers. -/
theorem cells_setPair (regs : RegisterFile) (pair : RegisterPair) (word : UInt16) :
    (regs.setPair pair word).cells = regs.cells.putPair pair word.toNat := by
  have halves (upper lower : Register) :
      ((regs.set upper (Word.high word)).set lower (Word.low word)).cells =
        (regs.cells.putByte upper.cell (word.toNat / 256)).putByte lower.cell
          (word.toNat % 256) := by
    rw [cells_set, cells_set, Word.toNat_high, Word.toNat_low]
  cases pair with
  | af =>
    have flags := cells_setFlags (regs.set .a (Word.high word)) (Word.low word)
    rw [cells_set, Word.toNat_high, Word.toNat_low] at flags
    exact flags
  | bc => exact halves .b .c
  | de => exact halves .d .e
  | hl => exact halves .h .l
  | sp =>
    funext cell
    cases cell <;> rfl
  | pc =>
    funext cell
    cases cell <;> rfl

/-- The cells after a change are those before with the change made to them. -/
theorem cells_edit (regs : RegisterFile) (change : Edit) :
    (regs.edit change).cells = regs.cells.edit change := by
  cases change with
  | set register byte => exact regs.cells_set register byte
  | setPair pair word => exact regs.cells_setPair pair word
  | setFlags byte => exact regs.cells_setFlags byte

/-- The cells after changes in turn are those before with the changes made to them. -/
theorem cells_edits (regs : RegisterFile) (changes : List Edit) :
    (regs.edits changes).cells = regs.cells.edits changes := by
  induction changes generalizing regs with
  | nil => rfl
  | cons change rest ih =>
    have onward := ih (regs.edit change)
    rw [cells_edit] at onward
    exact onward

/-- No change touches a latch. -/
theorem switches_edits (regs : RegisterFile) (changes : List Edit) :
    (regs.edits changes).switches = regs.switches := by
  induction changes generalizing regs with
  | nil => rfl
  | cons change rest ih =>
    have first : (regs.edit change).switches = regs.switches := by
      cases change with
      | set register byte => exact switches_set
      | setPair pair word => exact switches_setPair
      | setFlags byte => rfl
    exact (ih (regs.edit change)).trans first

/-! ## Reading the cells -/

/-- A register holds the number in its cell. -/
theorem toNat_get (regs : RegisterFile) (register : Register) :
    (regs.get register).toNat = regs.cells register.cell := by
  cases register <;> rfl

/-- A pair holds the word in its cells. -/
theorem toNat_getPair (regs : RegisterFile) (pair : RegisterPair) :
    (regs.getPair pair).toNat = regs.cells.pair pair := by
  cases pair with
  | af =>
    have word := Word.toNat_ofBytes regs.a regs.f.toByte
    rw [Flags.toNat_toByte] at word
    exact word
  | bc => exact Word.toNat_ofBytes regs.b regs.c
  | de => exact Word.toNat_ofBytes regs.d regs.e
  | hl => exact Word.toNat_ofBytes regs.h regs.l
  | sp => rfl
  | pc => rfl

/-- A branch is taken as the bits of the flags' cell say. -/
theorem holds_eq (regs : RegisterFile) (condition : Option Condition) :
    regs.holds condition = regs.cells.holds condition := by
  have bits : ∀ flags : Flags,
      flags.weight.testBit 7 = flags.z ∧ flags.weight.testBit 4 = flags.c := by
    rintro ⟨z, n, h, c⟩
    cases z <;> cases n <;> cases h <;> cases c <;> decide
  obtain ⟨zero, carry⟩ := bits regs.f
  cases condition with
  | none => rfl
  | some condition =>
    cases condition with
    | nz => exact congrArg (!·) zero.symm
    | z => exact zero.symm
    | nc => exact congrArg (!·) carry.symm
    | c => exact carry.symm

/-- Whatever bytes and words are put into registers, pairs and flags, one after another: every
register, every pair, the byte of the flags and every condition are what the cells give in which the
same changes were made. The lower half of the flags' byte is zero; cells that no change names hold
what they held, and the latches are as they were. -/
theorem refines_cells (regs : RegisterFile) (changes : List Edit) :
    let after := regs.edits changes
    let cells := regs.cells.edits changes
    (∀ register, (after.get register).toNat = cells register.cell) ∧
    (∀ pair, (after.getPair pair).toNat = cells.pair pair) ∧
    (after.af.toNat = 256 * cells .a + cells .f ∧ after.bc.toNat = 256 * cells .b + cells .c ∧
      after.de.toNat = 256 * cells .d + cells .e ∧ after.hl.toNat = 256 * cells .h + cells .l) ∧
    (after.f.toByte.toNat = cells .f ∧ cells .f % 16 = 0) ∧
    (∀ condition, after.holds condition = cells.holds condition) ∧
    (∀ cell, (∀ change ∈ changes, cell ∉ change.named) → after.cells cell = regs.cells cell) ∧
    after.switches = regs.switches := by
  intro after cells
  have same : after.cells = cells := regs.cells_edits changes
  have pairs (pair : RegisterPair) : (after.getPair pair).toNat = cells.pair pair := by
    rw [toNat_getPair, same]
  have flags : after.f.weight = cells .f := congrFun same .f
  refine ⟨fun register => ?_, pairs, ⟨pairs .af, pairs .bc, pairs .de, pairs .hl⟩, ⟨?_, ?_⟩,
    fun condition => ?_, fun cell unnamed => ?_, regs.switches_edits changes⟩
  · rw [toNat_get, same]
  · rw [Flags.toNat_toByte, flags]
  · rw [← flags, Flags.weight]
    omega
  · rw [holds_eq, same]
  · rw [same]
    exact regs.cells.edits_of_not_named unnamed

/-- The flags keep the upper half of what is put into AF, or of what they are taken from, and C,
which no change names, makes a pair with the new B. -/
theorem cells_of_changed_flags :
    let regs : RegisterFile := { c := 0x56, ime := true }
    let changes : List Edit := [.setPair .af 0x12FF, .set .b 0x34, .setFlags 0x5F]
    let after := regs.edits changes
    ((∀ change ∈ changes, Cell.c ∉ change.named) ∧ after.cells .c = 0x56) ∧
      after.af.toNat = 0x1250 ∧ after.bc.toNat = 0x3456 ∧ after.holds (some .c) = true := by
  intro regs changes after
  have unnamed : ∀ change ∈ changes, Cell.c ∉ change.named := by decide
  obtain ⟨-, -, ⟨af, bc, -⟩, -, holds, kept, -⟩ := regs.refines_cells changes
  exact ⟨⟨unnamed, kept .c unnamed⟩, af.trans (by decide), bc.trans (by decide),
    (holds (some .c)).trans (by decide)⟩

end RegisterFile

end Sm83
