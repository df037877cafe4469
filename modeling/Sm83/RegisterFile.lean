import Sm83.Flags
import Sm83.Register
import Sm83.Text.Numeral
import Sm83.Word

/-!
# The register file

Seven byte registers and the flags, readable in pairs, the stack pointer, the program counter, and
three latches. Reading back what was written, and what each write leaves alone, are stated beside
the accessors.
-/

namespace Sm83

/-- The hardware revisions, which differ in what the registers hold at power on. -/
inductive Model where
  | dmg0
  | dmgAbc
  | mgb
deriving DecidableEq, Repr

namespace Model

/-- Every model. -/
def all : List Model := [dmg0, dmgAbc, mgb]

/-- The name of a model. -/
def text : Model → String
  | dmg0 => "DMG0"
  | dmgAbc => "DMGABC"
  | mgb => "MGB"

end Model

/-- The register file. -/
structure RegisterFile where
  a : UInt8 := 0
  f : Flags := {}
  b : UInt8 := 0
  c : UInt8 := 0
  d : UInt8 := 0
  e : UInt8 := 0
  h : UInt8 := 0
  l : UInt8 := 0
  /-- The stack pointer. -/
  sp : UInt16 := 0
  /-- The program counter. -/
  pc : UInt16 := 0
  /-- Interrupts are enabled. -/
  ime : Bool := false
  /-- Interrupts will be enabled when the next instruction starts. -/
  imePending : Bool := false
  /-- Instruction fetch is suspended. -/
  halted : Bool := false
deriving DecidableEq, Repr, Inhabited

namespace RegisterFile

/-- The byte in a register. -/
def get (regs : RegisterFile) : Register → UInt8
  | .a => regs.a
  | .b => regs.b
  | .c => regs.c
  | .d => regs.d
  | .e => regs.e
  | .h => regs.h
  | .l => regs.l

/-- Put a byte into a register. -/
def set (regs : RegisterFile) (register : Register) (byte : UInt8) : RegisterFile :=
  match register with
  | .a => { regs with a := byte }
  | .b => { regs with b := byte }
  | .c => { regs with c := byte }
  | .d => { regs with d := byte }
  | .e => { regs with e := byte }
  | .h => { regs with h := byte }
  | .l => { regs with l := byte }

/-- The word in a pair; the register named first is its upper half. -/
def getPair (regs : RegisterFile) : RegisterPair → UInt16
  | .af => Word.ofBytes regs.a regs.f.toByte
  | .bc => Word.ofBytes regs.b regs.c
  | .de => Word.ofBytes regs.d regs.e
  | .hl => Word.ofBytes regs.h regs.l
  | .sp => regs.sp
  | .pc => regs.pc

/-- Put a word into a pair. The flags take only the upper half of their byte. -/
def setPair (regs : RegisterFile) (pair : RegisterPair) (word : UInt16) : RegisterFile :=
  match pair with
  | .af => { regs with a := Word.high word, f := Flags.ofByte (Word.low word) }
  | .bc => { regs with b := Word.high word, c := Word.low word }
  | .de => { regs with d := Word.high word, e := Word.low word }
  | .hl => { regs with h := Word.high word, l := Word.low word }
  | .sp => { regs with sp := word }
  | .pc => { regs with pc := word }

/-- The word that AF holds. -/
def af (regs : RegisterFile) : UInt16 := regs.getPair .af

/-- The word that BC holds. -/
def bc (regs : RegisterFile) : UInt16 := regs.getPair .bc

/-- The word that DE holds. -/
def de (regs : RegisterFile) : UInt16 := regs.getPair .de

/-- The address that HL holds. -/
def hl (regs : RegisterFile) : UInt16 := regs.getPair .hl

/-- Whether a branch with this condition is taken; one without a condition always is. -/
def holds (regs : RegisterFile) : Option Condition → Bool
  | none => true
  | some .nz => !regs.f.z
  | some .z => regs.f.z
  | some .nc => !regs.f.c
  | some .c => regs.f.c

/-- The register file that the boot program of a model leaves. -/
def afterBoot (model : Model) : RegisterFile :=
  let (af, bc, de, hl) : UInt16 × UInt16 × UInt16 × UInt16 :=
    match model with
    | .dmg0 => (0x0100, 0xFF13, 0x00C1, 0x8403)
    | .dmgAbc => (0x01B0, 0x0013, 0x00D8, 0x014D)
    | .mgb => (0xFFB0, 0x0013, 0x00D8, 0x014D)
  let regs : RegisterFile := { sp := 0xFFFE, pc := 0x0100 }
  (((regs.setPair .af af).setPair .bc bc).setPair .de de).setPair .hl hl

/-- One line with every pair and the two latches that stop or interrupt the program. -/
def text (regs : RegisterFile) : String :=
  let pair (name : String) (rr : RegisterPair) := name ++ "=" ++ Text.upperHexWord (regs.getPair rr)
  let latch (name : String) (set : Bool) := name ++ "=" ++ (if set then "1" else "0")
  " ".intercalate
    [pair "AF" .af, pair "BC" .bc, pair "DE" .de, pair "HL" .hl, pair "SP" .sp, pair "PC" .pc,
      latch "IME" regs.ime, latch "HALT" regs.halted]

/-! ## Reading back -/

/-- A register holds what was put into it. -/
@[simp] theorem get_set_self (regs : RegisterFile) (register : Register) (byte : UInt8) :
    (regs.set register byte).get register = byte := by
  cases register <;> rfl

/-- Putting a byte into one register leaves every other register alone. -/
theorem get_set_of_ne (regs : RegisterFile) {left right : Register} (byte : UInt8)
    (different : left ≠ right) : (regs.set left byte).get right = regs.get right := by
  cases left <;> cases right <;> simp_all [set, get]

/-- A pair holds what was put into it, the flags without the lower half of their byte. -/
theorem getPair_setPair_self (regs : RegisterFile) (pair : RegisterPair) (word : UInt16) :
    (regs.setPair pair word).getPair pair =
      if pair = .af then Word.ofBytes (Word.high word) (Word.low word &&& 0xF0) else word := by
  cases pair <;> simp [setPair, getPair]

end RegisterFile

end Sm83
