/-!
# Names of registers and conditions

The byte registers that instructions name, the sixteen-bit views of the register file, and the
conditions that a branch may ask for.
-/

namespace Sm83

/-- The byte registers that can be named singly; the flags are reachable only in the pair AF. -/
inductive Register where
  | a
  | b
  | c
  | d
  | e
  | h
  | l
deriving DecidableEq, Repr

/-- The sixteen-bit views of the register file. -/
inductive RegisterPair where
  | af
  | bc
  | de
  | hl
  | sp
  | pc
deriving DecidableEq, Repr

/-- What a conditional branch asks of the flags. -/
inductive Condition where
  /-- The zero flag is clear. -/
  | nz
  /-- The zero flag is set. -/
  | z
  /-- The carry flag is clear. -/
  | nc
  /-- The carry flag is set. -/
  | c
deriving DecidableEq, Repr

namespace Register

/-- Every byte register. -/
def all : List Register := [a, b, c, d, e, h, l]

/-- The assembly name of a register. -/
def text : Register → String
  | a => "a"
  | b => "b"
  | c => "c"
  | d => "d"
  | e => "e"
  | h => "h"
  | l => "l"

end Register

namespace RegisterPair

/-- Every pair. -/
def all : List RegisterPair := [af, bc, de, hl, sp, pc]

/-- The assembly name of a pair. -/
def text : RegisterPair → String
  | af => "af"
  | bc => "bc"
  | de => "de"
  | hl => "hl"
  | sp => "sp"
  | pc => "pc"

end RegisterPair

namespace Condition

/-- Every condition. -/
def all : List Condition := [nz, z, nc, c]

/-- The assembly name of a condition. -/
def text : Condition → String
  | nz => "nz"
  | z => "z"
  | nc => "nc"
  | c => "c"

end Condition

end Sm83
