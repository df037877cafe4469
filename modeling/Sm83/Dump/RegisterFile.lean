import Sm83.Dump.Format
import Sm83.RegisterFile

/-!
# Dumps of the register file

How the register file, its flags and the models of the hardware are declared to a format.
-/

namespace Sm83

open Dump

variable {ε : Type}

/-- The flags as they are declared, from bit 7 down to bit 4 of their byte. -/
def Flags.declared (format : Format ε) : Fields ε (Bool × Bool × Bool × Bool × Unit) :=
  .cons "z" format.boolean <| .cons "n" format.boolean <| .cons "h" format.boolean <|
    .cons "c" format.boolean .nil

/-- The codec of flags. -/
def Flags.codec (format : Format ε) : Codec ε Flags :=
  (format.record "Flags" (declared format)).map (fun (z, n, h, c, _) => { z, n, h, c })
    fun flags => (flags.z, flags.n, flags.h, flags.c, ())

/-- The register file as it is declared, its bytes first. -/
def RegisterFile.declared (format : Format ε) :
    Fields ε (UInt8 × Flags × UInt8 × UInt8 × UInt8 × UInt8 × UInt8 × UInt8 × UInt16 × UInt16 ×
      Bool × Bool × Bool × Unit) :=
  .cons "a" format.byte <| .cons "f" (Flags.codec format) <| .cons "b" format.byte <|
    .cons "c" format.byte <| .cons "d" format.byte <| .cons "e" format.byte <|
    .cons "h" format.byte <| .cons "l" format.byte <| .cons "sp" format.word <|
    .cons "pc" format.word <| .cons "ime" format.boolean <|
    .cons "ime_pending" format.boolean <| .cons "halted" format.boolean .nil

/-- The codec of register files. -/
def RegisterFile.codec (format : Format ε) : Codec ε RegisterFile :=
  (format.record "Registers" (declared format)).map
    (fun (a, f, b, c, d, e, h, l, sp, pc, ime, imePending, halted, _) =>
      { a, f, b, c, d, e, h, l, sp, pc, ime, imePending, halted })
    fun regs => (regs.a, regs.f, regs.b, regs.c, regs.d, regs.e, regs.h, regs.l, regs.sp, regs.pc,
      regs.ime, regs.imePending, regs.halted, ())

/-- The codec of models, which go by their names. -/
def Model.codec (format : Format ε) : Codec ε Model := format.choice "Model" Model.all Model.text

end Sm83
