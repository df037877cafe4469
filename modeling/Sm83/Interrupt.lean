/-!
# Interrupts

The five interrupt sources, most urgent first.
-/

namespace Sm83

/-- The interrupt sources. -/
inductive Interrupt where
  | vblank
  | stat
  | timer
  | serial
  | joypad
deriving DecidableEq, Repr

namespace Interrupt

/-- Every source, most urgent first. -/
def all : List Interrupt := [vblank, stat, timer, serial, joypad]

/-- The name of a source. -/
def text : Interrupt → String
  | vblank => "VBlank"
  | stat => "Stat"
  | timer => "Timer"
  | serial => "Serial"
  | joypad => "Joypad"

/-- The source of a name. -/
def ofText? (name : String) : Option Interrupt := all.find? (·.text == name)

/-- The bit of a source in a request byte. -/
def mask : Interrupt → UInt8
  | vblank => 0x01
  | stat => 0x02
  | timer => 0x04
  | serial => 0x08
  | joypad => 0x10

/-- The address at which the service of a source starts. -/
def handler : Interrupt → UInt16
  | vblank => 0x40
  | stat => 0x48
  | timer => 0x50
  | serial => 0x58
  | joypad => 0x60

/-- The most urgent source whose bit is set in a request byte. -/
def mostUrgent (requests : UInt8) : Option Interrupt :=
  all.find? (requests &&& ·.mask != 0)

end Interrupt

end Sm83
