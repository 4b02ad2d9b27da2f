import Kernel16.Bus.Program
import Kernel16.Interrupt.LineSet

/-!
# The pair of interrupt controllers

Two controllers of eight lines each are chained: the second one reports on a
line of the first.  They are programmed over the bus, each through a command
and a data register; outside of its initialization the data register of a
controller is its mask.
-/

namespace Kernel16

namespace Controller

def primaryCommand : UInt16 := 0x20
def primaryData : UInt16 := 0x21
def secondaryCommand : UInt16 := 0xA0
def secondaryData : UInt16 := 0xA1

/-- A register without effect; writing it gives the controllers time to settle. -/
def delay : UInt16 := 0x80

/-- The command that acknowledges the interrupt in service. -/
def acknowledgement : UInt8 := 0x20

end Controller

/-- The pair, with its first line mapped to vector `base`. -/
structure Controller where
  base : UInt8
  deriving DecidableEq, Repr

namespace Controller

def secondaryBase (c : Controller) : UInt8 := c.base + 8

def lineOf? (c : Controller) (vector : UInt8) : Option UInt8 :=
  if c.base ≤ vector ∧ (vector - c.base).toNat < lineCount then some (vector - c.base) else none

def enabled : BusProgram LineSet := do
  let primary ← .input primaryData
  let secondary ← .input secondaryData
  return .ofMasks primary secondary

def setEnabled (lines : LineSet) : BusProgram Unit :=
  .outputs [(primaryData, lines.primaryMask), (secondaryData, lines.secondaryMask)]

def disableAll : BusProgram Unit := setEnabled .empty

/-- Enables some lines in addition to those that are enabled. -/
def enable (lines : LineSet) : BusProgram Unit := do
  let now ← enabled
  setEnabled (now.union lines)

def disable (lines : LineSet) : BusProgram Unit := do
  let now ← enabled
  setEnabled (now.diff lines)

/-- Acknowledges a line, at both controllers if it belongs to the second. -/
def acknowledge (line : UInt8) : BusProgram Unit :=
  .outputs ((if 8 ≤ line then [(secondaryCommand, acknowledgement)] else []) ++
    [(primaryCommand, acknowledgement)])

/-- The four initialization words of both controllers, in the order in which
they are written: begin, the vector offsets, the chaining, the mode. -/
def initializationWords (c : Controller) : List (UInt16 × UInt8) :=
  [(primaryCommand, 0x11), (secondaryCommand, 0x11),
    (primaryData, c.base), (secondaryData, c.secondaryBase),
    (primaryData, 0x04), (secondaryData, 0x02),
    (primaryData, 0x01), (secondaryData, 0x01)]

/-- Initializes both controllers and leaves every line disabled. -/
def setUp (c : Controller) : BusProgram Unit := do
  .outputs (c.initializationWords.flatMap fun word => [word, (delay, 0)])
  disableAll

end Controller

end Kernel16
