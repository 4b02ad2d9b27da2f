import Kernel16.Text.Hex

/-!
# Vectors and far pointers

A vector is the number of an interrupt.  Its entry in the vector table is a
far pointer to the code that serves it.  The kernel serves the first eight
exceptions and the sixteen lines of the interrupt controllers; all other
vectors stay with the firmware.
-/

namespace Kernel16

structure FarPointer where
  segment : UInt16
  offset : UInt16
  deriving DecidableEq, Repr, Inhabited

namespace FarPointer

/-- The physical address: segments start sixteen bytes apart. -/
def linear (p : FarPointer) : Nat := p.segment.toNat * 16 + p.offset.toNat

def text (p : FarPointer) : String :=
  Text.bareHex 4 p.segment.toNat ++ ":" ++ Text.bareHex 4 p.offset.toNat

end FarPointer

abbrev vectorCount : Nat := 256

def vectorEntrySize : Nat := 4

/-- Lines of both interrupt controllers together. -/
abbrev lineCount : Nat := 16

/-- Vector of the first controller line once the controllers are set up. -/
def lineVectorBase : UInt8 := 0x20

def timerLine : UInt8 := 0

/-- Exceptions that the kernel serves are the vectors below this. -/
def exceptionCount : Nat := 8

def isServed (vector : UInt8) : Bool :=
  decide (vector.toNat < exceptionCount) ||
    (decide (lineVectorBase ≤ vector) && decide (vector.toNat < lineVectorBase.toNat + lineCount))

/-- The vectors that the kernel serves, in the order in which they are installed. -/
def servedVectors : List UInt8 :=
  (List.range exceptionCount).map UInt8.ofNat ++
    (List.range lineCount).map fun line => lineVectorBase + UInt8.ofNat line

def firmwareEntry (vector : UInt8) : FarPointer :=
  ⟨0xF000, 0xE000 + vector.toUInt16 * 4⟩

/-- Segment of the kernel's code and entry stubs on the recording machine. -/
def stubSegment : UInt16 := 0x0060

/-- Offset of the stub of vector zero; stubs are sixteen bytes apart. -/
def stubBase : UInt16 := 0x1000

def stubEntry (vector : UInt8) : FarPointer :=
  ⟨stubSegment, stubBase + vector.toUInt16 * 16⟩

end Kernel16
