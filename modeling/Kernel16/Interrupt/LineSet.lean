import Kernel16.Interrupt.Vector

/-!
# Sets of controller lines

A set of lines is a word with one bit for each line.  The two controllers hold
the complement of the set of enabled lines, eight lines each, in their mask
registers.
-/

namespace Kernel16

structure LineSet where
  bits : UInt16
  deriving DecidableEq, Repr

namespace LineSet

def contains (s : LineSet) (line : Nat) : Bool := s.bits.toBitVec.getLsbD line

def empty : LineSet := ⟨0⟩

def all : LineSet := ⟨0xFFFF⟩

def union (s t : LineSet) : LineSet := ⟨s.bits ||| t.bits⟩

def diff (s t : LineSet) : LineSet := ⟨s.bits &&& ~~~t.bits⟩

/-- The set of one line; there are sixteen lines. -/
def single? (line : UInt8) : Option LineSet :=
  if line.toNat < lineCount then some ⟨1 <<< line.toUInt16⟩ else none

/-- Lines that the kernel enables unless told otherwise: timer, keyboard,
cascade and both serial lines. -/
def standard : LineSet := ⟨0x001F⟩

/-- The line on which the second controller reaches the first. -/
def cascade : LineSet := ⟨0x0004⟩

/-- Adds the cascade line if a line of the second controller is in the set. -/
def withCascade (s : LineSet) : LineSet :=
  if s.bits &&& 0xFF00 = 0 then s else s.union cascade

/-- The enabled lines according to both mask registers. -/
def ofMasks (primary secondary : UInt8) : LineSet :=
  ⟨~~~(primary.toUInt16 ||| secondary.toUInt16 <<< 8)⟩

def primaryMask (s : LineSet) : UInt8 := (~~~s.bits).toUInt8

def secondaryMask (s : LineSet) : UInt8 := ((~~~s.bits) >>> 8).toUInt8

@[simp] theorem contains_empty (line : Nat) : empty.contains line = false := by
  simp [contains, empty]

@[simp] theorem contains_union (s t : LineSet) (line : Nat) :
    (s.union t).contains line = (s.contains line || t.contains line) := by
  simp [contains, union]

theorem contains_diff (s t : LineSet) {line : Nat} (h : line < lineCount) :
    (s.diff t).contains line = (s.contains line && !t.contains line) := by
  simp [contains, diff, h]

end LineSet

end Kernel16
