import Kernel16.Heap.Allocate
import Kernel16.Heap.Free

/-!
# Requests with an alignment

A layout is a size with an alignment.  The heap's own alignment serves the
smaller ones.  For a stricter one, a larger block is asked for, the payload is
moved up to the next boundary, and the word just below it remembers the address
that the heap gave out.
-/

namespace Kernel16

/-- The alignment is a power of two, and the size rounded up to it fits the
positive half of a word. -/
structure Layout where
  size : Nat
  align : Nat
  align_eq : align = 1 <<< align.log2
  size_add_align_le : size + align ≤ wordLimit / 2

namespace Layout

def ofSizeAlign? (size align : Nat) : Option Layout :=
  if h : align = 1 <<< align.log2 ∧ size + align ≤ wordLimit / 2 then
    some ⟨size, align, h.1, h.2⟩
  else none

def resize? (l : Layout) (size : Nat) : Option Layout :=
  ofSizeAlign? size l.align

def isNatural (l : Layout) : Bool := decide (l.align ≤ heapAlign)

/-- Bytes to ask of the heap: room for the payload, and for a stricter
alignment also for the word below it and the way up to the boundary. -/
def request? (l : Layout) : Option Nat :=
  let size := max l.size 1
  if l.isNatural then some size
  else (sum? (l.align - 1) Memory.wordSize).bind (sum? size ·)

def place (l : Layout) (raw : Nat) : Nat :=
  alignDown (wrapWord (wrapWord (raw + Memory.wordSize) + l.align - 1)) l.align

/-- The word below a payload. -/
def slot (payload : Nat) : Nat := payload - Memory.wordSize

theorem align_pos (l : Layout) : 0 < l.align := by
  rw [l.align_eq, Nat.one_shiftLeft]
  exact Nat.two_pow_pos _

end Layout

end Kernel16
