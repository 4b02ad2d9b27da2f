import Kernel16.Heap.Basic

/-!
# First-fit allocation

A request takes the first block of the free list that is large enough.  A
block with room for another header behind the request is split: its tail stays
free and takes over its place in the list.  Otherwise the whole block leaves
the list.
-/

namespace Kernel16

/-- A place that holds the address of a free block: the head of the list, or
the next word of a block in it. -/
inductive Link where
  | head
  | after (block : Nat)
  deriving DecidableEq, Repr

/-- Size of the block that serves a request of `n` bytes, if it is a word. -/
def blockSize? (n : Nat) : Option Nat :=
  (alignUp? n heapAlign).bind (sum? · headerSize)

namespace Memory

/-- The first block of at least `needed` bytes on the list from `block` on,
which is at most `bound` blocks long, with the link that leads to it. -/
def firstFit (m : Memory) (needed : Nat) : (bound : Nat) → Link → Nat → Option (Link × Nat)
  | 0, _, _ => none
  | bound + 1, link, block =>
      if block = 0 then none
      else if needed ≤ m.sizeAt block then some (link, block)
      else m.firstFit needed bound (.after block) (m.nextAt block)

end Memory

namespace Arena

def redirect (s : Arena) (link : Link) (target : Nat) : Arena :=
  match link with
  | .head => { s with heap := { s.heap with head := target } }
  | .after block => { s with memory := s.memory.setNext block target }

def setSize (s : Arena) (block size : Nat) : Arena :=
  { s with memory := s.memory.setSize block size }

def setNext (s : Arena) (block next : Nat) : Arena :=
  { s with memory := s.memory.setNext block next }

/-- Hands out the first `needed` bytes of `block`, to which `link` leads, and
keeps the rest on the list if it can hold a header. -/
def take (s : Arena) (link : Link) (block needed : Nat) : Arena :=
  let whole := s.memory.header block
  let rest := whole.size - needed
  if headerSize ≤ rest then
    let tail := wrapWord (block + needed)
    let split := { s with memory := s.memory.setHeader tail ⟨rest, whole.next⟩ }
    ((split.redirect link tail).setSize block needed).setNext block 0
  else
    (s.redirect link whole.next).setNext block 0

/-- The payload address of a block for `n` bytes and the arena after it left
the free list.  A request of no bytes fails. -/
def allocate (s : Arena) (n : Nat) : Option (Nat × Arena) :=
  if n = 0 then none
  else do
    let needed ← blockSize? n
    let (link, block) ← s.memory.firstFit needed wordLimit .head s.heap.head
    return (wrapWord (block + headerSize), s.take link block needed)

@[simp] theorem allocate_zero (s : Arena) : s.allocate 0 = none := rfl

@[simp] theorem redirect_heap_range (s : Arena) (link : Link) (target : Nat) :
    (s.redirect link target).heap.start = s.heap.start ∧
      (s.redirect link target).heap.limit = s.heap.limit := by
  cases link <;> exact ⟨rfl, rfl⟩

end Arena

end Kernel16
