import Kernel16.Heap.Basic

/-!
# Giving blocks back

An address is accepted only if it is the payload of a block of the pool that
is not free.  The checks run from cheap to thorough: the range of the pool, the
alignment, the free list, then a walk over all blocks from the start of the
pool along their size words.  An accepted block goes in front of the free list.
-/

namespace Kernel16

inductive FreeRefusal where
  | null
  | outside
  | unaligned
  /-- The header lies inside a free block. -/
  | alreadyFree
  /-- The size word describes a block that does not fit the pool. -/
  | badSize
  /-- The address lies inside a block and not at its payload. -/
  | noPayload
  deriving DecidableEq, Repr

def FreeRefusal.reason : FreeRefusal → String
  | .null => "null pointer"
  | .outside => "outside pool"
  | .unaligned => "misaligned pointer"
  | .alreadyFree => "double free"
  | .badSize => "corrupt block header"
  | .noPayload => "not a block start"

namespace Memory

/-- Whether the walk from `current` along the size words reaches `target`.  It
gives up at a size below a header and at a block that passes `limit`; a step
covers a header at least, so `bound` steps suffice for `bound` bytes. -/
def walkReaches (m : Memory) (limit target : Nat) : (bound current : Nat) → Bool
  | 0, _ => false
  | bound + 1, current =>
      if current < target then
        let size := m.sizeAt current
        if size < headerSize then false
        else match sum? current size with
          | none => false
          | some following =>
              if following ≤ limit then m.walkReaches limit target bound following
              else false
      else decide (current = target)

end Memory

namespace Arena

def isBlockStart (s : Arena) (a : Nat) : Bool :=
  s.memory.walkReaches s.heap.limit a (s.heap.size + 1) s.heap.start

def blockFits (s : Arena) (a size : Nat) : Bool :=
  decide (headerSize ≤ size) && (sum? a size).any (· ≤ s.heap.limit)

/-- Puts the block with payload address `a` in front of the free list and
answers its size. -/
def free (s : Arena) (a : Nat) : Except FreeRefusal (Nat × Arena) :=
  if a = 0 then .error .null
  else if !s.heap.hasPool || a < s.heap.start + headerSize || s.heap.limit ≤ a then
    .error .outside
  else if (a - s.heap.start) % heapAlign ≠ 0 then .error .unaligned
  else
    let block := a - headerSize
    if s.freeBlocks.any (·.contains block) then .error .alreadyFree
    else if !s.isBlockStart block then .error .noPayload
    else
      let size := s.memory.sizeAt block
      if !s.blockFits block size then .error .badSize
      else .ok (size, {
        memory := s.memory.setNext block s.heap.head
        heap := { s.heap with head := block } })

theorem free_of_no_pool (m : Memory) {a : Nat} (h : a ≠ 0) :
    free ⟨m, {}⟩ a = .error .outside := by
  simp [free, h, Heap.hasPool]

end Arena

end Kernel16
