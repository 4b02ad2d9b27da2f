import Kernel16.Word
import Kernel16.Memory

/-!
# The heap and its pool

A heap manages one pool of memory, at most a segment long.  Blocks tile the
pool from its start to its limit; each begins with a header of two words, the
size of the whole block and the address of the next free block.  Free blocks
form a list that starts at `head` and ends at address zero.

The header words live in the memory that the heap hands out, so every walk
reads them from there.  An `Arena` is a memory with a heap laid over it.
-/

namespace Kernel16

/-- Payload addresses and block sizes are multiples of this. -/
def heapAlign : Nat := 8

/-- Bytes of a block header, and so the size of the smallest block. -/
def headerSize : Nat := 16

def largestPool : Nat := 0x10000

structure Header where
  size : Nat
  next : Nat
  deriving DecidableEq, Repr

/-- A block of the pool, by the address of its header and its whole size. -/
structure Block where
  addr : Nat
  size : Nat
  deriving DecidableEq, Repr

def Block.payload (b : Block) : Nat := b.addr + headerSize

def Block.contains (b : Block) (a : Nat) : Bool :=
  decide (b.addr ≤ a) && decide (a < wrapWord (b.addr + b.size))

namespace Memory

def sizeAt (m : Memory) (block : Nat) : Nat := m.word block

def nextAt (m : Memory) (block : Nat) : Nat := m.word (block + wordSize)

def setSize (m : Memory) (block size : Nat) : Memory := m.setWord block size

def setNext (m : Memory) (block next : Nat) : Memory := m.setWord (block + wordSize) next

def header (m : Memory) (block : Nat) : Header := ⟨m.sizeAt block, m.nextAt block⟩

def setHeader (m : Memory) (block : Nat) (h : Header) : Memory :=
  (m.setSize block h.size).setNext block h.next

/-- The blocks met by following next words from address `a` up to address
zero, at most `bound` of them. -/
def freeChain (m : Memory) : (bound a : Nat) → List Block
  | 0, _ => []
  | bound + 1, a =>
      if a = 0 then []
      else ⟨a, m.sizeAt a⟩ :: m.freeChain bound (m.nextAt a)

end Memory

/-- The range `start ≤ a < limit` of managed addresses and the first free
block.  A heap without a pool has an empty range and no free block. -/
structure Heap where
  start : Nat := 0
  limit : Nat := 0
  head : Nat := 0
  deriving DecidableEq, Repr

namespace Heap

def size (h : Heap) : Nat := h.limit - h.start

def hasPool (h : Heap) : Bool := decide (h.start < h.limit)

def contains (h : Heap) (a : Nat) : Bool :=
  decide (h.start ≤ a) && decide (a < h.limit)

end Heap

inductive PoolError where
  | null
  | tooSmall (size : Nat)
  | tooLarge (size : Nat)
  deriving DecidableEq, Repr

def PoolError.message : PoolError → String
  | .null => "heap pool start is null"
  | .tooSmall size => s!"heap pool of {size} bytes cannot hold a block header"
  | .tooLarge size => s!"heap pool of {size} bytes exceeds the {largestPool} byte segment"

structure PoolUsage where
  managed : Nat := 0
  free : Nat := 0
  blocks : Nat := 0
  largest : Nat := 0
  deriving DecidableEq, Repr

def PoolUsage.add (usage : PoolUsage) (b : Block) : PoolUsage where
  managed := usage.managed
  free := wrapWord (usage.free + b.size)
  blocks := usage.blocks + 1
  largest := max usage.largest b.size

structure Arena where
  memory : Memory := {}
  heap : Heap := {}

namespace Arena

/-- Takes the largest aligned part of the pool as one free block and answers
its size.  Whatever the heap managed before is forgotten. -/
def init (s : Arena) (start size : Nat) : Except PoolError (Nat × Arena) :=
  if start = 0 then .error .null
  else if largestPool < size then .error (.tooLarge size)
  else match alignUp? start heapAlign with
    | none => .error (.tooSmall size)
    | some first =>
        let usable := alignDown (size - (first - start)) heapAlign
        if usable < headerSize then .error (.tooSmall size)
        else .ok (usable, {
          memory := s.memory.setHeader first ⟨usable, 0⟩
          heap := ⟨first, wrapWord (first + usable), first⟩ })

/-- The free list, first block first.  A list that ends meets no address twice,
so the number of words bounds its length, wherever its links lead. -/
def freeBlocks (s : Arena) : List Block :=
  s.memory.freeChain wordLimit s.heap.head

def usage (s : Arena) : PoolUsage :=
  s.freeBlocks.foldl PoolUsage.add ⟨s.heap.size, 0, 0, 0⟩

end Arena

end Kernel16
