import Kernel16.Proofs.Heap.Holding
import Kernel16.Proofs.WordProgram

/-!
# Sums and differences of the heap

The operations of the heap once more, as programs that spell out every sum and
difference they leave unchecked.  With wrap-around the programs come to what the
operations come to, also where clients have written over headers.

Some results are bounded by a check just before them.  The others rest on the
state of the heap: the free blocks lie inside the pool, the pool lies inside the
words, and the free blocks together are no larger than the pool.  Where this
holds, no result leaves the words.
-/

namespace Kernel16

open WordProgram

/-- Looks into the block `b` for `x`, unless an earlier block was found. -/
def Block.findProgram (x : Nat) (found : Option Nat) (b : Block) : WordProgram (Option Nat) :=
  if found.isNone && b.addr ≤ x then do
    let limit ← sum b.addr b.size
    return if x < limit then some b.addr else found
  else return found

def PoolUsage.addProgram (usage : PoolUsage) (b : Block) : WordProgram PoolUsage := do
  let free ← sum usage.free b.size
  let blocks ← sum usage.blocks 1
  return ⟨usage.managed, free, blocks, max usage.largest b.size⟩

namespace Arena

/-! ## The operations, with their sums and differences -/

def initProgram (s : Arena) (start size : Nat) :
    WordProgram (Except PoolError (Nat × Arena)) :=
  if start = 0 then return .error .null
  else if largestPool < size then return .error (.tooLarge size)
  else match alignUp? start heapAlign with
    | none => return .error (.tooSmall size)
    | some first => do
        let skipped ← difference first start
        let usable ← roundDown (size - skipped) heapAlign
        if usable < headerSize then return .error (.tooSmall size)
        else
          let limit ← sum first usable
          return .ok (usable, {
            memory := s.memory.setHeader first ⟨usable, 0⟩
            heap := ⟨first, limit, first⟩ })

def takeProgram (s : Arena) (link : Link) (block needed : Nat) : WordProgram Arena := do
  let whole := s.memory.header block
  let rest ← difference whole.size needed
  if headerSize ≤ rest then
    let tail ← sum block needed
    let split := { s with memory := s.memory.setHeader tail ⟨rest, whole.next⟩ }
    return ((split.redirect link tail).setSize block needed).setNext block 0
  else return (s.redirect link whole.next).setNext block 0

def allocateProgram (s : Arena) (n : Nat) : WordProgram (Option (Nat × Arena)) :=
  if n = 0 then return none
  else match blockSize? n with
    | none => return none
    | some needed =>
        match s.memory.firstFit needed wordLimit .head s.heap.head with
        | none => return none
        | some (link, block) => do
            let t ← s.takeProgram link block needed
            return some (wrapWord (block + headerSize), t)

/-- The start of the free block that contains `x`. -/
def findFreeProgram (s : Arena) (x : Nat) : WordProgram (Option Nat) :=
  s.freeBlocks.foldlM (Block.findProgram x) none

def freeProgram (s : Arena) (a : Nat) : WordProgram (Except FreeRefusal (Nat × Arena)) :=
  if a = 0 then return .error .null
  else match sum? s.heap.start headerSize with
    | none => return .error .outside
    | some least =>
        if !s.heap.hasPool || a < least || s.heap.limit ≤ a then return .error .outside
        else do
          let offset ← difference a s.heap.start
          if offset % heapAlign ≠ 0 then return .error .unaligned
          else
            let block ← difference a headerSize
            let found ← s.findFreeProgram block
            if found.isSome then return .error .alreadyFree
            else if !s.isBlockStart block then return .error .noPayload
            else
              let size := s.memory.sizeAt block
              if !s.blockFits block size then return .error .badSize
              else return .ok (size, {
                memory := s.memory.setNext block s.heap.head
                heap := { s.heap with head := block } })

def usageProgram (s : Arena) : WordProgram PoolUsage := do
  let managed ← difference s.heap.limit s.heap.start
  s.freeBlocks.foldlM PoolUsage.addProgram ⟨managed, 0, 0, 0⟩

variable {s t : Arena} {link link' : Link} {block needed bound start n a x : Nat}

/-! ## What they come to with wrap-around -/

theorem le_of_alignUp? {first : Nat} (h : alignUp? start heapAlign = some first) :
    start ≤ first ∧ first < wordLimit := by
  obtain ⟨hlt, rfl⟩ := alignUp?_eq_some_iff.mp h
  unfold alignDown heapAlign at *
  omega

theorem wrapping_initProgram (s : Arena) (start size : Nat) :
    (s.initProgram start size).wrapping = s.init start size := by
  unfold initProgram init
  split
  next => rfl
  next =>
    split
    next => rfl
    next =>
      cases hround : alignUp? start heapAlign with
      | none => rfl
      | some first =>
          obtain ⟨hle, hlt⟩ := le_of_alignUp? hround
          dsimp only
          rw [wrapping_bind, wrapping_difference_of_lt hle hlt, wrapping_bind,
            wrapping_roundDown (by decide) (by decide)]
          split
          next => rfl
          next => rw [wrapping_bind, wrapping_sum, wrapping_pure]

theorem wrapping_takeProgram (h : needed ≤ s.memory.sizeAt block) :
    (s.takeProgram link block needed).wrapping = s.take link block needed := by
  have hrest : (difference (s.memory.header block).size needed).wrapping =
      (s.memory.header block).size - needed :=
    wrapping_difference_of_lt h (s.memory.word_lt block)
  unfold takeProgram take
  rw [wrapping_bind, hrest]
  dsimp only
  split
  next => rw [wrapping_bind, wrapping_sum, wrapping_pure]
  next => rfl

theorem le_sizeAt_of_firstFit {m : Memory}
    (h : m.firstFit needed bound link a = some (link', block)) :
    ⟨block, m.sizeAt block⟩ ∈ m.freeChain bound a ∧ needed ≤ m.sizeAt block := by
  induction bound generalizing link a with
  | zero => cases h
  | succ bound ih =>
      rw [Memory.firstFit] at h
      rw [Memory.freeChain]
      split at h
      next => cases h
      next hne =>
        rw [if_neg hne]
        split at h
        next hle =>
          cases h
          exact ⟨List.mem_cons_self, hle⟩
        next =>
          obtain ⟨hmem, hle⟩ := ih h
          exact ⟨List.mem_cons_of_mem _ hmem, hle⟩

theorem wrapping_allocateProgram (s : Arena) (n : Nat) :
    (s.allocateProgram n).wrapping = s.allocate n := by
  unfold allocateProgram allocate
  split
  next => rfl
  next =>
    cases blockSize? n with
    | none => rfl
    | some needed =>
        simp only [Option.bind_eq_bind, Option.bind_some]
        cases hfit : s.memory.firstFit needed wordLimit .head s.heap.head with
        | none => rfl
        | some found =>
            obtain ⟨link, block⟩ := found
            have hle := (le_sizeAt_of_firstFit hfit).2
            simp only [wrapping_bind, wrapping_takeProgram hle]
            rfl

theorem wrapping_findProgram (x : Nat) (found : Option Nat) (b : Block) :
    (Block.findProgram x found b).wrapping =
      found.or (if b.contains x then some b.addr else none) := by
  unfold Block.findProgram Block.contains
  cases found with
  | some start => rfl
  | none =>
      by_cases hlow : b.addr ≤ x
      · simp [hlow]
      · simp [hlow]

theorem wrapping_foldlM_findProgram (x : Nat) (blocks : List Block) (found : Option Nat) :
    (blocks.foldlM (Block.findProgram x) found).wrapping =
      found.or ((blocks.find? (·.contains x)).map Block.addr) := by
  induction blocks generalizing found with
  | nil => exact Option.or_none.symm
  | cons b rest ih =>
      rw [List.foldlM_cons, wrapping_bind, ih, wrapping_findProgram, Option.or_assoc,
        List.find?_cons]
      cases b.contains x <;> rfl

theorem wrapping_findFreeProgram (s : Arena) (x : Nat) :
    (s.findFreeProgram x).wrapping = (s.freeBlocks.find? (·.contains x)).map Block.addr :=
  wrapping_foldlM_findProgram x s.freeBlocks none

theorem wrapping_freeProgram (s : Arena) (ha : a < wordLimit) :
    (s.freeProgram a).wrapping = s.free a := by
  unfold freeProgram free
  by_cases hnull : a = 0
  · rw [if_pos hnull, if_pos hnull, wrapping_pure]
  rw [if_neg hnull, if_neg hnull]
  cases hleast : sum? s.heap.start headerSize with
  | none =>
      have hout : wordLimit ≤ s.heap.start + headerSize := by
        unfold sum? at hleast
        split at hleast
        next => cases hleast
        next hlt => exact Nat.le_of_not_lt hlt
      have hbelow : a < s.heap.start + headerSize := Nat.lt_of_lt_of_le ha hout
      simp only [hbelow, decide_true, Bool.or_true, Bool.true_or, if_true]
      rfl
  | some least =>
      obtain ⟨_, rfl⟩ := sum?_eq_some_iff.mp hleast
      dsimp only
      by_cases hrange : (!s.heap.hasPool || decide (a < s.heap.start + headerSize) ||
          decide (s.heap.limit ≤ a)) = true
      · rw [if_pos hrange, if_pos hrange, wrapping_pure]
      rw [if_neg hrange, if_neg hrange]
      simp only [Bool.or_eq_true, decide_eq_true_iff, not_or, Nat.not_lt] at hrange
      have hstart : s.heap.start ≤ a := Nat.le_of_add_right_le hrange.1.2
      have hheader : headerSize ≤ a := Nat.le_of_add_left_le hrange.1.2
      rw [wrapping_bind, wrapping_difference_of_lt hstart ha]
      by_cases haligned : (a - s.heap.start) % heapAlign ≠ 0
      · rw [if_pos haligned, if_pos haligned, wrapping_pure]
      rw [if_neg haligned, if_neg haligned, wrapping_bind, wrapping_difference_of_lt hheader ha,
        wrapping_bind, wrapping_findFreeProgram, Option.isSome_map, List.isSome_find?]
      repeat' split
      all_goals rfl

theorem wrapping_addProgram {usage : PoolUsage} (h : usage.blocks + 1 < wordLimit) (b : Block) :
    (usage.addProgram b).wrapping = usage.add b := by
  rw [PoolUsage.addProgram, wrapping_bind, wrapping_sum, wrapping_bind, wrapping_sum,
    wrapWord_of_lt h, wrapping_pure, PoolUsage.add]

theorem wrapping_foldlM_addProgram {blocks : List Block} {usage : PoolUsage}
    (h : usage.blocks + blocks.length < wordLimit) :
    (blocks.foldlM PoolUsage.addProgram usage).wrapping = blocks.foldl PoolUsage.add usage := by
  induction blocks generalizing usage with
  | nil => rfl
  | cons b rest ih =>
      rw [List.length_cons] at h
      have hstep : (usage.addProgram b).wrapping = usage.add b :=
        wrapping_addProgram (by omega) b
      have hrest : (usage.add b).blocks + rest.length < wordLimit := by
        simp only [PoolUsage.add]
        omega
      rw [List.foldlM_cons, wrapping_bind, hstep, ih hrest, List.foldl_cons]

theorem wrapping_usageProgram (hstart : s.heap.start ≤ s.heap.limit)
    (hlimit : s.heap.limit < wordLimit) (hcount : s.freeBlocks.length < wordLimit) :
    s.usageProgram.wrapping = s.usage := by
  rw [usageProgram, wrapping_bind, wrapping_difference_of_lt hstart hlimit,
    wrapping_foldlM_addProgram (by dsimp only; omega)]
  rfl

/-! ## What bounds them -/

/-- The pool lies inside the words and the free blocks inside the pool, of which they
take up no more than there is. -/
structure Bounded (s : Arena) : Prop where
  limit_lt : s.heap.limit < wordLimit
  start_le : s.heap.start ≤ s.heap.limit
  free_inside : ∀ b ∈ s.freeBlocks, b.limit ≤ s.heap.limit
  free_sum : (s.freeBlocks.map Block.size).sum ≤ s.heap.limit - s.heap.start
  free_count : s.freeBlocks.length < wordLimit

theorem Holds.bounded {managed : Nat} {held : List Block} (h : s.Holds managed held) :
    s.Bounded := by
  obtain ⟨p, hrepresents, hvalid, _, _⟩ := h
  have hsum := hvalid.sum_size
  constructor
  · exact hrepresents.limit_eq ▸ hvalid.limit_lt
  · rw [hrepresents.start_eq, hrepresents.limit_eq]
    exact Nat.le_of_lt hvalid.start_lt
  · intro b hb
    rw [hrepresents.freeBlocks_eq hvalid] at hb
    rw [hrepresents.limit_eq]
    exact (hvalid.of_mem (Partition.mem_of_free hb)).2.1
  · rw [hrepresents.freeBlocks_eq hvalid, hrepresents.start_eq, hrepresents.limit_eq]
    omega
  · rw [hrepresents.freeBlocks_eq hvalid]
    exact hvalid.length_free_lt

/-- Without a pool there is nothing to add up. -/
theorem bounded_of_empty (h : s.heap = {}) : s.Bounded := by
  obtain ⟨memory, heap⟩ := s
  subst h
  have hpos : 0 < wordLimit := by decide
  exact ⟨hpos, Nat.le_refl _, fun _ hb => (nomatch hb), Nat.zero_le _, hpos⟩

theorem fits_initProgram (hfits : start + n < wordLimit) : (s.initProgram start n).Fits := by
  unfold initProgram
  split
  next => exact fits_pure _
  next =>
    split
    next => exact fits_pure _
    next =>
      cases hround : alignUp? start heapAlign with
      | none => exact fits_pure _
      | some first =>
          obtain ⟨hle, hlt⟩ := le_of_alignUp? hround
          have husable := alignDown_le (n - (first - start)) heapAlign
          refine fits_bind.mpr ⟨fits_difference hle hlt, ?_⟩
          rw [wrapping_difference_of_lt hle hlt]
          refine fits_bind.mpr ⟨fits_roundDown (by decide) (by decide) _, ?_⟩
          rw [wrapping_roundDown (by decide) (by decide)]
          split
          next => exact fits_pure _
          next hroom =>
            refine fits_bind.mpr ⟨?_, fits_pure _⟩
            rw [fits_sum]
            unfold headerSize at hroom
            omega

/-- The block that leads to the answer was free, and it had the bytes and a header. -/
theorem exists_free_of_allocate (h : s.allocate n = some (a, t)) :
    ∃ b ∈ s.freeBlocks, a = wrapWord b.payload ∧ n + headerSize ≤ b.size := by
  rw [allocate] at h
  split at h
  next => cases h
  next =>
    simp only [Option.bind_eq_bind, Option.bind_eq_some_iff] at h
    obtain ⟨needed, hneeded, ⟨link, block⟩, hfit, hresult⟩ := h
    cases hresult
    obtain ⟨hmem, hle⟩ := le_sizeAt_of_firstFit hfit
    rw [blockSize?_eq] at hneeded
    split at hneeded
    next =>
      cases hneeded
      exact ⟨_, hmem, rfl, Nat.le_trans (Partition.add_headerSize_le_neededFor n) hle⟩
    next => cases hneeded

namespace Bounded

variable (h : s.Bounded)
include h

theorem block_limit_lt {b : Block} (hb : b ∈ s.freeBlocks) : b.limit < wordLimit :=
  Nat.lt_of_le_of_lt (h.free_inside b hb) h.limit_lt

theorem fits_takeProgram (hmem : ⟨block, s.memory.sizeAt block⟩ ∈ s.freeBlocks)
    (hle : needed ≤ s.memory.sizeAt block) : (s.takeProgram link block needed).Fits := by
  have hlimit := h.block_limit_lt hmem
  unfold Block.limit at hlimit
  refine fits_bind.mpr ⟨fits_difference hle (s.memory.word_lt block), ?_⟩
  split
  next =>
    refine fits_bind.mpr ⟨?_, fits_pure _⟩
    rw [fits_sum]
    dsimp only at hlimit
    omega
  next => exact fits_pure _

theorem fits_allocateProgram (n : Nat) : (s.allocateProgram n).Fits := by
  unfold allocateProgram
  split
  next => exact fits_pure _
  next =>
    cases blockSize? n with
    | none => exact fits_pure _
    | some needed =>
        dsimp only
        cases hfit : s.memory.firstFit needed wordLimit .head s.heap.head with
        | none => exact fits_pure _
        | some found =>
            obtain ⟨hmem, hle⟩ := le_sizeAt_of_firstFit hfit
            exact fits_bind.mpr ⟨h.fits_takeProgram hmem hle, fits_pure _⟩

omit h in
theorem fits_foldlM_findProgram (x : Nat) {blocks : List Block} (found : Option Nat)
    (hlimits : ∀ b ∈ blocks, b.limit < wordLimit) :
    (blocks.foldlM (Block.findProgram x) found).Fits := by
  induction blocks generalizing found with
  | nil => exact fits_pure found
  | cons b rest ih =>
      obtain ⟨hlimit, hrest⟩ := List.forall_mem_cons.mp hlimits
      rw [List.foldlM_cons]
      refine fits_bind.mpr ⟨?_, ih _ hrest⟩
      unfold Block.findProgram
      split
      next => exact fits_bind.mpr ⟨fits_sum.mpr hlimit, fits_pure _⟩
      next => exact fits_pure _

theorem fits_findFreeProgram (x : Nat) : (s.findFreeProgram x).Fits :=
  fits_foldlM_findProgram x none fun _ hb => h.block_limit_lt hb

theorem fits_freeProgram (a : Nat) : (s.freeProgram a).Fits := by
  unfold freeProgram
  split
  next => exact fits_pure _
  next =>
    cases hleast : sum? s.heap.start headerSize with
    | none => exact fits_pure _
    | some least =>
        obtain ⟨_, rfl⟩ := sum?_eq_some_iff.mp hleast
        dsimp only
        split
        next => exact fits_pure _
        next hrange =>
          simp only [Bool.or_eq_true, decide_eq_true_iff, not_or, Nat.not_lt, Nat.not_le] at hrange
          have ha : a < wordLimit := Nat.lt_trans hrange.2 h.limit_lt
          have hstart : s.heap.start ≤ a := Nat.le_of_add_right_le hrange.1.2
          have hheader : headerSize ≤ a := Nat.le_of_add_left_le hrange.1.2
          refine fits_bind.mpr ⟨fits_difference hstart ha, ?_⟩
          split
          next => exact fits_pure _
          next =>
            refine fits_bind.mpr ⟨fits_difference hheader ha, ?_⟩
            refine fits_bind.mpr ⟨h.fits_findFreeProgram _, ?_⟩
            repeat' split
            all_goals exact fits_pure _

omit h in
theorem fits_foldlM_addProgram {blocks : List Block} {usage : PoolUsage}
    (hfree : usage.free + (blocks.map Block.size).sum < wordLimit)
    (hblocks : usage.blocks + blocks.length < wordLimit) :
    (blocks.foldlM PoolUsage.addProgram usage).Fits := by
  induction blocks generalizing usage with
  | nil => exact fits_pure usage
  | cons b rest ih =>
      rw [List.map_cons, List.sum_cons] at hfree
      rw [List.length_cons] at hblocks
      have hsum : usage.free + b.size < wordLimit := by omega
      have hcount : usage.blocks + 1 < wordLimit := by omega
      have hadd : (usage.addProgram b).Fits :=
        fits_bind.mpr ⟨fits_sum.mpr hsum, fits_bind.mpr ⟨fits_sum.mpr hcount, fits_pure _⟩⟩
      rw [List.foldlM_cons]
      refine fits_bind.mpr ⟨hadd, ?_⟩
      rw [wrapping_addProgram hcount]
      refine ih ?_ ?_
      · simp only [PoolUsage.add, wrapWord_of_lt hsum]
        omega
      · simp only [PoolUsage.add]
        omega

theorem fits_usageProgram : s.usageProgram.Fits := by
  have hsum := h.free_sum
  have hlimit := h.limit_lt
  refine fits_bind.mpr ⟨fits_difference h.start_le h.limit_lt, ?_⟩
  refine fits_foldlM_addProgram ?_ ?_
  · dsimp only
    omega
  · dsimp only
    rw [Nat.zero_add]
    exact h.free_count

/-- What is given out lies inside the pool, with all the bytes that were asked for. -/
theorem exists_of_allocate (hresult : s.allocate n = some (a, t)) :
    ∃ b ∈ s.freeBlocks, a = b.payload ∧ a + n ≤ b.limit ∧ b.limit < wordLimit := by
  obtain ⟨b, hb, ha, hroom⟩ := exists_free_of_allocate hresult
  have hlimit := h.block_limit_lt hb
  have hend : b.payload + n ≤ b.limit := by
    unfold Block.payload Block.limit
    omega
  rw [wrapWord_of_lt (by omega)] at ha
  exact ⟨b, hb, ha, ha ▸ hend, hlimit⟩

end Bounded

-- In a pool that is one free block, three results lead to the answer.
example :
    (freeProgram ⟨({} : Memory).setHeader 4104 ⟨248, 0⟩, ⟨4104, 4352, 4104⟩⟩ 4128).operations =
      [.difference 4128 4104, .difference 4128 headerSize, .sum 4104 248] := by
  decide +kernel

-- A size word that leads out of the address space is what the bounds rule out.
example :
    (findFreeProgram ⟨({} : Memory).setHeader 4104 ⟨wordLimit - 8, 0⟩, ⟨4104, 4352, 4104⟩⟩
      4112).checked = none := by
  decide +kernel

end Arena

end Kernel16
