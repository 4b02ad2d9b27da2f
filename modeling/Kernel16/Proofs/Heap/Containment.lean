import Kernel16.Kernel.Heap
import Kernel16.Proofs.Heap.Representation
import Mathlib.Data.List.Perm.Subperm

/-!
# Giving back among damaged blocks

A client may write past its payload, over the headers of other blocks that are
handed out.  The free list is out of its reach as long as no free block is hit.
Then giving back still ends, whatever the size words on its way say: a step of
the walk covers a header at least, and the walk stops where a step would pass
the limit.  All words it reads lie inside the pool, since the address that it
looks for has room for a header and more before the limit.

To say what is read, the checks are written once more, over a reader that may
refuse an address and without a bound on the walks.  A refused address or a
walk that does not end leaves them without an answer.
-/

namespace Kernel16

/-- The word at an address, unless it may not be read. -/
abbrev Reader := Nat → Option Nat

namespace Reader

variable (read : Reader)

/-- The blocks along the next words, if the list ends within `fuel` steps. -/
def freeList : (fuel block : Nat) → Option (List Block)
  | 0, _ => none
  | fuel + 1, block =>
      if block = 0 then some []
      else do
        let size ← read block
        let next ← read (block + Memory.wordSize)
        let rest ← freeList fuel next
        return ⟨block, size⟩ :: rest

/-- Whether the walk along the size words reaches `target`, if it ends within `fuel`
steps. -/
def walk (limit target : Nat) : (fuel current : Nat) → Option Bool
  | 0, _ => none
  | fuel + 1, current =>
      if current < target then do
        let size ← read current
        if size < headerSize then return false
        else match sum? current size with
          | none => return false
          | some following =>
              if following ≤ limit then walk limit target fuel following else return false
      else return decide (current = target)

/-- The checks on an address that is given back, and the size of its block. -/
def checkFree (fuel : Nat) (h : Heap) (a : Nat) : Option (Except FreeRefusal Nat) :=
  if a = 0 then return .error .null
  else if !h.hasPool || a < h.start + headerSize || h.limit ≤ a then return .error .outside
  else if (a - h.start) % heapAlign ≠ 0 then return .error .unaligned
  else do
    let block := a - headerSize
    let free ← read.freeList fuel h.head
    if free.any (·.contains block) then return .error .alreadyFree
    else
      let reached ← read.walk h.limit block fuel h.start
      if !reached then return .error .noPayload
      else
        let size ← read block
        if !(decide (headerSize ≤ size) && (sum? block size).any (· ≤ h.limit)) then
          return .error .badSize
        else return .ok size

/-- What the reader answers is in the memory. -/
def Honest (m : Memory) : Prop := ∀ a n, read a = some n → n = m.word a

end Reader

/-! ## Lists that end -/

namespace Memory

variable {m : Memory} {limit target a : Nat} {blocks : List Block}

theorem NextWalk.eq {others : List Block} (h : m.NextWalk a blocks) (h' : m.NextWalk a others) :
    blocks = others := by
  induction blocks generalizing a others with
  | nil =>
      cases others with
      | nil => rfl
      | cons c rest => exact absurd h h'.1
  | cons b rest ih =>
      obtain ⟨hne, rfl, hrest⟩ := h
      cases others with
      | nil => exact absurd h' hne
      | cons c others =>
          obtain ⟨_, rfl, hothers⟩ := h'
          rw [ih hrest hothers]

theorem NextWalk.suffix {before after : List Block} {b : Block}
    (h : m.NextWalk a (before ++ b :: after)) : m.NextWalk b.addr (b :: after) := by
  induction before generalizing a with
  | nil =>
      obtain ⟨hne, rfl, hrest⟩ := h
      exact ⟨hne, rfl, hrest⟩
  | cons c rest ih => exact ih h.2.2

/-- A list that came to an address again would go on as it did before. -/
theorem NextWalk.nodup (h : m.NextWalk a blocks) : (blocks.map Block.addr).Nodup := by
  induction blocks generalizing a with
  | nil => exact List.nodup_nil
  | cons b rest ih =>
      refine List.nodup_cons.mpr ⟨?_, ih h.2.2⟩
      intro hmem
      obtain ⟨c, hc, haddr⟩ := List.mem_map.mp hmem
      obtain ⟨before, after, rfl⟩ := List.append_of_mem hc
      have hagain := NextWalk.suffix h.2.2
      have hb : b.addr = a := congrArg Block.addr h.2.1
      rw [haddr, hb] at hagain
      have hlength := congrArg List.length (hagain.eq h)
      simp only [List.length_append, List.length_cons] at hlength
      omega

theorem NextWalk.addr_lt (h : m.NextWalk a blocks) (ha : a < wordLimit) :
    ∀ b ∈ blocks, b.addr < wordLimit := by
  induction blocks generalizing a with
  | nil => exact List.forall_mem_nil _
  | cons b rest ih =>
      obtain ⟨_, rfl, hrest⟩ := h
      exact List.forall_mem_cons.mpr ⟨ha, ih hrest (m.word_lt _)⟩

theorem NextWalk.addr_ne_zero (h : m.NextWalk a blocks) : ∀ b ∈ blocks, b.addr ≠ 0 := by
  induction blocks generalizing a with
  | nil => exact List.forall_mem_nil _
  | cons b rest ih =>
      obtain ⟨hne, rfl, hrest⟩ := h
      exact List.forall_mem_cons.mpr ⟨hne, ih hrest⟩

theorem NextWalk.length_lt (h : m.NextWalk a blocks) (ha : a < wordLimit) :
    blocks.length < wordLimit := by
  have hsubset : 0 :: blocks.map Block.addr ⊆ List.range wordLimit := by
    refine List.cons_subset.mpr ⟨List.mem_range.mpr (by decide), ?_⟩
    intro x hx
    obtain ⟨b, hb, rfl⟩ := List.mem_map.mp hx
    exact List.mem_range.mpr (h.addr_lt ha b hb)
  have hnodup : (0 :: blocks.map Block.addr).Nodup := by
    refine List.nodup_cons.mpr ⟨?_, h.nodup⟩
    intro hmem
    obtain ⟨b, hb, hzero⟩ := List.mem_map.mp hmem
    exact h.addr_ne_zero b hb hzero
  have hle := (hnodup.subperm hsubset).length_le
  rw [List.length_cons, List.length_map, List.length_range] at hle
  omega

theorem NextWalk.freeChain_eq {bound : Nat} (h : m.NextWalk a blocks)
    (hbound : blocks.length < bound) : m.freeChain bound a = blocks := by
  induction bound generalizing a blocks with
  | zero => exact absurd hbound (Nat.not_lt_zero _)
  | succ bound ih =>
      cases blocks with
      | nil =>
          have hzero : a = 0 := h
          rw [freeChain, if_pos hzero]
      | cons b rest =>
          obtain ⟨hne, rfl, hrest⟩ := h
          rw [freeChain, if_neg hne, ih hrest (Nat.lt_of_succ_lt_succ hbound)]

/-! ## Walks along the size words -/

/-- Steps along the size words from one address to another.  Each covers a header at
least, and none passes `limit`. -/
inductive StepsTo (m : Memory) (limit target : Nat) : Nat → Prop
  | here : StepsTo m limit target target
  | step {current : Nat} (covers : headerSize ≤ m.sizeAt current)
      (inside : current + m.sizeAt current ≤ limit)
      (rest : StepsTo m limit target (current + m.sizeAt current)) :
      StepsTo m limit target current

theorem stepsTo_of_walkReaches {bound current : Nat}
    (h : m.walkReaches limit target bound current = true) : m.StepsTo limit target current := by
  induction bound generalizing current with
  | zero => cases h
  | succ bound ih =>
      rw [walkReaches] at h
      split at h
      next =>
          dsimp only at h
          split at h
          next => cases h
          next hcovers =>
              split at h
              next => cases h
              next following hsum =>
                  have hfollowing := (sum?_eq_some_iff.mp hsum).2
                  split at h
                  next hinside =>
                      rw [hfollowing] at h hinside
                      exact .step (Nat.not_lt.mp hcovers) hinside (ih h)
                  next => cases h
      next =>
          have hhere : current = target := of_decide_eq_true h
          exact hhere ▸ .here

end Memory

namespace Reader

variable {read : Reader} {m : Memory} {fuel block limit target : Nat}

/-! ## The checks agree where they end -/

theorem nextWalk_of_freeList (hread : read.Honest m) {blocks : List Block}
    (h : read.freeList fuel block = some blocks) : m.NextWalk block blocks := by
  induction fuel generalizing block blocks with
  | zero => cases h
  | succ fuel ih =>
      rw [freeList] at h
      split at h
      next hzero =>
          cases h
          exact hzero
      next hne =>
          simp only [Option.bind_eq_bind, Option.bind_eq_some_iff] at h
          obtain ⟨size, hsize, next, hnext, rest, hrest, hblocks⟩ := h
          cases hblocks
          have hsizeAt : size = m.sizeAt block := hread _ _ hsize
          have hnextAt : next = m.nextAt block := hread _ _ hnext
          rw [Memory.NextWalk, ← hsizeAt, ← hnextAt]
          exact ⟨hne, rfl, ih hrest⟩

theorem walkReaches_of_walk (hread : read.Honest m) {bound current : Nat} {answer : Bool}
    (hbound : target < current + bound) (h : read.walk limit target fuel current = some answer) :
    m.walkReaches limit target bound current = answer := by
  induction fuel generalizing current bound with
  | zero => cases h
  | succ fuel ih =>
      rw [walk] at h
      split at h
      next hlt =>
          obtain ⟨bound, rfl⟩ : ∃ n, bound = n + 1 := Nat.exists_eq_succ_of_ne_zero (by omega)
          simp only [Option.bind_eq_bind, Option.bind_eq_some_iff] at h
          obtain ⟨size, hsize, h⟩ := h
          have hsizeAt : size = m.sizeAt current := hread _ _ hsize
          rw [Memory.walkReaches, if_pos hlt, ← hsizeAt]
          dsimp only
          by_cases hsmall : size < headerSize
          · rw [if_pos hsmall] at h ⊢
            exact Option.some.inj h
          · rw [if_neg hsmall] at h ⊢
            cases hsum : sum? current size with
            | none =>
                simp only [hsum] at h
                exact Option.some.inj h
            | some following =>
                have hfollowing := (sum?_eq_some_iff.mp hsum).2
                simp only [hsum] at h ⊢
                by_cases hinside : following ≤ limit
                · rw [if_pos hinside] at h ⊢
                  have hpos : 0 < headerSize := by decide
                  exact ih (by omega) h
                · rw [if_neg hinside] at h ⊢
                  exact Option.some.inj h
      next hge =>
          have hreached : decide (current = target) = answer := Option.some.inj h
          cases bound with
          | zero =>
              rw [Memory.walkReaches, ← hreached, eq_comm, decide_eq_false_iff_not]
              omega
          | succ bound => rw [Memory.walkReaches, if_neg hge, hreached]

end Reader

namespace Arena

variable {s t : Arena} {a fuel size : Nat}

theorem freeBlocks_of_freeList {read : Reader} (hread : read.Honest s.memory)
    (hhead : s.heap.head < wordLimit) {blocks : List Block}
    (h : read.freeList fuel s.heap.head = some blocks) : s.freeBlocks = blocks := by
  have hwalk := Reader.nextWalk_of_freeList hread h
  exact hwalk.freeChain_eq (hwalk.length_lt hhead)

/-- An answer of the checks is that of the heap, through any honest reader and with any
fuel. -/
theorem free_of_checkFree {read : Reader} (hread : read.Honest s.memory)
    (hhead : s.heap.head < wordLimit) {answer : Except FreeRefusal Nat}
    (h : read.checkFree fuel s.heap a = some answer) : (s.free a).map Prod.fst = answer := by
  unfold Reader.checkFree at h
  unfold free
  by_cases hnull : a = 0
  · rw [if_pos hnull] at h ⊢
    exact Option.some.inj h
  rw [if_neg hnull] at h ⊢
  by_cases houtside : (!s.heap.hasPool || decide (a < s.heap.start + headerSize) ||
      decide (s.heap.limit ≤ a)) = true
  · rw [if_pos houtside] at h ⊢
    exact Option.some.inj h
  rw [if_neg houtside] at h ⊢
  by_cases hunaligned : (a - s.heap.start) % heapAlign ≠ 0
  · rw [if_pos hunaligned] at h ⊢
    exact Option.some.inj h
  rw [if_neg hunaligned] at h ⊢
  simp only [Option.bind_eq_bind, Option.bind_eq_some_iff] at h
  obtain ⟨blocks, hblocks, h⟩ := h
  dsimp only
  rw [freeBlocks_of_freeList hread hhead hblocks]
  by_cases hfree : blocks.any (·.contains (a - headerSize)) = true
  · rw [if_pos hfree] at h ⊢
    exact Option.some.inj h
  rw [if_neg hfree] at h ⊢
  simp only [Option.bind_eq_some_iff] at h
  obtain ⟨reached, hwalk, h⟩ := h
  have hreached : s.isBlockStart (a - headerSize) = reached := by
    refine Reader.walkReaches_of_walk hread ?_ hwalk
    simp only [Bool.or_eq_true, decide_eq_true_iff, not_or, Nat.not_le] at houtside
    unfold Heap.size
    omega
  rw [hreached]
  cases reached with
  | false => exact Option.some.inj h
  | true =>
      rw [if_neg (by decide)] at h ⊢
      simp only [Option.bind_eq_some_iff] at h
      obtain ⟨size, hsize, h⟩ := h
      have hsizeAt : size = s.memory.sizeAt (a - headerSize) := hread _ _ hsize
      rw [blockFits, ← hsizeAt]
      split at h
      next hunfit =>
          rw [if_pos hunfit]
          exact Option.some.inj h
      next hfits =>
          rw [if_neg hfits]
          exact Option.some.inj h

/-! ## The checks end inside the pool -/

/-- Reads the words that lie inside the pool, and no others. -/
def poolReader (s : Arena) : Reader := fun a =>
  if s.heap.start ≤ a ∧ a + Memory.wordSize ≤ s.heap.limit then some (s.memory.word a) else none

theorem honest_poolReader (s : Arena) : s.poolReader.Honest s.memory := by
  intro a n h
  unfold poolReader at h
  split at h
  next => exact (Option.some.inj h).symm
  next => cases h

theorem poolReader_of_inside (hlow : s.heap.start ≤ a)
    (hhigh : a + Memory.wordSize ≤ s.heap.limit) : s.poolReader a = some (s.memory.word a) :=
  if_pos ⟨hlow, hhigh⟩

/-- The free list ends, and its blocks lie inside the pool. -/
def Sound (s : Arena) : Prop :=
  ∃ blocks, s.memory.NextWalk s.heap.head blocks ∧
    ∀ b ∈ blocks, s.heap.start ≤ b.addr ∧ headerSize ≤ b.size ∧ b.limit ≤ s.heap.limit

theorem freeList_poolReader {blocks : List Block} (h : s.memory.NextWalk a blocks)
    (hinside : ∀ b ∈ blocks,
      s.heap.start ≤ b.addr ∧ headerSize ≤ b.size ∧ b.limit ≤ s.heap.limit)
    (hfuel : blocks.length < fuel) : s.poolReader.freeList fuel a = some blocks := by
  induction blocks generalizing a fuel with
  | nil =>
      obtain ⟨fuel, rfl⟩ := Nat.exists_eq_add_of_lt hfuel
      have hzero : a = 0 := h
      rw [Reader.freeList, if_pos hzero]
  | cons b rest ih =>
      obtain ⟨hne, hb, hrest⟩ := h
      obtain ⟨⟨hlow, hroom, hhigh⟩, hrestInside⟩ := List.forall_mem_cons.mp hinside
      rw [List.length_cons] at hfuel
      obtain ⟨fuel, rfl⟩ : ∃ n, fuel = n + 1 := Nat.exists_eq_succ_of_ne_zero (by omega)
      have htail := ih hrest hrestInside (Nat.lt_of_succ_lt_succ hfuel)
      have haddr : b.addr = a := congrArg Block.addr hb
      have hwords : a + Memory.wordSize + Memory.wordSize ≤ s.heap.limit := by
        unfold headerSize at hroom
        unfold Block.limit at hhigh
        unfold Memory.wordSize
        omega
      have hsize : s.poolReader a = some (s.memory.sizeAt a) :=
        poolReader_of_inside (by omega) (by omega)
      have hnext : s.poolReader (a + Memory.wordSize) = some (s.memory.nextAt a) :=
        poolReader_of_inside (by omega) hwords
      rw [Reader.freeList, if_neg hne, hsize, hnext, hb]
      simp only [Option.bind_eq_bind, Option.bind_some, htail]
      rfl

/-- A step covers a header at least, so the walk is over after `fuel` steps. -/
theorem exists_walk_poolReader {target current : Nat}
    (htarget : target + Memory.wordSize ≤ s.heap.limit) (hlow : s.heap.start ≤ current)
    (hfuel : target ≤ current + fuel) :
    ∃ answer, s.poolReader.walk s.heap.limit target (fuel + 1) current = some answer := by
  induction fuel generalizing current with
  | zero => exact ⟨_, by rw [Reader.walk, if_neg (by omega)]; rfl⟩
  | succ fuel ih =>
      rw [Reader.walk]
      by_cases hlt : current < target
      · rw [if_pos hlt, poolReader_of_inside hlow (by omega)]
        simp only [Option.bind_eq_bind, Option.bind_some]
        by_cases hsmall : s.memory.word current < headerSize
        · exact ⟨_, if_pos hsmall⟩
        rw [if_neg hsmall]
        cases hsum : sum? current (s.memory.word current) with
        | none => exact ⟨_, rfl⟩
        | some following =>
            have hfollowing := (sum?_eq_some_iff.mp hsum).2
            dsimp only
            by_cases hinside : following ≤ s.heap.limit
            · rw [if_pos hinside]
              have hpos : 0 < headerSize := by decide
              exact ih (by omega) (by omega)
            · exact ⟨_, if_neg hinside⟩
      · rw [if_neg hlt]
        exact ⟨_, rfl⟩

theorem Sound.head_lt (h : s.Sound) (hlimit : s.heap.limit < wordLimit) :
    s.heap.head < wordLimit := by
  obtain ⟨blocks, hwalk, hinside⟩ := h
  cases blocks with
  | nil =>
      have hzero : s.heap.head = 0 := hwalk
      rw [hzero]
      decide
  | cons b rest =>
      have haddr : b.addr = s.heap.head := congrArg Block.addr hwalk.2.1
      have hhigh := (hinside b List.mem_cons_self).2.2
      unfold Block.limit at hhigh
      omega

theorem exists_checkFree (h : s.Sound) (hstart : heapAlign ∣ s.heap.start)
    (hlimit : heapAlign ∣ s.heap.limit) (a : Nat) :
    ∃ fuel answer, s.poolReader.checkFree fuel s.heap a = some answer := by
  obtain ⟨blocks, hwalk, hinside⟩ := h
  -- Enough for the list, and one step for each byte up to the limit.
  refine ⟨blocks.length + s.heap.limit + 1, ?_⟩
  have hlist : s.poolReader.freeList (blocks.length + s.heap.limit + 1) s.heap.head =
      some blocks :=
    freeList_poolReader hwalk hinside (by omega)
  unfold Reader.checkFree
  split
  next => exact ⟨_, rfl⟩
  next =>
    split
    next => exact ⟨_, rfl⟩
    next hrange =>
      split
      next => exact ⟨_, rfl⟩
      next haligned =>
        simp only [Bool.or_eq_true, decide_eq_true_iff, not_or, Nat.not_le, Nat.not_lt] at hrange
        have hheader : a - headerSize + Memory.wordSize ≤ s.heap.limit := by
          unfold heapAlign at hstart hlimit haligned
          unfold headerSize at hrange ⊢
          unfold Memory.wordSize
          omega
        obtain ⟨reached, hreached⟩ : ∃ reached, s.poolReader.walk s.heap.limit (a - headerSize)
            (blocks.length + s.heap.limit + 1) s.heap.start = some reached :=
          exists_walk_poolReader hheader (Nat.le_refl _) (by omega)
        have hsize := poolReader_of_inside (a := a - headerSize) (by omega) hheader
        simp only [Option.bind_eq_bind, hlist, hreached, hsize, Option.bind_some]
        repeat' split
        all_goals exact ⟨_, rfl⟩

/-! ## What passes the checks -/

/-- The checks stop before the size of the block matters, or all but the last one hold. -/
theorem free_cases (s : Arena) (a : Nat) :
    (∃ e, e ≠ .badSize ∧ s.free a = .error e) ∨
      s.heap.start + headerSize ≤ a ∧
        (∀ b ∈ s.freeBlocks, ¬ b.contains (a - headerSize) = true) ∧
        s.isBlockStart (a - headerSize) = true ∧
        s.free a =
          if s.blockFits (a - headerSize) (s.memory.sizeAt (a - headerSize)) then
            .ok (s.memory.sizeAt (a - headerSize),
              ⟨s.memory.setNext (a - headerSize) s.heap.head,
                { s.heap with head := a - headerSize }⟩)
          else .error .badSize := by
  unfold free
  split
  next => exact Or.inl ⟨_, FreeRefusal.noConfusion, rfl⟩
  next =>
    split
    next => exact Or.inl ⟨_, FreeRefusal.noConfusion, rfl⟩
    next hrange =>
      split
      next => exact Or.inl ⟨_, FreeRefusal.noConfusion, rfl⟩
      next =>
        dsimp only
        split
        next => exact Or.inl ⟨_, FreeRefusal.noConfusion, rfl⟩
        next hfree =>
          split
          next => exact Or.inl ⟨_, FreeRefusal.noConfusion, rfl⟩
          next hblock =>
            simp only [Bool.or_eq_true, decide_eq_true_iff, not_or, Nat.not_lt] at hrange
            simp only [List.any_eq_true, not_exists, not_and] at hfree
            simp only [Bool.not_eq_true', Bool.not_eq_false] at hblock ⊢
            refine Or.inr ⟨hrange.1.2, hfree, hblock, ?_⟩
            cases s.blockFits (a - headerSize) (s.memory.sizeAt (a - headerSize)) <;> rfl

theorem blockFits_iff {block size : Nat} :
    s.blockFits block size = true ↔
      headerSize ≤ size ∧ block + size < wordLimit ∧ block + size ≤ s.heap.limit := by
  rw [blockFits, Bool.and_eq_true, decide_eq_true_iff, Option.any_eq_true]
  refine and_congr_right fun _ => ?_
  simp only [decide_eq_true_iff, sum?_eq_some_iff]
  constructor
  · intro h
    obtain ⟨_, ⟨hlt, rfl⟩, hle⟩ := h
    exact ⟨hlt, hle⟩
  · exact fun h => ⟨_, ⟨h.1, rfl⟩, h.2⟩

/-- The block that an accepted address stands for lies inside the pool and in no free block,
and it is put in front of the free list by a write to its own next word. -/
structure Accepts (s : Arena) (a size : Nat) (t : Arena) : Prop where
  low : s.heap.start + headerSize ≤ a
  not_free : ∀ b ∈ s.freeBlocks, ¬ b.Covers (a - headerSize)
  size_eq : size = s.memory.sizeAt (a - headerSize)
  room : headerSize ≤ size
  inside : a - headerSize + size ≤ s.heap.limit
  heap_eq : t.heap = { s.heap with head := a - headerSize }
  byte_eq : ∀ x, x < a - Memory.wordSize ∨ a ≤ x → t.memory.byte x = s.memory.byte x

structure Contained (s : Arena) (a : Nat) : Prop where
  /-- The checks end, and no word outside the pool is read on the way. -/
  answer : ∃ fuel, s.poolReader.checkFree fuel s.heap a = some ((s.free a).map Prod.fst)
  reached : s.free a = .error .badSize ∨ (∃ size t, s.free a = .ok (size, t)) →
    s.memory.StepsTo s.heap.limit (a - headerSize) s.heap.start
  accepted : ∀ size t, s.free a = .ok (size, t) → s.Accepts a size t
  refused : ∀ e, s.free a = .error e → attempt (·.free a) s = (.error e, s)

section

variable (hsound : s.Sound) (hlimit : s.heap.limit < wordLimit)
include hsound hlimit

theorem not_covers_of_not_contains {x : Nat}
    (h : ∀ b ∈ s.freeBlocks, ¬ b.contains x = true) : ∀ b ∈ s.freeBlocks, ¬ b.Covers x := by
  obtain ⟨blocks, hwalk, hinside⟩ := id hsound
  have hblocks : s.freeBlocks = blocks :=
    hwalk.freeChain_eq (hwalk.length_lt (hsound.head_lt hlimit))
  intro b hb
  rw [hblocks] at hb
  have hlt := Nat.lt_of_le_of_lt (hinside b hb).2.2 hlimit
  rw [← Block.contains_iff_covers hlt]
  exact h b (hblocks ▸ hb)

theorem accepts_of_free (h : s.free a = .ok (size, t)) : s.Accepts a size t := by
  rcases s.free_cases a with ⟨e, _, herror⟩ | ⟨hlow, hfree, _, hresult⟩
  · rw [herror] at h
    cases h
  rw [hresult] at h
  split at h
  next hfits =>
    obtain ⟨hroom, _, hinside⟩ := blockFits_iff.mp hfits
    obtain ⟨hsize, ht⟩ := Prod.mk.inj (Except.ok.inj h)
    rw [hsize] at hroom hinside
    refine ⟨hlow, not_covers_of_not_contains hsound hlimit hfree, hsize.symm, hroom, hinside,
      ht ▸ rfl, ?_⟩
    intro x hx
    rw [← ht]
    refine Memory.byte_setWord_of_outside _ ?_
    unfold headerSize at hlow ⊢
    unfold Memory.wordSize at hx ⊢
    omega
  next => cases h

end

theorem stepsTo_of_free (h : s.free a = .error .badSize ∨ ∃ size t, s.free a = .ok (size, t)) :
    s.memory.StepsTo s.heap.limit (a - headerSize) s.heap.start := by
  rcases s.free_cases a with ⟨e, hne, herror⟩ | ⟨_, _, hblock, _⟩
  · rw [herror] at h
    rcases h with hbad | ⟨_, _, hok⟩
    · exact absurd (Except.error.inj hbad) hne
    · cases hok
  · exact Memory.stepsTo_of_walkReaches hblock

/-- Giving back ends, reads inside the pool alone, and takes a block that lies inside the
pool and is not free.  The free list has to be sound, and nothing is said of the other bytes
of the pool. -/
theorem free_contained (hstart : heapAlign ∣ s.heap.start) (haligned : heapAlign ∣ s.heap.limit)
    (hlimit : s.heap.limit < wordLimit) (hsound : s.Sound) (a : Nat) : s.Contained a := by
  constructor
  · obtain ⟨fuel, answer, hanswer⟩ := exists_checkFree hsound hstart haligned a
    have hfree := free_of_checkFree s.honest_poolReader (hsound.head_lt hlimit) hanswer
    exact ⟨fuel, hfree ▸ hanswer⟩
  · exact stepsTo_of_free
  · exact fun size t h => accepts_of_free hsound hlimit h
  · intro e h
    rw [attempt, h]

/-- Three blocks are handed out before a free one.  The header of the third was written
over: its size leads out of the address space, and its next word into the first block. -/
def damaged : Arena where
  memory := ((({} : Memory).setHeader 4096 ⟨24, 0⟩).setHeader 4120 ⟨40, 0⟩).setHeader 4160
    ⟨wordLimit - 1, 4096⟩ |>.setHeader 4200 ⟨152, 0⟩
  heap := ⟨4096, 4352, 4200⟩

theorem free_contained_damaged :
    heapAlign ∣ damaged.heap.start ∧ heapAlign ∣ damaged.heap.limit ∧
      damaged.heap.limit < wordLimit ∧ damaged.Sound ∧
      (damaged.free 4136).map Prod.fst = .ok 40 ∧ damaged.Contained 4136 ∧
      (damaged.free 4176).map Prod.fst = .error .badSize ∧ damaged.Contained 4176 ∧
      (damaged.free 4184).map Prod.fst = .error .noPayload ∧ damaged.Contained 4184 := by
  have hstart : heapAlign ∣ damaged.heap.start := by decide
  have haligned : heapAlign ∣ damaged.heap.limit := by decide
  have hlimit : damaged.heap.limit < wordLimit := by decide
  have hsound : damaged.Sound := by
    have hend : damaged.memory.nextAt 4200 = 0 := by decide +kernel
    exact ⟨[⟨4200, 152⟩], ⟨by decide, by decide +kernel, hend⟩, by decide⟩
  have hcontained := free_contained hstart haligned hlimit hsound
  exact ⟨hstart, haligned, hlimit, hsound, by decide +kernel, hcontained 4136,
    by decide +kernel, hcontained 4176, by decide +kernel, hcontained 4184⟩

end Arena

end Kernel16
