import Kernel16.Proofs.Heap.Frame
import Kernel16.Proofs.Task.Ownership

/-!
# Stack offsets

A new task gets the low sixteen bits of the address where its stack ends, and
pushes at the offsets below them.  A pool is at most one segment long, so no two
of its bytes have the same offset, whether the pool crosses the boundary of a
segment or a stack ends where the offsets of the pool begin again.

So each push from the first stack pointer on meets its own stack: no stack of
another task, no free block and no header has a byte with that offset.
-/

namespace Kernel16

theorem eq_of_offset_eq (first : Nat) {a b : Nat} (ha : first ≤ a ∧ a < first + segmentBytes)
    (hb : first ≤ b ∧ b < first + segmentBytes) (h : UInt16.ofNat a = UInt16.ofNat b) :
    a = b := by
  have hmod := congrArg UInt16.toNat h
  rw [UInt16.toNat_ofNat', UInt16.toNat_ofNat'] at hmod
  unfold segmentBytes at ha hb
  omega

namespace Arena

variable {s t : Arena} {managed : Nat} {held : List Block}

theorem managed_le_of_init {start size : Nat} (h : s.init start size = .ok (managed, t)) :
    managed ≤ segmentBytes := by
  obtain ⟨_, _, _, _, _, hstart, hlimit, _⟩ := exists_of_init h
  have hsize : size ≤ largestPool := by
    by_contra hlarge
    rw [init] at h
    split at h
    next => cases h
    next => rw [if_pos (Nat.not_le.mp hlarge)] at h; cases h
  exact Nat.le_trans (by omega) hsize

/-- The blocks that the size words lead to are those on the free list and those
that are handed out. -/
theorem Holds.exists_sizeWalk (h : s.Holds managed held) :
    ∃ blocks, s.memory.SizeWalk s.heap.limit s.heap.start blocks ∧
      blocks.Perm (s.freeBlocks ++ held) ∧ ∀ b ∈ blocks, headerSize ≤ b.size := by
  obtain ⟨p, hrepresents, hvalid, hlive, _⟩ := h
  obtain ⟨blocks, htiles, hperm⟩ := hvalid.tiled
  refine ⟨blocks, ?_, ?_, fun b hb => (htiles.of_mem hb).2.2.1⟩
  · rw [hrepresents.start_eq, hrepresents.limit_eq]
    exact sizeWalk_of_tiles htiles fun b hb => hrepresents.sizeAt (hperm.mem_iff.mp hb)
  · rw [hrepresents.freeBlocks_eq hvalid]
    exact hperm.trans (hlive.append_left _)

theorem Holds.limit_eq (h : s.Holds managed held) : s.heap.limit = s.heap.start + managed := by
  obtain ⟨p, hrepresents, hvalid, _, rfl⟩ := h
  have hlt := hvalid.start_lt
  rw [hrepresents.start_eq, hrepresents.limit_eq]
  omega

theorem Holds.eq_of_offset_eq {b c : Block} {x y : Nat} (h : s.Holds managed held)
    (hmanaged : managed ≤ segmentBytes) (hb : b ∈ s.freeBlocks ∨ b ∈ held) (hbx : b.Covers x)
    (hc : c ∈ s.freeBlocks ∨ c ∈ held) (hcy : c.Covers y)
    (hoffset : UInt16.ofNat x = UInt16.ofNat y) : x = y := by
  have hlimit := h.limit_eq
  obtain ⟨hbstart, hblimit⟩ := h.inside hb
  obtain ⟨hcstart, hclimit⟩ := h.inside hc
  unfold Block.Covers at hbx hcy
  exact Kernel16.eq_of_offset_eq s.heap.start (by omega) (by omega) hoffset

end Arena

namespace TaskSystem

variable {u : TaskSystem} {managed : Nat} {images : TaskId → Registers} {i j : TaskId}
  {x y : Stack} {k : Nat}

/-! ## First images -/

/-- Registers are saved over the image that a task was created with, so it is
noted here for the latest task of each slot. -/
def noteImage (u : TaskSystem) (images : TaskId → Registers) :
    TaskRequest → TaskId → Registers
  | .create entry stackSize =>
      match u.tasks.create u.arena entry stackSize with
      | .error _ => images
      | .ok (i, tasks, _) => Function.update images i (tasks.slot i).image
  | _ => images

def firstImages (u : TaskSystem) (images : TaskId → Registers) :
    List TaskRequest → TaskId → Registers
  | [] => images
  | r :: rest => (u.perform r).firstImages (u.noteImage images r) rest

def StartsAtEnds (u : TaskSystem) (images : TaskId → Registers) : Prop :=
  ∀ (i : TaskId) (x : Stack), u.tasks.stack? i = some x →
    0 < x.size ∧ (images i).sp = UInt16.ofNat (x.base + x.size)

/-- Only a creation gives a stack to a slot. -/
theorem stack?_of_perform (h : u.Consistent managed) {r : TaskRequest}
    (hr : ∀ entry stackSize, r ≠ .create entry stackSize)
    (hi : (u.perform r).tasks.stack? i = some x) : u.tasks.stack? i = some x := by
  cases r with
  | create entry stackSize => exact absurd rfl (hr entry stackSize)
  | rotate saved =>
      cases hresult : u.tasks.rotate with
      | none =>
          simp only [perform, hresult] at hi
          exact hi
      | some result =>
          obtain ⟨p, tasks⟩ := result
          simp only [perform, hresult] at hi
          rw [← TaskTable.stack?_rotate hresult]
          cases saved with
          | none => exact hi
          | some registers => exact (TaskTable.stack?_save p registers tasks i).symm.trans hi
  | endCurrent =>
      cases hresult : u.tasks.endCurrent with
      | none =>
          simp only [perform, hresult] at hi
          exact hi
      | some result =>
          obtain ⟨c, tasks⟩ := result
          obtain ⟨d, hlifecycle⟩ := h.lifecycle
          obtain ⟨hc, _⟩ := hlifecycle.endCurrent hresult
          obtain ⟨_, _, htasks⟩ := TaskTable.exists_of_endCurrent hresult
          have hinUse : u.tasks.InUse c := hc ▸ hlifecycle.inUse_current
          simp only [perform, hresult] at hi
          rw [htasks, TaskTable.stack?_setState hinUse TaskState.noConfusion] at hi
          exact hi
  | reap =>
      simp only [perform] at hi
      exact (TaskTable.stack?_reap.mp hi).1
  | allocate n =>
      unfold perform at hi
      dsimp only at hi
      split at hi <;> exact hi
  | free a =>
      unfold perform at hi
      dsimp only at hi
      split at hi <;> exact hi
  | write a bytes => exact hi

theorem StartsAtEnds.create (h : u.StartsAtEnds images) (entry stackSize : Nat) :
    (u.perform (.create entry stackSize)).StartsAtEnds
      (u.noteImage images (.create entry stackSize)) := by
  cases hresult : u.tasks.create u.arena entry stackSize with
  | error e =>
      simp only [perform, noteImage, hresult]
      exact h
  | ok result =>
      obtain ⟨j, tasks, arena⟩ := result
      obtain ⟨base, _, hallocate, htasks⟩ := TaskTable.exists_of_create hresult
      have hpos : 0 < stackSize := by
        refine Nat.pos_of_ne_zero ?_
        rintro rfl
        cases hallocate
      simp only [perform, noteImage, hresult]
      intro i x hi
      by_cases hij : j = i
      · subst hij
        have hslot : tasks.slot j = u.tasks.newSlot entry ⟨base, stackSize⟩ := by
          rw [htasks, TaskTable.slot_setSlot_self]
        have hx := (TaskTable.stack?_eq_some_iff.mp hi).2
        rw [hslot] at hx
        subst hx
        rw [Function.update_self, hslot]
        exact ⟨hpos, rfl⟩
      · rw [Function.update_of_ne (Ne.symm hij)]
        refine h i x ?_
        rw [← hi]
        refine (TaskTable.stack?_congr ?_ ?_).symm
        · rw [TaskTable.InUse, TaskTable.InUse, htasks, TaskTable.slot_setSlot_of_ne _ _ hij]
        · rw [htasks, TaskTable.slot_setSlot_of_ne _ _ hij]

theorem StartsAtEnds.perform (h : u.StartsAtEnds images) (hu : u.Consistent managed)
    (r : TaskRequest) : (u.perform r).StartsAtEnds (u.noteImage images r) := by
  cases r with
  | create entry stackSize => exact h.create entry stackSize
  | rotate | endCurrent | reap | allocate | free | write =>
      intro i x hi
      exact h i x (stack?_of_perform hu (by rintro _ _ ⟨⟩) hi)

theorem StartsAtEnds.run (h : u.StartsAtEnds images) (hu : u.Consistent managed)
    {requests : List TaskRequest} (hpermitted : u.Permitted requests) :
    (u.run requests).StartsAtEnds (u.firstImages images requests) := by
  induction requests generalizing u images with
  | nil => exact h
  | cons r rest ih => exact ih (h.perform hu r) (hu.perform hpermitted.1) hpermitted.2

theorem startsAtEnds_started {opened arena : Arena} {segments : Segments} {entry : Nat}
    {idle : TaskId} {tasks : TaskTable}
    (hinit : TaskTable.init opened segments entry = (.ok idle, tasks, arena)) :
    (started opened tasks arena).StartsAtEnds fun i => (tasks.slot i).image := by
  obtain ⟨base, _, _, htasks⟩ := TaskTable.exists_of_init hinit
  intro i x hi
  obtain ⟨hinUse, hx⟩ := TaskTable.stack?_eq_some_iff.mp hi
  change (tasks.slot i).state ≠ .unused at hinUse
  change (tasks.slot i).stack = x at hx
  dsimp only
  rw [htasks, TaskTable.slot_start_cleared] at hinUse hx ⊢
  split at hinUse
  next hzero =>
    rw [if_pos hzero] at hx ⊢
    subst hx
    exact ⟨show 0 < idleStackSize by decide, rfl⟩
  next => exact absurd rfl hinUse

/-! ## Pushes -/

/-- Offset of the byte that lies `k` bytes below the first stack pointer. -/
def below (images : TaskId → Registers) (i : TaskId) (k : Nat) : UInt16 :=
  (images i).sp - UInt16.ofNat k

/-- What a task pushes from its first stack pointer on has an offset of its own stack,
which is none of another stack, of a free block or of a header. -/
structure OffsetsApart (u : TaskSystem) (images : TaskId → Registers) : Prop where
  own : ∀ (i : TaskId) (x : Stack), u.tasks.stack? i = some x → ∀ k, 1 ≤ k → k ≤ x.size →
    below images i k = UInt16.ofNat (x.base + x.size - k) ∧
      x.base ≤ x.base + x.size - k ∧ x.base + x.size - k < x.base + x.size
  other_stack : ∀ (i j : TaskId) (x y : Stack), u.tasks.stack? i = some x →
    u.tasks.stack? j = some y → i ≠ j → ∀ k, 1 ≤ k → k ≤ x.size →
      ∀ a, y.base ≤ a → a < y.base + y.size → below images i k ≠ UInt16.ofNat a
  free_block : ∀ (i : TaskId) (x : Stack), u.tasks.stack? i = some x →
    ∀ k, 1 ≤ k → k ≤ x.size → ∀ b ∈ u.arena.freeBlocks, ∀ a, b.Covers a →
      below images i k ≠ UInt16.ofNat a
  header : ∃ blocks, u.arena.memory.SizeWalk u.arena.heap.limit u.arena.heap.start blocks ∧
    blocks.Perm (u.arena.freeBlocks ++ (u.stackBlocks ++ u.clientBlocks)) ∧
      ∀ (i : TaskId) (x : Stack), u.tasks.stack? i = some x → ∀ k, 1 ≤ k → k ≤ x.size →
        ∀ b ∈ blocks, ∀ a, b.InHeader a → below images i k ≠ UInt16.ofNat a
  pointer_ne : ∀ (i j : TaskId) (x y : Stack), u.tasks.stack? i = some x →
    u.tasks.stack? j = some y → i ≠ j → (images i).sp ≠ (images j).sp

theorem StartsAtEnds.below_eq (h : u.StartsAtEnds images) (hi : u.tasks.stack? i = some x)
    (hk : k ≤ x.size) : below images i k = UInt16.ofNat (x.base + x.size - k) := by
  rw [below, (h i x hi).2, UInt16.ofNat_sub]
  omega

/-- A stack lies behind the header of its block. -/
theorem Consistent.exists_around (h : u.Consistent managed) (hi : u.tasks.stack? i = some x) :
    ∃ b ∈ u.stackBlocks ++ u.clientBlocks, b = u.arena.blockAt x.base ∧
      b.addr + headerSize = x.base ∧ x.base + x.size ≤ b.limit := by
  obtain ⟨hmem, hpayload, hroom⟩ := h.exists_block hi
  refine ⟨_, List.mem_append_left _ hmem, rfl, hpayload, ?_⟩
  unfold Block.payload at hpayload
  unfold Block.limit
  omega

section

variable (hu : u.Consistent managed) (hmanaged : managed ≤ segmentBytes)
  (hends : u.StartsAtEnds images)
include hu hmanaged hends

/-- A pushed byte is the only byte of the blocks with its offset. -/
theorem below_ne (hi : u.tasks.stack? i = some x) (hpos : 1 ≤ k) (hk : k ≤ x.size)
    {b : Block} {a : Nat} (hb : b ∈ u.arena.freeBlocks ∨ b ∈ u.stackBlocks ++ u.clientBlocks)
    (ha : b.Covers a) (hne : a ≠ x.base + x.size - k) :
    below images i k ≠ UInt16.ofNat a := by
  obtain ⟨c, hc, _, hbase, hlimit⟩ := hu.exists_around hi
  have hcovers : c.Covers (x.base + x.size - k) := by
    unfold Block.Covers
    omega
  rw [hends.below_eq hi hk]
  intro hoffset
  exact hne (hu.holds.eq_of_offset_eq hmanaged (Or.inr hc) hcovers hb ha hoffset).symm

theorem below_ne_of_stack (hi : u.tasks.stack? i = some x) (hj : u.tasks.stack? j = some y)
    (hij : i ≠ j) (hpos : 1 ≤ k) (hk : k ≤ x.size) {a : Nat} (hlow : y.base ≤ a)
    (hhigh : a < y.base + y.size) : below images i k ≠ UInt16.ofNat a := by
  obtain ⟨b, hb, hblock, hbase, hlimit⟩ := hu.exists_around hi
  obtain ⟨c, hc, hcblock, hcbase, hclimit⟩ := hu.exists_around hj
  have hbc : b ≠ c := by
    intro hbc
    exact hij (hu.eq_of_block hi hj (hblock.symm.trans (hbc.trans hcblock)))
  have hapart := hu.holds.apart_of_ne hb hc hbc
  have hcovers : c.Covers a := by
    unfold Block.Covers
    omega
  unfold Block.Apart at hapart
  exact below_ne hu hmanaged hends hi hpos hk (Or.inr hc) hcovers (by omega)

theorem below_ne_of_free (hi : u.tasks.stack? i = some x) (hpos : 1 ≤ k) (hk : k ≤ x.size)
    {b : Block} (hb : b ∈ u.arena.freeBlocks) {a : Nat} (ha : b.Covers a) :
    below images i k ≠ UInt16.ofNat a := by
  obtain ⟨c, hc, _, hbase, hlimit⟩ := hu.exists_around hi
  have hapart := hu.holds.apart_free hc hb
  refine below_ne hu hmanaged hends hi hpos hk (Or.inl hb) ha ?_
  unfold Block.Apart at hapart
  unfold Block.Covers at ha
  omega

theorem below_ne_of_header (hi : u.tasks.stack? i = some x) (hpos : 1 ≤ k) (hk : k ≤ x.size)
    {b : Block} (hb : b ∈ u.arena.freeBlocks ∨ b ∈ u.stackBlocks ++ u.clientBlocks) {a : Nat}
    (ha : b.InHeader a) (hcovers : b.Covers a) : below images i k ≠ UInt16.ofNat a := by
  rcases hb with hfree | hheld
  · exact below_ne_of_free hu hmanaged hends hi hpos hk hfree hcovers
  · obtain ⟨c, hc, _, hbase, hlimit⟩ := hu.exists_around hi
    refine below_ne hu hmanaged hends hi hpos hk (Or.inr hheld) hcovers ?_
    unfold Block.InHeader at ha
    by_cases hbc : b = c
    · subst hbc
      omega
    · have hapart := hu.holds.apart_of_ne hheld hc hbc
      unfold Block.Apart at hapart
      unfold Block.Covers at hcovers
      omega

theorem offsetsApart : u.OffsetsApart images := by
  constructor
  · intro i x hi k hpos hk
    exact ⟨hends.below_eq hi hk, by omega, by omega⟩
  · intro i j x y hi hj hij k hpos hk a hlow hhigh
    exact below_ne_of_stack hu hmanaged hends hi hj hij hpos hk hlow hhigh
  · intro i x hi k hpos hk b hb a ha
    exact below_ne_of_free hu hmanaged hends hi hpos hk hb ha
  · obtain ⟨blocks, hwalk, hperm, hsize⟩ := hu.holds.exists_sizeWalk
    refine ⟨blocks, hwalk, hperm, ?_⟩
    intro i x hi k hpos hk b hb a ha
    have hmem := List.mem_append.mp (hperm.mem_iff.mp hb)
    have hcovers : b.Covers a := by
      have hroom := hsize b hb
      unfold Block.InHeader at ha
      unfold Block.Covers Block.limit
      omega
    exact below_ne_of_header hu hmanaged hends hi hpos hk hmem ha hcovers
  · intro i j x y hi hj hij hsp
    -- Equal pointers would make the last bytes of both stacks share an offset.
    have hx := (hends i x hi).1
    have hy := (hends j y hj).1
    refine below_ne_of_stack hu hmanaged hends hi hj hij (Nat.le_refl 1) hx
      (a := y.base + y.size - 1) (by omega) (by omega) ?_
    rw [← hends.below_eq hj hy, below, below, hsp]

end

/-- Wherever a pool lies, and whatever tasks and clients do on it, cutting the ends of
stacks to sixteen bits does not let the tasks push into what is not theirs. -/
theorem run_offsetsApart {s opened arena : Arena} {start size managed : Nat}
    {segments : Segments} {entry : Nat} {idle : TaskId} {tasks : TaskTable}
    (hfits : start + size < wordLimit) (hopened : s.init start size = .ok (managed, opened))
    (hinit : TaskTable.init opened segments entry = (.ok idle, tasks, arena))
    {requests : List TaskRequest}
    (hpermitted : (started opened tasks arena).Permitted requests) :
    ((started opened tasks arena).run requests).OffsetsApart
      ((started opened tasks arena).firstImages (fun i => (tasks.slot i).image) requests) := by
  have hconsistent := consistent_started hopened hfits hinit
  have hends := (startsAtEnds_started hinit).run hconsistent hpermitted
  exact offsetsApart (hconsistent.run hpermitted) (Arena.managed_le_of_init hopened) hends

/-- A pool of a whole segment that begins in the middle of one. -/
def straddlingPool : Arena := ⟨({} : Memory).setHeader 98304 ⟨65536, 0⟩, ⟨98304, 163840, 98304⟩⟩

def straddlingBoot : Except CreationError TaskId × TaskTable × Arena :=
  TaskTable.init straddlingPool .initial 256

/-- The second task gets the rest of the pool: the offset at which its stack ends is that of
the first header. -/
def wholePool : List TaskRequest :=
  [.create 512 64480, .rotate (some { ax := 7 }), .allocate 8]

theorem run_offsetsApart_wholePool :
    98304 + 65536 < wordLimit ∧
      ({} : Arena).init 98304 65536 = .ok (65536, straddlingPool) ∧
      TaskTable.init straddlingPool .initial 256 =
        (.ok 0, straddlingBoot.2.1, straddlingBoot.2.2) ∧
      (started straddlingPool straddlingBoot.2.1 straddlingBoot.2.2).Permitted wholePool ∧
      (((started straddlingPool straddlingBoot.2.1 straddlingBoot.2.2).firstImages
        (fun i => (straddlingBoot.2.1.slot i).image) wholePool 1).sp =
          UInt16.ofNat straddlingPool.heap.start) ∧
      ((started straddlingPool straddlingBoot.2.1 straddlingBoot.2.2).run wholePool).OffsetsApart
        ((started straddlingPool straddlingBoot.2.1 straddlingBoot.2.2).firstImages
          (fun i => (straddlingBoot.2.1.slot i).image) wholePool) := by
  have hfits : 98304 + 65536 < wordLimit := by decide
  have hopened : ({} : Arena).init 98304 65536 = .ok (65536, straddlingPool) := rfl
  have hinit : TaskTable.init straddlingPool .initial 256 =
      (.ok 0, straddlingBoot.2.1, straddlingBoot.2.2) :=
    TaskTable.init_eq_ok (by decide +kernel)
  have hpermitted : (started straddlingPool straddlingBoot.2.1
      straddlingBoot.2.2).Permitted wholePool := by
    decide +kernel
  exact ⟨hfits, hopened, hinit, hpermitted, by decide +kernel,
    run_offsetsApart hfits hopened hinit hpermitted⟩

end TaskSystem

end Kernel16
