import Kernel16.Proofs.Heap.Boundaries
import Kernel16.Proofs.Task.Ownership
import Kernel16.Proofs.Task.Transition
import Mathlib.Data.Finset.Card
import Mathlib.Data.Fintype.Basic

/-!
# How long an ended task is kept

A task that ends keeps its slot and its stack, since it runs on that stack until it gives up the
processor.  Whoever hands the processor on reaps first and then picks, and reaping spares the
task on the processor.  So a task that has ended outlives its own last switch and is taken back
by the next one, before another task can follow it: besides the task on the processor no more
than one has ended.
-/

namespace Kernel16

/-! ## Live blocks -/

namespace Arena

variable {s t : Arena} {managed a size : Nat} {held : List Block} {b : Block}

/-- The blocks of the pool that are not on the free list. -/
def liveBlocks (s : Arena) : List Block := s.blocks.filter (· ∉ s.freeBlocks)

theorem Holds.mem_blocks (h : s.Holds managed held) :
    b ∈ s.blocks ↔ b ∈ s.freeBlocks ∨ b ∈ held := by
  obtain ⟨p, hrepresents, hvalid, hlive, _⟩ := h
  obtain ⟨blocks, htiles, hperm⟩ := hvalid.tiled
  rw [hrepresents.blocks_eq htiles hperm, hperm.mem_iff, hrepresents.freeBlocks_eq hvalid,
    ← hlive.mem_iff, Partition.mem_blocks]

theorem Holds.mem_liveBlocks (h : s.Holds managed held) : b ∈ s.liveBlocks ↔ b ∈ held := by
  rw [liveBlocks, List.mem_filter, decide_eq_true_iff, h.mem_blocks]
  constructor
  · intro hb
    exact hb.1.resolve_left hb.2
  · intro hb
    exact ⟨Or.inr hb, h.not_mem_free hb⟩

theorem Holds.blocks_free (h : s.Holds managed held) (hresult : s.free a = .ok (size, t)) :
    t.blocks = s.blocks := by
  obtain ⟨p, hrepresents, hvalid, _, _⟩ := h
  obtain ⟨blocks, htiles, hperm⟩ := hvalid.tiled
  obtain ⟨q, hq, hrepresents', _, _⟩ := hrepresents.exists_of_free hvalid hresult
  obtain ⟨hstart, hlimit⟩ := Partition.range_of_giveBack hq
  have htiles' : Tiles q.limit q.start blocks := by
    rw [hstart, hlimit]
    exact htiles
  rw [hrepresents.blocks_eq htiles hperm,
    hrepresents'.blocks_eq htiles' (hperm.trans (hvalid.blocks_giveBack hq))]

end Arena

theorem Reaping.blocks_foldl {managed : Nat} {held : List Block} {r : Reaping}
    (h : r.arena.Holds managed held) (slots : List TaskId) :
    (slots.foldl step r).arena.blocks = r.arena.blocks := by
  induction slots generalizing r held with
  | nil => rfl
  | cons i rest ih =>
      rw [List.foldl_cons]
      by_cases hreapable : r.table.reapable i = true
      · cases hresult : r.arena.free (r.table.slot i).stack.base with
        | ok result =>
            obtain ⟨size, t⟩ := result
            rw [r.step_of_free hreapable hresult, ih (h.free hresult)]
            exact h.blocks_free hresult
        | error e =>
            have hstep : (r.step i).arena = r.arena := by
              simp only [step, hreapable, if_true, hresult]
            rw [ih (hstep ▸ h), hstep]
      · rw [r.step_of_not_reapable hreapable, ih h]

/-! ## Ended slots -/

namespace TaskTable

variable {t : TaskTable} {s : Arena} {c i : TaskId}

def endedSlots (t : TaskTable) : Finset TaskId :=
  Finset.univ.filter fun i => (t.slot i).state = .ended

@[simp] theorem mem_endedSlots : i ∈ t.endedSlots ↔ (t.slot i).state = .ended := by
  simp [endedSlots]

/-- No more than one slot waits to be reaped. -/
def Tidy (t : TaskTable) : Prop := ∀ i j, t.reapable i = true → t.reapable j = true → i = j

theorem Tidy.card_erase_le (h : t.Tidy) (hcurrent : t.current = some c) :
    (t.endedSlots.erase c).card ≤ 1 := by
  have hreapable : ∀ i ∈ t.endedSlots.erase c, t.reapable i = true := by
    intro i hi
    obtain ⟨hne, hended⟩ := Finset.mem_erase.mp hi
    refine reapable_iff.mpr ⟨mem_endedSlots.mp hended, ?_⟩
    rw [hcurrent]
    exact fun hc => hne (Option.some.inj hc).symm
  exact Finset.card_le_one.mpr fun i hi j hj => h i j (hreapable i hi) (hreapable j hj)

theorem Tidy.card_endedSlots (h : t.Tidy) (hcurrent : t.current = some c) :
    t.endedSlots.card ≤ 2 ∧ (t.endedSlots.card = 2 → c ∈ t.endedSlots) := by
  have herase := h.card_erase_le hcurrent
  by_cases hc : c ∈ t.endedSlots
  · have hcard := Finset.card_erase_add_one hc
    exact ⟨by omega, fun _ => hc⟩
  · rw [Finset.erase_eq_of_notMem hc] at herase
    exact ⟨by omega, by omega⟩

theorem tidy_of_init {segments : Segments} {entry : Nat} {u : TaskTable} {r : Arena}
    (h : init s segments entry = (.ok i, u, r)) : u.Tidy := by
  obtain ⟨base, _, _, rfl⟩ := exists_of_init h
  intro j _ hj
  have hended := (reapable_iff.mp hj).1
  rw [slot_start_cleared] at hended
  split at hended <;> cases hended

end TaskTable

/-! ## What requests do to an ended slot -/

namespace TaskSystem

variable {u : TaskSystem} {managed : Nat} {r : TaskRequest} {i c : TaskId} {x : Stack} {b : Block}

/-- Slot `i`, whose task has ended, owns the stack `x` still, which lies in the block `b`. -/
structure Retains (u : TaskSystem) (i : TaskId) (x : Stack) (b : Block) : Prop where
  ended : (u.tasks.slot i).state = .ended
  stack : (u.tasks.slot i).stack = x
  block : b ∈ u.stackBlocks
  payload : b.payload = x.base

theorem Retains.stack?_eq (h : u.Retains i x b) : u.tasks.stack? i = some x := by
  refine TaskTable.stack?_eq_some_iff.mpr ⟨?_, h.stack⟩
  rw [TaskTable.InUse, h.ended]
  exact TaskState.noConfusion

theorem Retains.of_slot {v : TaskSystem} (h : u.Retains i x b)
    (hslot : v.tasks.slot i = u.tasks.slot i) (hblock : b ∈ v.stackBlocks) : v.Retains i x b :=
  ⟨hslot ▸ h.ended, hslot ▸ h.stack, hblock, h.payload⟩

theorem Consistent.exists_retains (h : u.Consistent managed)
    (hended : (u.tasks.slot i).state = .ended) :
    ∃ x b, u.Retains i x b ∧ x.base + x.size ≤ b.limit := by
  have hinUse : u.tasks.InUse i := by
    rw [TaskTable.InUse, hended]
    exact TaskState.noConfusion
  obtain ⟨b, hb, hpayload, hroom⟩ :=
    h.owns.block i _ (TaskTable.stack?_eq_some_iff.mpr ⟨hinUse, rfl⟩)
  refine ⟨_, b, ⟨hended, rfl, hb, hpayload⟩, ?_⟩
  unfold Block.payload at hpayload
  unfold Block.limit
  omega

theorem Retains.create (h : u.Retains i x b) (entry stackSize : Nat) :
    (u.perform (.create entry stackSize)).Retains i x b := by
  cases hresult : u.tasks.create u.arena entry stackSize with
  | error e => simpa only [TaskSystem.perform, hresult] using h
  | ok result =>
      obtain ⟨j, tasks, arena⟩ := result
      obtain ⟨base, hunused, _, htasks⟩ := TaskTable.exists_of_create hresult
      have hne : j ≠ i := by
        intro hij
        rw [hij, h.ended] at hunused
        cases hunused
      simp only [TaskSystem.perform, hresult]
      refine h.of_slot ?_ (List.mem_append_right _ h.block)
      rw [htasks]
      exact TaskTable.slot_setSlot_of_ne _ _ hne

theorem Retains.rotate (h : u.Retains i x b) (saved : Option Registers) :
    (u.perform (.rotate saved)).Retains i x b := by
  cases hresult : u.tasks.rotate with
  | none => simpa only [TaskSystem.perform, hresult] using h
  | some result =>
      obtain ⟨p, tasks⟩ := result
      obtain ⟨_, hne, hcanRun, rfl⟩ := TaskTable.exists_of_rotate hresult
      have hslot : (u.tasks.handOver p.outgoing p.incoming).slot i = u.tasks.slot i := by
        have hi : i ≠ p.incoming := by
          intro hi
          rw [← hi, h.ended] at hcanRun
          cases hcanRun
        rw [TaskTable.slot_handOver _ hne, if_neg hi, if_neg]
        rw [h.ended]
        exact fun hrunning => TaskState.noConfusion hrunning.2
      have hrotated : { u with tasks := u.tasks.handOver p.outgoing p.incoming }.Retains i x b :=
        h.of_slot hslot h.block
      simp only [TaskSystem.perform, hresult]
      cases saved with
      | none => exact hrotated
      | some registers =>
          refine ⟨?_, ?_, h.block, h.payload⟩
          · exact (TaskTable.state_save p registers _ i).trans hrotated.ended
          · exact (TaskTable.stack_save p registers _ i).trans hrotated.stack

theorem Retains.endCurrent (h : u.Retains i x b) : (u.perform .endCurrent).Retains i x b := by
  cases hresult : u.tasks.endCurrent with
  | none => simpa only [TaskSystem.perform, hresult] using h
  | some result =>
      obtain ⟨j, tasks⟩ := result
      obtain ⟨_, _, rfl⟩ := TaskTable.exists_of_endCurrent hresult
      simp only [TaskSystem.perform, hresult]
      refine ⟨?_, ?_, h.block, h.payload⟩
      · rw [TaskTable.slot_setState]
        split
        · rfl
        · exact h.ended
      · rw [TaskTable.slot_setState]
        split <;> exact h.stack

@[simp] theorem tasks_reap (u : TaskSystem) :
    (u.perform .reap).tasks = (u.tasks.reap u.arena).table := by
  simp only [perform]

@[simp] theorem arena_reap (u : TaskSystem) :
    (u.perform .reap).arena = (u.tasks.reap u.arena).arena := by
  simp only [perform]

/-- Reaping spares the task on the processor. -/
theorem Retains.reap (h : u.Retains i x b) (hu : u.Consistent managed)
    (hcurrent : u.tasks.current = some i) : (u.perform .reap).Retains i x b := by
  have hspared : ¬ u.tasks.reapable i = true := fun hreapable =>
    (TaskTable.reapable_iff.mp hreapable).2 hcurrent
  have hblock : b ∈ (u.perform .reap).stackBlocks := by
    simp only [TaskSystem.perform, takeBack, without_returned hu.reap_holds.1]
    refine List.mem_filter.mpr ⟨h.block, decide_eq_true ?_⟩
    intro j _ hreapable hbase
    have hij := hu.owns.unique j i _ x (TaskTable.stack?_of_reapable hreapable) h.stack?_eq
      (hbase.trans h.payload)
    exact hspared (hij ▸ hreapable)
  refine h.of_slot ?_ hblock
  rw [tasks_reap, TaskTable.slot_reap, if_neg hspared]

theorem Retains.perform (h : u.Retains i x b) (hu : u.Consistent managed) (hpermits : u.Permits r)
    (hreap : r = .reap → u.tasks.current = some i) : (u.perform r).Retains i x b := by
  cases r with
  | create entry stackSize => exact h.create entry stackSize
  | rotate saved => exact h.rotate saved
  | endCurrent => exact h.endCurrent
  | reap => exact h.reap hu (hreap rfl)
  | allocate n =>
      cases hresult : u.arena.allocate n with
      | none => simpa only [TaskSystem.perform, hresult] using h
      | some result =>
          simp only [TaskSystem.perform, hresult]
          exact h.of_slot rfl h.block
  | free a =>
      cases hresult : u.arena.free a with
      | error e => simpa only [TaskSystem.perform, hresult] using h
      | ok result =>
          have hne : x.base ≠ a := hpermits i x h.stack?_eq
          simp only [TaskSystem.perform, hresult]
          refine h.of_slot rfl (List.mem_filter.mpr ⟨h.block, decide_eq_true ?_⟩)
          rw [h.payload, List.mem_singleton]
          exact hne
  | write a bytes => exact h.of_slot rfl h.block

/-! ## Handing the processor on -/

/-- Reaps and then rotates, as a task does that gives up the processor. -/
def handOn (u : TaskSystem) (saved : Option Registers) : TaskSystem :=
  (u.perform .reap).perform (.rotate saved)

theorem Consistent.handOn (h : u.Consistent managed) (saved : Option Registers) :
    (u.handOn saved).Consistent managed :=
  h.reap.rotate saved

theorem Retains.handOn (h : u.Retains i x b) (hu : u.Consistent managed)
    (hcurrent : u.tasks.current = some i) (saved : Option Registers) :
    (u.handOn saved).Retains i x b :=
  (h.reap hu hcurrent).rotate saved

theorem tasks_rotate (u : TaskSystem) (saved : Option Registers) :
    (u.perform (.rotate saved)).tasks = u.tasks.after (.rotate saved) := by
  cases hresult : u.tasks.rotate with
  | none => simp only [perform, TaskTable.after, hresult]
  | some result => simp only [perform, TaskTable.after, hresult]

theorem arena_rotate (u : TaskSystem) (saved : Option Registers) :
    (u.perform (.rotate saved)).arena = u.arena := by
  cases hresult : u.tasks.rotate with
  | none => simp only [perform, hresult]
  | some result => simp only [perform, hresult]

/-- The rest of a handover neither ends a task nor fills a slot. -/
theorem Consistent.state_rotate (h : u.Consistent managed) (saved : Option Registers)
    {state : TaskState} (hstate : state = .unused ∨ state = .ended) :
    ((u.perform (.rotate saved)).tasks.slot i).state = state ↔
      (u.tasks.slot i).state = state := by
  obtain ⟨c, hlifecycle⟩ := h.lifecycle
  rw [tasks_rotate]
  rcases hlifecycle.moves_rotate (i := i) saved with hsame | hedge
  · rw [hsame]
  · -- The two edges of a rotation are between states in which a task can run.
    generalize ((u.tasks.after (.rotate saved)).slot i).state = after at hedge ⊢
    generalize (u.tasks.slot i).state = before at hedge ⊢
    cases hedge <;> rcases hstate with rfl | rfl <;> decide

/-- An ended task that is not on the processor is taken back. -/
theorem Retains.reclaimed (h : u.Retains i x b) (hu : u.Consistent managed)
    (hother : u.tasks.current ≠ some i) (saved : Option Registers) :
    ((u.handOn saved).tasks.slot i).state = .unused ∧
      b ∈ (u.handOn saved).arena.freeBlocks := by
  have hreapable := TaskTable.reapable_iff.mpr ⟨h.ended, hother⟩
  constructor
  · refine (hu.reap.state_rotate saved (Or.inl rfl)).mpr ?_
    rw [tasks_reap, TaskTable.slot_reap, if_pos hreapable]
  · have hbefore : b ∈ u.stackBlocks ++ u.clientBlocks := List.mem_append_left _ h.block
    obtain ⟨_, hholds⟩ := hu.reap_holds
    -- No block is lost, so one that is not held any longer is free.
    have hblocks : (u.tasks.reap u.arena).arena.blocks = u.arena.blocks :=
      Reaping.blocks_foldl hu.holds _
    have hmem : b ∈ (u.tasks.reap u.arena).arena.blocks := by
      rw [hblocks]
      exact hu.holds.mem_blocks.mpr (Or.inr hbefore)
    rw [TaskSystem.handOn, arena_rotate, arena_reap]
    refine (hholds.mem_blocks.mp hmem).resolve_right ?_
    intro hheld
    refine of_decide_eq_true (List.mem_filter.mp hheld).2 i (List.mem_finRange i) hreapable ?_
    rw [h.stack, h.payload]

/-- The only task that can have ended after a handover is the one that made it. -/
theorem Consistent.ended_handOn (h : u.Consistent managed) (saved : Option Registers)
    (hended : ((u.handOn saved).tasks.slot i).state = .ended) :
    u.tasks.current = some i ∧ (u.handOn saved).tasks.current ≠ some i := by
  have hreaped := (h.reap.state_rotate saved (Or.inr rfl)).mp hended
  have hcurrent : u.tasks.current = some i := by
    have hkept := hreaped
    rw [tasks_reap, TaskTable.slot_reap] at hkept
    split at hkept
    next => cases hkept
    next hreapable =>
      by_contra hother
      exact hreapable (TaskTable.reapable_iff.mpr ⟨hkept, hother⟩)
  refine ⟨hcurrent, ?_⟩
  obtain ⟨c, hlifecycle⟩ := h.lifecycle
  have hc : c = i := Option.some.inj (hlifecycle.current_eq.symm.trans hcurrent)
  have hreap : (u.perform .reap).tasks.Lifecycle c := by
    rw [tasks_reap]
    exact hlifecycle.reap u.arena
  obtain ⟨p, tasks, hrotate⟩ := hreap.exists_rotate (hc ▸ hreaped)
  obtain ⟨_, hne, _, _⟩ := TaskTable.exists_of_rotate hrotate
  have hnext := hreap.after_rotate hrotate saved
  rw [TaskSystem.handOn, tasks_rotate, hnext.current_eq, ← hc, ← (hreap.rotate hrotate).1]
  exact fun hsame => hne (Option.some.inj hsame)

theorem Consistent.tidy_handOn (h : u.Consistent managed) (saved : Option Registers) :
    (u.handOn saved).tasks.Tidy := by
  intro i j hi hj
  have hi := (h.ended_handOn saved (TaskTable.reapable_iff.mp hi).1).1
  have hj := (h.ended_handOn saved (TaskTable.reapable_iff.mp hj).1).1
  exact Option.some.inj (hi.symm.trans hj)

/-- Only a rotation leaves more slots to be reaped than there were. -/
theorem Consistent.reapable_of_perform (h : u.Consistent managed)
    (hrotate : ∀ saved, r ≠ .rotate saved)
    (hreapable : (u.perform r).tasks.reapable i = true) : u.tasks.reapable i = true := by
  cases r with
  | create entry stackSize =>
      cases hresult : u.tasks.create u.arena entry stackSize with
      | error e => simpa only [TaskSystem.perform, hresult] using hreapable
      | ok result =>
          obtain ⟨j, tasks, arena⟩ := result
          obtain ⟨base, _, _, rfl⟩ := TaskTable.exists_of_create hresult
          simp only [TaskSystem.perform, hresult, TaskTable.reapable_iff, TaskTable.current_setSlot,
            TaskTable.slot_setSlot] at hreapable
          split at hreapable
          next => exact TaskState.noConfusion hreapable.1
          next => exact TaskTable.reapable_iff.mpr hreapable
  | rotate saved => exact absurd rfl (hrotate saved)
  | endCurrent =>
      cases hresult : u.tasks.endCurrent with
      | none => simpa only [TaskSystem.perform, hresult] using hreapable
      | some result =>
          obtain ⟨j, tasks⟩ := result
          obtain ⟨hcurrent, _, rfl⟩ := TaskTable.exists_of_endCurrent hresult
          simp only [TaskSystem.perform, hresult, TaskTable.reapable_iff,
            TaskTable.slot_setState] at hreapable
          obtain ⟨hended, hother⟩ := hreapable
          have hne : j ≠ i := fun hij => hother (hij ▸ hcurrent)
          rw [if_neg hne] at hended
          exact TaskTable.reapable_iff.mpr ⟨hended, hother⟩
  | reap =>
      obtain ⟨c, hlifecycle⟩ := h.lifecycle
      rw [tasks_reap, TaskTable.reapable_iff, (hlifecycle.reap u.arena).current_eq,
        TaskTable.slot_reap] at hreapable
      split at hreapable
      next hbefore => exact hbefore
      next => exact TaskTable.reapable_iff.mpr (hlifecycle.current_eq ▸ hreapable)
  | allocate n =>
      cases hresult : u.arena.allocate n <;>
        simpa only [TaskSystem.perform, hresult] using hreapable
  | free a =>
      cases hresult : u.arena.free a <;>
        simpa only [TaskSystem.perform, takeBack, hresult] using hreapable
  | write a bytes => exact hreapable

theorem Consistent.tidy_perform (h : u.Consistent managed) (htidy : u.tasks.Tidy)
    (hrotate : ∀ saved, r ≠ .rotate saved) : (u.perform r).tasks.Tidy :=
  fun i j hi hj => htidy i j (h.reapable_of_perform hrotate hi) (h.reapable_of_perform hrotate hj)

end TaskSystem

end Kernel16
