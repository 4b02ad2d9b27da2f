import Kernel16.Proofs.Heap.Representation
import Kernel16.Proofs.Kernel.Execution
import Kernel16.Proofs.Task.Transition

/-!
# Tasks are created as a whole or not at all

A creation needs an initialized table, a slot and a stack, and looks for them in this order.
What it asks for last is what it changes first, so nothing has to be undone when it fails: the
answer names what was missing, and table and heap are what they were.

Whether there is a stack is a matter of the free list alone.  A request so large that the size
of its block is no word fails like any other that no free block can serve.

The kernel adds locks and a line in the log: its answer is the answer of its table, and table and
heap come to what they come to on their own.
-/

namespace Kernel16

/-! ## Requests that the heap cannot serve -/

theorem Memory.size_lt_of_mem_freeChain {m : Memory} {bound a : Nat} {b : Block}
    (h : b ∈ m.freeChain bound a) : b.size < wordLimit := by
  induction bound generalizing a with
  | zero => exact absurd h List.not_mem_nil
  | succ bound ih =>
      rw [Memory.freeChain] at h
      split at h
      next => exact absurd h List.not_mem_nil
      next =>
        rcases List.mem_cons.mp h with rfl | hrest
        · exact m.word_lt a
        · exact ih hrest

/-- The search and the free list follow the same links, wherever these lead. -/
theorem Memory.firstFit_eq_none_iff {m : Memory} {needed bound a : Nat} (link : Link) :
    m.firstFit needed bound link a = none ↔ ∀ b ∈ m.freeChain bound a, b.size < needed := by
  induction bound generalizing link a with
  | zero => simp [Memory.firstFit, Memory.freeChain]
  | succ bound ih =>
      rw [Memory.firstFit, Memory.freeChain]
      split
      next => simp
      next =>
        rw [List.forall_mem_cons, ← ih (.after a)]
        split
        next hfits => simp [Nat.not_lt.mpr hfits]
        next hsmall => simp [Nat.lt_of_not_le hsmall]

theorem Arena.allocate_eq_none_iff {s : Arena} {n : Nat} :
    s.allocate n = none ↔ n = 0 ∨ ∀ b ∈ s.freeBlocks, b.size < Partition.neededFor n := by
  by_cases hn : n = 0
  · simp [hn]
  · rw [Arena.allocate, if_neg hn, Arena.blockSize?_eq, or_iff_right hn]
    split
    next hword =>
      rw [Arena.freeBlocks, ← Memory.firstFit_eq_none_iff .head, Option.bind_eq_bind,
        Option.bind_some]
      cases s.memory.firstFit (Partition.neededFor n) wordLimit .head s.heap.head <;> simp
    next hword =>
      -- Sizes are words, so no block is as large as what is needed here.
      have hsmall : ∀ b ∈ s.freeBlocks, b.size < Partition.neededFor n := fun b hb =>
        Nat.lt_of_lt_of_le (Memory.size_lt_of_mem_freeChain hb) (Nat.le_of_not_lt hword)
      simpa using hsmall

/-! ## The image of a new task -/

/-- The registers that a task enters `entry` with, when it has never run. -/
structure Registers.Enters (image : Registers) (segments : Segments) (entry : Nat)
    (stack : Stack) : Prop where
  ip : image.ip.toNat = entry % segmentBytes
  sp : image.sp.toNat = (stack.base + stack.size) % segmentBytes
  cs : image.cs = segments.code
  data : image.ds = segments.data ∧ image.es = segments.data ∧ image.ss = segments.data
  flags : image.flags = 0x0202
  others : image.ax = 0 ∧ image.bx = 0 ∧ image.cx = 0 ∧ image.dx = 0 ∧ image.si = 0 ∧
    image.di = 0 ∧ image.bp = 0

theorem Registers.enters_ofNewTask (entry : Nat) (stack : Stack) (segments : Segments) :
    (Registers.ofNewTask entry stack segments).Enters segments entry stack where
  ip := UInt16.toNat_ofNat'
  sp := UInt16.toNat_ofNat'
  cs := rfl
  data := ⟨rfl, rfl, rfl⟩
  flags := (by decide : Flag.ofNewTask = 0x0202)
  others := ⟨rfl, rfl, rfl, rfl, rfl, rfl, rfl⟩

namespace TaskTable

variable {t u : TaskTable} {s r : Arena} {i : TaskId} {base entry stackSize : Nat}
  {action : TableAction}

/-! ## Creations -/

/-- What a creation answers, and the table and the heap that it leaves. -/
def created (t : TaskTable) (s : Arena) (entry stackSize : Nat) :
    Except CreationError TaskId × TaskTable × Arena :=
  match t.create s entry stackSize with
  | .ok (i, u, r) => (.ok i, u, r)
  | .error e => (.error e, t, s)

theorem firstUnused?_eq_none_iff : t.firstUnused? = none ↔ ∀ i, t.InUse i := by
  simp [firstUnused?, InUse]

theorem exists_firstUnused? (h : ∃ i, ¬ t.InUse i) : ∃ i, t.firstUnused? = some i := by
  rw [← Option.ne_none_iff_exists', Ne, firstUnused?_eq_none_iff]
  exact not_forall.mpr h

theorem lowest_of_firstUnused? (h : t.firstUnused? = some i) :
    ¬ t.InUse i ∧ ∀ j < i, t.InUse j := by
  obtain ⟨hunused, n, hn, hi, hbefore⟩ := List.find?_eq_some_iff_getElem.mp h
  rw [List.getElem_finRange] at hi
  refine ⟨not_not.mpr (of_decide_eq_true hunused), fun j hj => ?_⟩
  have hlt : j.val < n := by
    rw [← hi] at hj
    exact hj
  have hused := hbefore j.val hlt
  rw [List.getElem_finRange] at hused
  simpa [InUse] using hused

theorem created_of_current_eq_none (h : t.current = none) :
    t.created s entry stackSize = (.error .notStarted, t, s) := by
  rw [created, create_of_not_started t s entry stackSize h]

theorem create_of_current_ne_none (h : t.current ≠ none) :
    t.create s entry stackSize = t.occupy s entry stackSize := by
  rw [create, isStarted, if_pos (Option.isSome_iff_ne_none.mpr h)]

theorem created_of_full (hstarted : t.current ≠ none) (hfull : ∀ i, t.InUse i) :
    t.created s entry stackSize = (.error .noSlot, t, s) := by
  rw [created, create_of_current_ne_none hstarted, occupy,
    firstUnused?_eq_none_iff.mpr hfull]

theorem created_of_no_stack (hstarted : t.current ≠ none) (hfirst : t.firstUnused? = some i)
    (hnone : s.allocate stackSize = none) :
    t.created s entry stackSize = (.error .noStack, t, s) := by
  rw [created, create_of_current_ne_none hstarted, occupy, hfirst, hnone]

theorem created_of_allocate (hstarted : t.current ≠ none) (hfirst : t.firstUnused? = some i)
    (hallocate : s.allocate stackSize = some (base, r)) :
    t.created s entry stackSize =
      (.ok i, t.setSlot i (t.newSlot entry ⟨base, stackSize⟩), r) := by
  rw [created, create_of_current_ne_none hstarted, occupy, hfirst, hallocate]

/-- Slot `i`, the lowest that was not in use, holds a new task, and that is all that changed. -/
structure Gains (t : TaskTable) (i : TaskId) (segments : Segments) (entry : Nat) (stack : Stack)
    (u : TaskTable) : Prop where
  unused : ¬ t.InUse i
  lowest : ∀ j < i, t.InUse j
  ready : (u.slot i).state = .ready
  stack_eq : (u.slot i).stack = stack
  image : (u.slot i).image.Enters segments entry stack
  others : ∀ j, j ≠ i → u.slot j = t.slot j
  current_eq : u.current = t.current
  cursor_eq : u.cursor = t.cursor
  idle_eq : u.idle = t.idle
  segments_eq : u.segments = t.segments

theorem gains_of_firstUnused? (h : t.firstUnused? = some i) (entry : Nat) (stack : Stack) :
    t.Gains i t.segments entry stack (t.setSlot i (t.newSlot entry stack)) := by
  obtain ⟨hunused, hlowest⟩ := lowest_of_firstUnused? h
  refine ⟨hunused, hlowest, ?_, ?_, ?_, ?_, rfl, rfl, rfl, rfl⟩
  · rw [slot_setSlot_self]
    rfl
  · rw [slot_setSlot_self]
    rfl
  · rw [slot_setSlot_self]
    exact Registers.enters_ofNewTask entry stack t.segments
  · intro j hj
    exact slot_setSlot_of_ne t _ hj.symm

/-! ## Initializations -/

/-- The segments that new tasks get after the action, if the table is initialized then. -/
def bootSegmentsAfter (before : Option Segments) : TableAction → Option Segments
  | .init heap segments entry => (init heap segments entry).1.toOption.map fun _ => segments
  | .create _ _ _ | .rotate _ | .endCurrent | .reap _ => before

/-- The segments of the last initialization, if it succeeded.  One that fails leaves the table
empty, as if none had been tried. -/
def bootSegments (actions : List TableAction) : Option Segments :=
  actions.foldl bootSegmentsAfter none

/-- The table is initialized with these segments, or it is not initialized. -/
def Booted (t : TaskTable) : Option Segments → Prop
  | none => t.Blank
  | some segments => t.segments = segments ∧ ∃ c, t.Lifecycle c

theorem segments_handOver (t : TaskTable) (old new : TaskId) :
    (t.handOver old new).segments = t.segments := by
  unfold handOver
  split <;> rfl

theorem segments_after (hinit : action.isInit = false) :
    (t.after action).segments = t.segments := by
  cases action with
  | init heap segments entry => cases hinit
  | create heap entry stackSize =>
      cases hresult : t.create heap entry stackSize with
      | error e => simp only [after, hresult]
      | ok result =>
          obtain ⟨base, _, _, hu⟩ := exists_of_create hresult
          simp only [after, hresult, hu, segments_setSlot]
  | rotate saved =>
      cases hresult : t.rotate with
      | none => simp only [after, hresult]
      | some result =>
          obtain ⟨_, _, _, hu⟩ := exists_of_rotate hresult
          have hsegments := segments_handOver t result.1.outgoing result.1.incoming
          simp only [after, hresult, hu]
          cases saved with
          | none => exact hsegments
          | some registers => exact hsegments
  | endCurrent =>
      cases hresult : t.endCurrent with
      | none => simp only [after, hresult]
      | some result =>
          obtain ⟨_, _, hu⟩ := exists_of_endCurrent hresult
          simp only [after, hresult, hu, setState, segments_setSlot]
  | reap heap =>
      rw [after]
      refine reap_induction (motive := fun u => u.segments = t.segments) t heap rfl ?_
      intro u i hu _
      rw [segments_setSlot, hu]

theorem booted_init (heap : Arena) (segments : Segments) (entry : Nat) :
    (t.after (.init heap segments entry)).Booted
      ((init heap segments entry).1.toOption.map fun _ => segments) := by
  cases hresult : init heap segments entry with
  | mk answer rest =>
      obtain ⟨u, r⟩ := rest
      simp only [after, hresult]
      cases answer with
      | error e => exact table_of_init_error hresult ▸ blank_cleared segments
      | ok i =>
          obtain ⟨base, _, _, hu⟩ := exists_of_init hresult
          have hsegments : u.segments = segments := by
            rw [hu]
            rfl
          exact ⟨hsegments, 0, (lifecycle_of_init hresult).2⟩

theorem Booted.after {before : Option Segments} (h : t.Booted before) (action : TableAction) :
    (t.after action).Booted (bootSegmentsAfter before action) := by
  have hkept (hinit : action.isInit = false) : (t.after action).Booted before := by
    cases before with
    | none => exact (h.after_eq hinit).symm ▸ h
    | some segments =>
        obtain ⟨hsegments, c, hlifecycle⟩ := h
        exact ⟨(segments_after hinit).trans hsegments, hlifecycle.after hinit⟩
  cases action with
  | init heap segments entry => exact booted_init heap segments entry
  | create heap entry stackSize => exact hkept rfl
  | rotate saved => exact hkept rfl
  | endCurrent => exact hkept rfl
  | reap heap => exact hkept rfl

theorem Booted.run {before : Option Segments} (h : t.Booted before)
    (actions : List TableAction) :
    (t.run actions).Booted (actions.foldl bootSegmentsAfter before) := by
  induction actions generalizing t before with
  | nil => exact h
  | cons action rest ih => exact ih (h.after action)

/-! ## Admissions -/

/-- What a request for a task comes to, on a table that is initialized with the segments
`boot` if with any, and on the heap `s`. -/
structure Admits (t : TaskTable) (boot : Option Segments) (s : Arena) (entry stackSize : Nat) :
    Prop where
  not_started : boot = none → (t.created s entry stackSize).1 = .error .notStarted
  no_slot : boot ≠ none → (∀ i, t.InUse i) → (t.created s entry stackSize).1 = .error .noSlot
  no_stack : boot ≠ none → (∃ i, ¬ t.InUse i) →
    ((t.created s entry stackSize).1 = .error .noStack ↔
      stackSize = 0 ∨ ∀ b ∈ s.freeBlocks, b.size < Partition.neededFor stackSize)
  unchanged : ∀ e, (t.created s entry stackSize).1 = .error e →
    (t.created s entry stackSize).2 = (t, s)
  admitted : ∀ segments, boot = some segments → (∃ i, ¬ t.InUse i) →
    stackSize ≠ 0 → (∃ b ∈ s.freeBlocks, Partition.neededFor stackSize ≤ b.size) →
      ∃ i base u r, t.created s entry stackSize = (.ok i, u, r) ∧
        s.allocate stackSize = some (base, r) ∧ t.Gains i segments entry ⟨base, stackSize⟩ u

theorem unchanged_of_error {e : CreationError}
    (h : (t.created s entry stackSize).1 = .error e) :
    (t.created s entry stackSize).2 = (t, s) := by
  unfold created at h ⊢
  split at h
  next => cases h
  next => rfl

theorem admits_of_blank (h : t.current = none) (s : Arena) (entry stackSize : Nat) :
    t.Admits none s entry stackSize := by
  refine ⟨fun _ => ?_, fun hboot => absurd rfl hboot, fun hboot => absurd rfl hboot,
    fun _ => unchanged_of_error, fun _ hboot => nomatch hboot⟩
  rw [created_of_current_eq_none h]

theorem admits_of_started (h : t.current ≠ none) (s : Arena) (entry stackSize : Nat) :
    t.Admits (some t.segments) s entry stackSize := by
  refine ⟨fun hboot => (nomatch hboot), ?_, ?_, fun _ => unchanged_of_error, ?_⟩
  · intro _ hfull
    rw [created_of_full h hfull]
  · intro _ hslot
    obtain ⟨i, hfirst⟩ := exists_firstUnused? hslot
    rw [← Arena.allocate_eq_none_iff]
    cases hallocate : s.allocate stackSize with
    | none => simp [created_of_no_stack h hfirst hallocate]
    | some result => simp [created_of_allocate h hfirst hallocate]
  · rintro _ ⟨rfl⟩ hslot hpos ⟨b, hb, hfits⟩
    obtain ⟨i, hfirst⟩ := exists_firstUnused? hslot
    have hsome : s.allocate stackSize ≠ none := by
      rw [Ne, Arena.allocate_eq_none_iff]
      rintro (hzero | hsmall)
      · exact hpos hzero
      · exact Nat.not_lt.mpr hfits (hsmall b hb)
    obtain ⟨⟨base, r⟩, hallocate⟩ := Option.ne_none_iff_exists'.mp hsome
    exact ⟨i, base, _, r, created_of_allocate h hfirst hallocate, hallocate,
      gains_of_firstUnused? hfirst entry _⟩

theorem Booted.admits {boot : Option Segments} (h : t.Booted boot) (s : Arena)
    (entry stackSize : Nat) : t.Admits boot s entry stackSize := by
  cases boot with
  | none => exact admits_of_blank h.current_eq s entry stackSize
  | some segments =>
      obtain ⟨rfl, c, hlifecycle⟩ := h
      exact admits_of_started (by simp [hlifecycle.current_eq]) s entry stackSize

/-- Whatever was done to a fresh table, and whatever the clients of the heap did between the
actions and before the request. -/
theorem run_admits (actions : List TableAction) (s : Arena) (entry stackSize : Nat) :
    (({} : TaskTable).run actions).Admits (bootSegments actions) s entry stackSize := by
  have hfresh : ({} : TaskTable).Booted none := blank_empty
  have hbooted : (({} : TaskTable).run actions).Booted (bootSegments actions) :=
    hfresh.run actions
  exact hbooted.admits s entry stackSize

-- The second initialization finds no memory for the idle task.
example : bootSegments [.init stackPool .initial 256, .init {} .initial 256] = none := by
  decide +kernel

end TaskTable

/-! ## Requests to the kernel -/

/-- The task table and the heap. -/
def Kernel.taskStore (k : Kernel) : TaskTable × Arena := (k.tasks, k.arena)

namespace KernelM

theorem discreet_taskStore : Discreet Kernel.taskStore :=
  ⟨fun _ _ => rfl, fun _ _ => rfl, fun _ _ _ => rfl⟩

theorem createInTable_eq_created (k : Kernel) (entry stackSize : Nat) :
    createInTable entry stackSize k =
      let (answer, tasks, arena) := k.tasks.created k.arena entry stackSize
      (answer, { k with tasks, arena }) := by
  unfold createInTable TaskTable.created
  rcases k.tasks.create k.arena entry stackSize with e | ⟨i, u, r⟩ <;> rfl

theorem returns_createInTable (k : Kernel) (entry stackSize : Nat) :
    Returns Kernel.taskStore (modifyGet (createInTable entry stackSize)) k
      (k.tasks.created k.arena entry stackSize).1
      (k.tasks.created k.arena entry stackSize).2 := by
  rw [Returns, modifyGet_apply, createInTable_eq_created]
  exact ⟨_, rfl, rfl⟩

/-- A task that is asked of the kernel is created in its table, or refused there. -/
theorem returns_newTask (k : Kernel) (entry stackSize : Nat) :
    Returns Kernel.taskStore (newTask entry stackSize) k
      (k.tasks.created k.arena entry stackSize).1
      (k.tasks.created k.arena entry stackSize).2 := by
  have hlocked : ((k.locked .tasks).locked .heap).taskStore = k.taskStore :=
    (discreet_taskStore.locked _ _).trans (discreet_taskStore.locked k _)
  obtain ⟨htasks, harena⟩ := Prod.mk.inj hlocked
  have hcreated := returns_createInTable ((k.locked .tasks).locked .heap) entry stackSize
  rw [htasks, harena] at hcreated
  refine Returns.bind (discreet_taskStore.returns_withLock
    (discreet_taskStore.returns_withLock hcreated)) fun k' hk' => ?_
  rw [← hk']
  split
  all_goals exact (discreet_taskStore.returns_logMessage _ _ _ k').bind_pure _

/-- A kernel answers every request for a task, as its table admits the task on its heap. -/
theorem newTask_admits {k : Kernel} {boot : Option Segments} (h : k.tasks.Booted boot)
    (entry stackSize : Nat) :
    k.tasks.Admits boot k.arena entry stackSize ∧
      Returns Kernel.taskStore (newTask entry stackSize) k
        (k.tasks.created k.arena entry stackSize).1
        (k.tasks.created k.arena entry stackSize).2 :=
  ⟨h.admits k.arena entry stackSize, returns_newTask k entry stackSize⟩

end KernelM

end Kernel16
