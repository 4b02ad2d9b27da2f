import Kernel16.Proofs.Task.Lifecycle

/-!
# Registers across switches

A history is a table together with what happened to its slots.  Looking back
through it, the last event that gave registers to a task is either the switch
that took the processor from it or its creation.  The image stored in the slot
is always the one found this way, so a task resumes where it left off, and a
slot that is filled again does not remember the task that had it before.
-/

namespace Kernel16

inductive TaskEvent where
  | created (i : TaskId) (image : Registers)
  /-- The task lost the processor. -/
  | left (i : TaskId) (saved : Registers)
  | reaped (i : TaskId)
  deriving DecidableEq, Repr

namespace TaskEvent

def task : TaskEvent → TaskId
  | created i _ | left i _ | reaped i => i

def imageFor (i : TaskId) : TaskEvent → Option Registers
  | created j image => if j = i then some image else none
  | left j saved => if j = i then some saved else none
  | reaped _ => none

theorem imageFor_of_ne {e : TaskEvent} {i : TaskId} (h : e.task ≠ i) : e.imageFor i = none := by
  cases e with
  | created j image => exact if_neg h
  | left j saved => exact if_neg h
  | reaped j => rfl

end TaskEvent

inductive TaskAction where
  | create (heap : Arena) (entry stackSize : Nat)
  /-- Passes the processor on and saves the registers of the task that loses it. -/
  | rotate (registers : Registers)
  | endCurrent
  | reap (heap : Arena)

/-- The events of an action, and the table after it. -/
def TaskTable.perform (t : TaskTable) : TaskAction → List TaskEvent × TaskTable
  | .create heap entry stackSize =>
      match t.create heap entry stackSize with
      | .error _ => ([], t)
      | .ok (i, u, _) => ([.created i (.ofNewTask entry (u.slot i).stack t.segments)], u)
  | .rotate registers =>
      match t.rotate with
      | none => ([], t)
      | some (p, u) => ([.left p.outgoing registers], p.save registers u)
  | .endCurrent =>
      match t.endCurrent with
      | none => ([], t)
      | some (_, u) => ([], u)
  | .reap heap =>
      let u := (t.reap heap).table
      let emptied := (List.finRange slotCount).filter fun i =>
        (t.slot i).state ≠ .unused ∧ (u.slot i).state = .unused
      (emptied.map .reaped, u)

structure TaskHistory where
  table : TaskTable
  /-- Latest event first. -/
  events : List TaskEvent

namespace TaskHistory

/-- A table that was just initialized.  The idle task is the first that was created. -/
def begun (t : TaskTable) (idle : TaskId) (entry : Nat) : TaskHistory where
  table := t
  events := [.created idle (.ofNewTask entry (t.slot idle).stack t.segments)]

def perform (h : TaskHistory) (action : TaskAction) : TaskHistory where
  table := (h.table.perform action).2
  events := (h.table.perform action).1 ++ h.events

def run (h : TaskHistory) (actions : List TaskAction) : TaskHistory :=
  actions.foldl perform h

/-- The registers that task `i` saved when it last lost the processor, or the
ones that it was created with. -/
def lastImage (h : TaskHistory) (i : TaskId) : Option Registers :=
  h.events.findSome? (·.imageFor i)

structure Recorded (h : TaskHistory) : Prop where
  lifecycle : ∃ c, h.table.Lifecycle c
  image_eq : ∀ i, h.table.InUse i → h.lastImage i = some (h.table.slot i).image

variable {h : TaskHistory} {i : TaskId}

theorem lastImage_perform_of_ne {action : TaskAction}
    (hother : ∀ e ∈ (h.table.perform action).1, e.task ≠ i) :
    (h.perform action).lastImage i = h.lastImage i := by
  have hnone : (h.table.perform action).1.findSome? (·.imageFor i) = none := by
    rw [List.findSome?_eq_none_iff]
    intro e he
    exact TaskEvent.imageFor_of_ne (hother e he)
  rw [lastImage, perform, List.findSome?_append, hnone, Option.none_or]
  rfl

end TaskHistory

/-! ## One action -/

namespace TaskTable

/-- What an action leaves in the slots: a slot in use kept its image or got it from
an event, and images change only where an event says so. -/
structure Explains (events : List TaskEvent) (t u : TaskTable) : Prop where
  kept_or_given : ∀ i, u.InUse i →
    (t.InUse i ∧ ∀ e ∈ events, e.task ≠ i) ∨
      events.findSome? (·.imageFor i) = some (u.slot i).image
  unchanged : ∀ i, (∀ e ∈ events, e.task ≠ i) → (u.slot i).image = (t.slot i).image

variable {t u : TaskTable} {c i : TaskId}

theorem explains_nil (hinUse : ∀ i, u.InUse i → t.InUse i)
    (himage : ∀ i, (u.slot i).image = (t.slot i).image) : Explains [] t u := by
  refine ⟨?_, fun i _ => himage i⟩
  intro i hi
  exact Or.inl ⟨hinUse i hi, by simp⟩

theorem explains_singleton {e : TaskEvent} (htask : e.task = i)
    (hgiven : e.imageFor i = some (u.slot i).image)
    (hinUse : ∀ j, i ≠ j → u.InUse j → t.InUse j)
    (himage : ∀ j, i ≠ j → (u.slot j).image = (t.slot j).image) : Explains [e] t u := by
  constructor
  · intro j hj
    by_cases hij : i = j
    · subst hij
      right
      rw [List.findSome?_singleton, hgiven]
    · exact Or.inl ⟨hinUse j hij hj, by simpa [htask] using hij⟩
  · intro j hj
    exact himage j (htask ▸ hj e List.mem_cons_self)

theorem explains_create {s r : Arena} {entry stackSize : Nat}
    (h : t.create s entry stackSize = .ok (i, u, r)) :
    Explains [.created i (.ofNewTask entry (u.slot i).stack t.segments)] t u := by
  obtain ⟨base, _, _, rfl⟩ := exists_of_create h
  have hgiven : ∀ image, (TaskEvent.created i image).imageFor i = some image :=
    fun _ => if_pos rfl
  refine explains_singleton (i := i) rfl ?_ ?_ ?_
  · rw [hgiven, slot_setSlot_self]
    rfl
  · intro j hj hinUse
    unfold InUse at hinUse
    rwa [slot_setSlot_of_ne _ _ hj] at hinUse
  · intro j hj
    rw [slot_setSlot_of_ne _ _ hj]

theorem explains_rotate {p : Switch} (h : t.rotate = some (p, u)) (registers : Registers) :
    Explains [.left p.outgoing registers] t (p.save registers u) := by
  obtain ⟨_, hne, hcanRun, rfl⟩ := exists_of_rotate h
  have hgiven : (TaskEvent.left p.outgoing registers).imageFor p.outgoing = some registers :=
    if_pos rfl
  refine explains_singleton (i := p.outgoing) rfl ?_ ?_ ?_
  · rw [hgiven, slot_save, if_pos rfl]
  · intro j _ hinUse
    unfold InUse at hinUse
    rw [state_save] at hinUse
    exact (inUse_handOver hne hcanRun).mp hinUse
  · intro j hj
    rw [slot_save, if_neg hj, image_handOver hne]

theorem explains_endCurrent (ht : t.Lifecycle c) (h : t.endCurrent = some (i, u)) :
    Explains [] t u := by
  have hi := (ht.endCurrent h).1
  obtain ⟨_, _, rfl⟩ := exists_of_endCurrent h
  refine explains_nil ?_ ?_
  · intro j hinUse
    unfold InUse at hinUse
    rw [slot_setState] at hinUse
    split at hinUse
    next hij => exact hij ▸ hi ▸ ht.inUse_current
    next => exact hinUse
  · intro j
    rw [slot_setState]
    split <;> rfl

theorem mem_events_reap {s : Arena} {e : TaskEvent} :
    e ∈ (t.perform (.reap s)).1 ↔ ∃ i, t.reapable i = true ∧ TaskEvent.reaped i = e := by
  simp only [perform, List.mem_map, List.mem_filter, List.mem_finRange, true_and,
    decide_eq_true_iff, emptied_iff_reapable]

theorem explains_reap (t : TaskTable) (s : Arena) :
    Explains (t.perform (.reap s)).1 t (t.reap s).table := by
  constructor
  · intro i hi
    obtain ⟨hinUse, hkept⟩ := inUse_reap.mp hi
    refine Or.inl ⟨hinUse, ?_⟩
    intro e he hei
    obtain ⟨j, hreapable, rfl⟩ := mem_events_reap.mp he
    exact hkept (hei ▸ hreapable)
  · intro i hi
    have hkept : ¬ t.reapable i = true := by
      intro hreapable
      exact hi (.reaped i) (mem_events_reap.mpr ⟨i, hreapable, rfl⟩) rfl
    rw [slot_reap, if_neg hkept]

theorem Lifecycle.perform (ht : t.Lifecycle c) (action : TaskAction) :
    (∃ d, (t.perform action).2.Lifecycle d) ∧
      Explains (t.perform action).1 t (t.perform action).2 := by
  have hidle : Explains [] t t := explains_nil (fun _ h => h) (fun _ => rfl)
  cases action with
  | create heap entry stackSize =>
      cases hresult : t.create heap entry stackSize with
      | error e =>
          simp only [TaskTable.perform, hresult]
          exact ⟨⟨c, ht⟩, hidle⟩
      | ok result =>
          simp only [TaskTable.perform, hresult]
          exact ⟨⟨c, ht.create hresult⟩, explains_create hresult⟩
  | rotate registers =>
      cases hresult : t.rotate with
      | none =>
          simp only [TaskTable.perform, hresult]
          exact ⟨⟨c, ht⟩, hidle⟩
      | some result =>
          simp only [TaskTable.perform, hresult]
          exact ⟨⟨_, (ht.rotate hresult).2.save _ _⟩, explains_rotate hresult registers⟩
  | endCurrent =>
      cases hresult : t.endCurrent with
      | none =>
          simp only [TaskTable.perform, hresult]
          exact ⟨⟨c, ht⟩, hidle⟩
      | some result =>
          simp only [TaskTable.perform, hresult]
          exact ⟨⟨c, (ht.endCurrent hresult).2⟩, explains_endCurrent ht hresult⟩
  | reap heap =>
      have htable : (t.perform (.reap heap)).2 = (t.reap heap).table := by
        simp only [TaskTable.perform]
      rw [htable]
      exact ⟨⟨c, ht.reap heap⟩, explains_reap t heap⟩

end TaskTable

/-! ## Runs -/

namespace TaskHistory

variable {h : TaskHistory} {i : TaskId}

theorem Recorded.perform (hh : h.Recorded) (action : TaskAction) : (h.perform action).Recorded := by
  obtain ⟨c, ht⟩ := hh.lifecycle
  obtain ⟨hlifecycle, hexplains⟩ := ht.perform action
  refine ⟨hlifecycle, ?_⟩
  intro i hi
  -- Events of this action stand in front of the earlier ones, which count only if it has none.
  rcases hexplains.kept_or_given i hi with ⟨hinUse, hother⟩ | hgiven
  · rw [lastImage_perform_of_ne hother, hh.image_eq i hinUse]
    exact congrArg some (hexplains.unchanged i hother).symm
  · rw [lastImage, TaskHistory.perform, List.findSome?_append, hgiven]
    rfl

theorem Recorded.run (hh : h.Recorded) (actions : List TaskAction) :
    (h.run actions).Recorded := by
  induction actions generalizing h with
  | nil => exact hh
  | cons action rest ih => exact ih (hh.perform action)

theorem recorded_begun {s r : Arena} {segments : Segments} {entry : Nat} {t : TaskTable}
    (hinit : TaskTable.init s segments entry = (.ok i, t, r)) : (begun t i entry).Recorded := by
  obtain ⟨rfl, hlifecycle⟩ := TaskTable.lifecycle_of_init hinit
  obtain ⟨base, _, _, rfl⟩ := TaskTable.exists_of_init hinit
  refine ⟨⟨0, hlifecycle⟩, ?_⟩
  intro j hj
  simp only [begun, lastImage, TaskTable.InUse, TaskTable.slot_start_cleared] at hj ⊢
  by_cases hzero : j = 0
  · subst hzero
    rfl
  · simp [hzero] at hj

/-! ## What a task resumes with -/

/-- Whatever happens to an initialized table, a switch loads what the task saved
when it last lost the processor, or what it was created with, and saves elsewhere.
Every stored image outlives the actions that have no event for its slot. -/
theorem run_resumes {s r : Arena} {segments : Segments} {entry : Nat} {idle : TaskId}
    {t : TaskTable} (hinit : TaskTable.init s segments entry = (.ok idle, t, r))
    (actions : List TaskAction) :
    let h := (begun t idle entry).run actions
    (∀ p u, h.table.rotate = some (p, u) →
      p.outgoing ≠ p.incoming ∧
        ∀ registers, p.load (p.save registers u) = p.load u ∧
          h.lastImage p.incoming = some (p.load (p.save registers u))) ∧
      ∀ action i, (∀ e ∈ (h.table.perform action).1, e.task ≠ i) →
        ((h.table.perform action).2.slot i).image = (h.table.slot i).image := by
  intro h
  have hrecorded : h.Recorded := (recorded_begun hinit).run actions
  obtain ⟨c, hlifecycle⟩ := hrecorded.lifecycle
  constructor
  · intro p u hrotate
    obtain ⟨_, hne, hcanRun, hu⟩ := TaskTable.exists_of_rotate hrotate
    refine ⟨hne.symm, ?_⟩
    intro registers
    have hkept : p.load (p.save registers u) = p.load u := by
      rw [Switch.load, TaskTable.slot_save, if_neg hne.symm]
      rfl
    have hstored : p.load u = (h.table.slot p.incoming).image := by
      rw [Switch.load, hu, TaskTable.image_handOver hne]
    refine ⟨hkept, ?_⟩
    rw [hkept, hstored]
    exact hrecorded.image_eq _ (TaskTable.state_ne_unused_of_canRun hcanRun)
  · intro action i hother
    exact (hlifecycle.perform action).2.unchanged i hother

/-- The first task after the idle task runs and ends. -/
def oneTask : TaskHistory :=
  (begun TaskTable.booted.2.1 0 256).run
    [.create TaskTable.booted.2.2 512 64, .rotate { ax := 7, ip := 300 }, .endCurrent]

theorem run_resumes_oneTask :
    TaskTable.init TaskTable.stackPool .initial 256 =
        (.ok 0, TaskTable.booted.2.1, TaskTable.booted.2.2) ∧
      ∃ u, oneTask.table.rotate = some (⟨1, 0⟩, u) ∧
        (⟨1, 0⟩ : Switch).load u = { ax := 7, ip := 300 } := by
  have hswitch : oneTask.table.rotate.map Prod.fst = some ⟨1, 0⟩ := by decide +kernel
  have himage : oneTask.lastImage 0 = some { ax := 7, ip := 300 } := by decide +kernel
  obtain ⟨⟨p, u⟩, hrotate, hp⟩ := Option.map_eq_some_iff.mp hswitch
  subst hp
  obtain ⟨_, hload⟩ := (run_resumes TaskTable.init_stackPool _).1 _ _ hrotate
  refine ⟨TaskTable.init_stackPool, u, hrotate, ?_⟩
  rw [← (hload {}).1]
  exact Option.some.inj ((hload {}).2.symm.trans himage)

end TaskHistory

end Kernel16
