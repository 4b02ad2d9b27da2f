import Kernel16.Task.Creation
import Kernel16.Task.Ending
import Kernel16.Task.Rotation

/-!
# The lifecycle of tasks

What each operation does to the slots of the table, one lemma for every
operation.  From these follows the shape of a table that was initialized: slot
zero holds the idle task, which can always run, the task on the processor runs
or has ended, no other task runs, and the next search starts behind it.
-/

namespace Kernel16

namespace TaskTable

variable {t u : TaskTable} {s r : Arena} {i j c : TaskId} {entry stackSize : Nat}

def InUse (t : TaskTable) (i : TaskId) : Prop := (t.slot i).state ≠ .unused

theorem used?_eq_some_iff {x : Slot} : t.used? i = some x ↔ t.InUse i ∧ t.slot i = x := by
  have hslot : t.slot? i = some (t.slot i) := by
    simp [slot?, TaskTable.slot]
  rw [used?, hslot, Option.filter_eq_some_iff, Option.some.injEq, decide_eq_true_iff]
  constructor
  · intro h
    obtain ⟨rfl, hstate⟩ := h
    exact ⟨hstate, rfl⟩
  · intro h
    obtain ⟨hstate, rfl⟩ := h
    exact ⟨rfl, hstate⟩

theorem stack?_eq_some_iff {x : Stack} :
    t.stack? i = some x ↔ t.InUse i ∧ (t.slot i).stack = x := by
  rw [stack?, Option.map_eq_some_iff]
  constructor
  · intro h
    obtain ⟨slot, hused, hx⟩ := h
    obtain ⟨hstate, rfl⟩ := used?_eq_some_iff.mp hused
    exact ⟨hstate, hx⟩
  · intro h
    exact ⟨t.slot i, used?_eq_some_iff.mpr ⟨h.1, rfl⟩, h.2⟩

theorem stack?_congr (hinUse : u.InUse i ↔ t.InUse i)
    (hstack : (u.slot i).stack = (t.slot i).stack) : u.stack? i = t.stack? i := by
  apply Option.ext
  intro stack
  rw [stack?_eq_some_iff, stack?_eq_some_iff, hinUse, hstack]

theorem slot_setState (t : TaskTable) (i j : TaskId) (state : TaskState) :
    (t.setState i state).slot j = if i = j then { t.slot j with state } else t.slot j := by
  rw [setState, slot_setSlot]
  split
  next h => rw [h]
  next => rfl

theorem state_ne_unused_of_canRun {state : TaskState} (h : state.canRun = true) :
    state ≠ .unused := by
  intro hunused
  rw [hunused] at h
  cases h

/-! ## Creation -/

theorem firstUnused?_eq_some (h : t.firstUnused? = some i) : (t.slot i).state = .unused := by
  unfold firstUnused? at h
  simpa using List.find?_some h

theorem exists_of_occupy (h : t.occupy s entry stackSize = .ok (i, u, r)) :
    ∃ base, t.firstUnused? = some i ∧ s.allocate stackSize = some (base, r) ∧
      u = t.setSlot i (t.newSlot entry ⟨base, stackSize⟩) := by
  unfold occupy at h
  split at h
  next => cases h
  next k hfirst =>
    split at h
    next => cases h
    next base s' hallocate =>
      cases h
      exact ⟨base, hfirst, hallocate, rfl⟩

theorem exists_of_create (h : t.create s entry stackSize = .ok (i, u, r)) :
    ∃ base, (t.slot i).state = .unused ∧ s.allocate stackSize = some (base, r) ∧
      u = t.setSlot i (t.newSlot entry ⟨base, stackSize⟩) := by
  unfold create at h
  split at h
  next =>
    obtain ⟨base, hfirst, hallocate, hu⟩ := exists_of_occupy h
    exact ⟨base, firstUnused?_eq_some hfirst, hallocate, hu⟩
  next => cases h

/-! ## Rotation -/

theorem exists_of_rotate {p : Switch} (h : t.rotate = some (p, u)) :
    t.current = some p.outgoing ∧ p.incoming ≠ p.outgoing ∧
      (t.slot p.incoming).state.canRun = true ∧ u = t.handOver p.outgoing p.incoming := by
  simp only [rotate, Option.bind_eq_bind, Option.bind_eq_some_iff] at h
  obtain ⟨old, hcurrent, new, hsearch, hresult⟩ := h
  cases hresult
  have heligible := search_eligible hsearch
  rw [eligible, Bool.and_eq_true, decide_eq_true_iff] at heligible
  exact ⟨hcurrent, heligible.1, heligible.2, rfl⟩

theorem slot_handOver (t : TaskTable) {old new : TaskId} (hne : new ≠ old) (j : TaskId) :
    (t.handOver old new).slot j =
      if j = new then { t.slot j with state := .running }
      else if j = old ∧ (t.slot j).state = .running then { t.slot j with state := .ready }
      else t.slot j := by
  have hmarked : ∀ t' : TaskTable,
      ({ t'.setState new .running with current := some new, cursor := new + 1 } :
        TaskTable).slot j = (t'.setState new .running).slot j := fun _ => rfl
  rw [handOver, hmarked, slot_setState]
  by_cases hnew : new = j
  · rw [if_pos hnew, if_pos hnew.symm]
    split
    next => rw [slot_setState, if_neg (hnew ▸ hne.symm)]
    next => rfl
  · rw [if_neg hnew, if_neg (Ne.symm hnew)]
    split
    next hrunning =>
      rw [slot_setState]
      by_cases hold : old = j
      · rw [if_pos hold, if_pos ⟨hold.symm, hold ▸ hrunning⟩]
      · rw [if_neg hold, if_neg (fun h => hold h.1.symm)]
    next hrunning =>
      rw [if_neg]
      intro h
      exact hrunning (h.1 ▸ h.2)

theorem inUse_handOver {old new : TaskId} (hne : new ≠ old)
    (hnew : (t.slot new).state.canRun = true) : (t.handOver old new).InUse j ↔ t.InUse j := by
  unfold InUse
  rw [slot_handOver t hne]
  split
  next h => simp [h, state_ne_unused_of_canRun hnew]
  next =>
    split
    next h => simp [h.2]
    next => rfl

theorem stack_handOver {old new : TaskId} (hne : new ≠ old) :
    ((t.handOver old new).slot j).stack = (t.slot j).stack := by
  rw [slot_handOver t hne]
  repeat' split
  all_goals rfl

theorem image_handOver {old new : TaskId} (hne : new ≠ old) :
    ((t.handOver old new).slot j).image = (t.slot j).image := by
  rw [slot_handOver t hne]
  repeat' split
  all_goals rfl

theorem slot_save (p : Switch) (image : Registers) (t : TaskTable) (j : TaskId) :
    (p.save image t).slot j = if p.outgoing = j then { t.slot j with image } else t.slot j := by
  rw [Switch.save, slot_setSlot]
  split
  next h => rw [h]
  next => rfl

theorem state_save (p : Switch) (image : Registers) (t : TaskTable) (j : TaskId) :
    ((p.save image t).slot j).state = (t.slot j).state := by
  rw [slot_save]
  split <;> rfl

theorem stack_save (p : Switch) (image : Registers) (t : TaskTable) (j : TaskId) :
    ((p.save image t).slot j).stack = (t.slot j).stack := by
  rw [slot_save]
  split <;> rfl

/-! ## Ending -/

theorem exists_of_endCurrent (h : t.endCurrent = some (i, u)) :
    t.current = some i ∧ t.idle ≠ some i ∧ u = t.setState i .ended := by
  simp only [endCurrent, Option.bind_eq_bind, Option.bind_eq_some_iff] at h
  obtain ⟨k, hcurrent, hresult⟩ := h
  split at hresult
  next => cases hresult
  next hidle =>
    cases hresult
    exact ⟨hcurrent, hidle, rfl⟩

end TaskTable

namespace Reaping

variable {i j : TaskId}

theorem table_step (r : Reaping) (i : TaskId) :
    (r.step i).table = if r.table.reapable i then r.table.setSlot i {} else r.table := by
  unfold step
  split
  next =>
    dsimp only
    split <;> rfl
  next => rfl

theorem count_step (r : Reaping) (i : TaskId) :
    (r.step i).count = if r.table.reapable i then r.count + 1 else r.count := by
  unfold step
  split
  next =>
    dsimp only
    split <;> rfl
  next => rfl

theorem reapable_step_of_ne (r : Reaping) (hne : i ≠ j) :
    (r.step i).table.reapable j = r.table.reapable j := by
  rw [table_step]
  split
  next => rw [TaskTable.reapable, TaskTable.slot_setSlot_of_ne _ _ hne]; rfl
  next => rfl

theorem slot_step_of_ne (r : Reaping) (hne : i ≠ j) :
    (r.step i).table.slot j = r.table.slot j := by
  rw [table_step]
  split
  next => exact TaskTable.slot_setSlot_of_ne _ _ hne
  next => rfl

theorem slot_foldl_of_not_mem (r : Reaping) {slots : List TaskId} (hj : j ∉ slots) :
    (slots.foldl step r).table.slot j = r.table.slot j := by
  induction slots generalizing r with
  | nil => rfl
  | cons i rest ih =>
      obtain ⟨hne, hrest⟩ := List.ne_and_not_mem_of_not_mem_cons hj
      rw [List.foldl_cons, ih _ hrest, slot_step_of_ne r (Ne.symm hne)]

theorem slot_foldl_of_mem (r : Reaping) {slots : List TaskId} (hnodup : slots.Nodup)
    (hj : j ∈ slots) :
    (slots.foldl step r).table.slot j =
      if r.table.reapable j then {} else r.table.slot j := by
  induction slots generalizing r with
  | nil => exact nomatch hj
  | cons i rest ih =>
      obtain ⟨hi, hrest⟩ := List.nodup_cons.mp hnodup
      rw [List.foldl_cons]
      by_cases hij : i = j
      · subst hij
        rw [slot_foldl_of_not_mem _ hi, table_step]
        split
        next => exact TaskTable.slot_setSlot_self _ _ _
        next => rfl
      · rw [ih _ hrest (List.mem_of_ne_of_mem (Ne.symm hij) hj), reapable_step_of_ne r hij,
          slot_step_of_ne r hij]

theorem count_foldl (r : Reaping) {slots : List TaskId} (hnodup : slots.Nodup) :
    (slots.foldl step r).count = r.count + slots.countP r.table.reapable := by
  induction slots generalizing r with
  | nil => rfl
  | cons i rest ih =>
      obtain ⟨hi, hrest⟩ := List.nodup_cons.mp hnodup
      -- No slot comes twice, so emptying `i` does not change what is counted later.
      have hsame : rest.countP (r.step i).table.reapable = rest.countP r.table.reapable := by
        refine List.countP_congr ?_
        intro j hj
        have hij : i ≠ j := by
          intro h
          rw [h] at hi
          exact hi hj
        rw [reapable_step_of_ne r hij]
      rw [List.foldl_cons, ih _ hrest, hsame, count_step, List.countP_cons]
      split <;> omega

end Reaping

namespace TaskTable

variable {t u : TaskTable} {s r : Arena} {i j c : TaskId} {entry stackSize : Nat}

theorem slot_reap (t : TaskTable) (s : Arena) (j : TaskId) :
    (t.reap s).table.slot j = if t.reapable j then {} else t.slot j := by
  exact Reaping.slot_foldl_of_mem _ (List.nodup_finRange _) (List.mem_finRange j)

theorem count_reap (t : TaskTable) (s : Arena) :
    (t.reap s).count = (List.finRange slotCount).countP t.reapable := by
  rw [reap, Reaping.count_foldl _ (List.nodup_finRange _), Nat.zero_add]

theorem inUse_reap : (t.reap s).table.InUse j ↔ t.InUse j ∧ ¬ t.reapable j = true := by
  unfold InUse
  rw [slot_reap]
  split
  next h => simp [h]
  next h => simp [h]

theorem reapable_iff :
    t.reapable i = true ↔ (t.slot i).state = .ended ∧ t.current ≠ some i := by
  simp [reapable]

theorem emptied_iff_reapable :
    (t.slot i).state ≠ .unused ∧ ((t.reap s).table.slot i).state = .unused ↔
      t.reapable i = true := by
  rw [slot_reap]
  split
  next h => simp [h, (reapable_iff.mp h).1]
  next h => simp [h]

theorem reap_induction {motive : TaskTable → Prop} (t : TaskTable) (s : Arena)
    (hstart : motive t) (hstep : ∀ u i, motive u → u.reapable i = true → motive (u.setSlot i {})) :
    motive (t.reap s).table := by
  have hfold : ∀ (slots : List TaskId) (r : Reaping), motive r.table →
      motive (slots.foldl Reaping.step r).table := by
    intro slots
    induction slots with
    | nil => exact fun _ h => h
    | cons i rest ih =>
        intro r h
        refine ih _ ?_
        rw [Reaping.table_step]
        split
        next hreapable => exact hstep _ i h hreapable
        next => exact h
  exact hfold _ _ hstart

/-! ## The shape of an initialized table -/

/-- Task `c` is on the processor. -/
structure Lifecycle (t : TaskTable) (c : TaskId) : Prop where
  current_eq : t.current = some c
  idle_eq : t.idle = some 0
  cursor_eq : t.cursor = c + 1
  current_state : (t.slot c).state = .running ∨ (t.slot c).state = .ended
  idle_state : (t.slot 0).state = .ready ∨ (t.slot 0).state = .running
  running_eq : ∀ i, (t.slot i).state = .running → i = c
  not_blocked : ∀ i, (t.slot i).state ≠ .blocked

theorem Lifecycle.inUse_current (h : t.Lifecycle c) : t.InUse c := by
  intro hunused
  have hstate := h.current_state
  simp [hunused] at hstate

/-- Filling a slot that is not in use, or emptying one whose task has ended. -/
theorem Lifecycle.setSlot (h : t.Lifecycle c) {x : Slot} (hi : i ≠ c)
    (hidle : (t.slot i).state ≠ .ready ∧ (t.slot i).state ≠ .running)
    (hx : x.state = .unused ∨ x.state = .ready) : (t.setSlot i x).Lifecycle c := by
  have hzero : i ≠ 0 := by
    intro hzero
    rw [hzero] at hidle
    exact h.idle_state.elim hidle.1 hidle.2
  have hnotRunning : x.state ≠ .running ∧ x.state ≠ .blocked := by
    rcases hx with hx | hx <;> simp [hx]
  refine ⟨h.current_eq, h.idle_eq, h.cursor_eq, ?_, ?_, ?_, ?_⟩
  · rw [slot_setSlot_of_ne _ _ hi]
    exact h.current_state
  · rw [slot_setSlot_of_ne _ _ hzero]
    exact h.idle_state
  · intro j hj
    rw [slot_setSlot] at hj
    split at hj
    next => exact absurd hj hnotRunning.1
    next => exact h.running_eq j hj
  · intro j
    rw [slot_setSlot]
    split
    next => exact hnotRunning.2
    next => exact h.not_blocked j

theorem Lifecycle.create (h : t.Lifecycle c)
    (hcreate : t.create s entry stackSize = .ok (i, u, r)) : u.Lifecycle c := by
  obtain ⟨base, hunused, _, rfl⟩ := exists_of_create hcreate
  have hi : i ≠ c := by
    intro hi
    exact h.inUse_current (hi ▸ hunused)
  exact h.setSlot hi (by simp [hunused]) (Or.inr rfl)

theorem Lifecycle.reap (h : t.Lifecycle c) (s : Arena) : (t.reap s).table.Lifecycle c := by
  refine reap_induction (motive := fun u => u.Lifecycle c) t s h ?_
  intro u i hu hreapable
  obtain ⟨hended, hnotCurrent⟩ := reapable_iff.mp hreapable
  have hi : i ≠ c := by
    intro hi
    exact hnotCurrent (hi ▸ hu.current_eq)
  exact hu.setSlot hi (by simp [hended]) (Or.inl rfl)

theorem Lifecycle.endCurrent (h : t.Lifecycle c) (hend : t.endCurrent = some (i, u)) :
    i = c ∧ u.Lifecycle c := by
  obtain ⟨hcurrent, hidle, rfl⟩ := exists_of_endCurrent hend
  have hi : i = c := Option.some.inj (hcurrent.symm.trans h.current_eq)
  subst hi
  have hzero : i ≠ 0 := by
    intro hzero
    rw [hzero] at hidle
    exact hidle h.idle_eq
  refine ⟨rfl, hcurrent, h.idle_eq, h.cursor_eq, ?_, ?_, ?_, ?_⟩
  · rw [slot_setState, if_pos rfl]
    exact Or.inr rfl
  · rw [slot_setState, if_neg hzero]
    exact h.idle_state
  · intro j hj
    rw [slot_setState] at hj
    split at hj
    next hij => exact hij.symm
    next => exact h.running_eq j hj
  · intro j
    rw [slot_setState]
    split
    next => exact TaskState.noConfusion
    next => exact h.not_blocked j

theorem Lifecycle.rotate (h : t.Lifecycle c) {p : Switch} (hrotate : t.rotate = some (p, u)) :
    p.outgoing = c ∧ u.Lifecycle p.incoming := by
  obtain ⟨hcurrent, hne, hcanRun, rfl⟩ := exists_of_rotate hrotate
  have hc : p.outgoing = c := Option.some.inj (hcurrent.symm.trans h.current_eq)
  have hidle : (t.handOver p.outgoing p.incoming).idle = t.idle := by
    unfold handOver
    split <;> rfl
  refine ⟨hc, rfl, hidle.trans h.idle_eq, rfl, ?_, ?_, ?_, ?_⟩
  · rw [slot_handOver t hne, if_pos rfl]
    exact Or.inl rfl
  · rw [slot_handOver t hne]
    split
    next => exact Or.inr rfl
    next =>
      split
      next => exact Or.inl rfl
      next => exact h.idle_state
  · intro j hj
    rw [slot_handOver t hne] at hj
    split at hj
    next hnew => exact hnew
    next =>
      split at hj
      next => cases hj
      next hnot => exact absurd ⟨(h.running_eq j hj).trans hc.symm, hj⟩ hnot
  · intro j
    rw [slot_handOver t hne]
    split
    next => exact TaskState.noConfusion
    next =>
      split
      next => exact TaskState.noConfusion
      next => exact h.not_blocked j

theorem Lifecycle.save (h : t.Lifecycle c) (p : Switch) (image : Registers) :
    (p.save image t).Lifecycle c := by
  refine ⟨h.current_eq, h.idle_eq, h.cursor_eq, ?_, ?_, ?_, ?_⟩
  · rw [state_save]
    exact h.current_state
  · rw [state_save]
    exact h.idle_state
  · intro i hi
    rw [state_save] at hi
    exact h.running_eq i hi
  · intro i
    rw [state_save]
    exact h.not_blocked i

theorem slot_cleared (segments : Segments) (i : TaskId) : (cleared segments).slot i = {} := by
  simp [cleared, TaskTable.slot]

theorem firstUnused?_cleared (segments : Segments) : (cleared segments).firstUnused? = some 0 := by
  unfold firstUnused?
  simp only [slot_cleared]
  rfl

theorem slot_start_cleared (segments : Segments) (x : Slot) (j : TaskId) :
    (((cleared segments).setSlot 0 x).start 0).slot j =
      if j = 0 then { x with state := .running } else {} := by
  have hstart : (((cleared segments).setSlot 0 x).start 0).slot j =
      (((cleared segments).setSlot 0 x).setState 0 .running).slot j := rfl
  rw [hstart, slot_setState]
  by_cases hj : j = 0
  · rw [hj, if_pos rfl, if_pos rfl, slot_setSlot_self]
  · rw [if_neg hj, if_neg (Ne.symm hj), slot_setSlot_of_ne _ _ (Ne.symm hj), slot_cleared]

theorem exists_of_init {segments : Segments} (h : init s segments entry = (.ok i, u, r)) :
    ∃ base, i = 0 ∧ s.allocate idleStackSize = some (base, r) ∧
      u = ((cleared segments).setSlot 0
        ((cleared segments).newSlot entry ⟨base, idleStackSize⟩)).start 0 := by
  unfold init at h
  split at h
  next => cases h
  next k t' s' hoccupy =>
    cases h
    obtain ⟨base, hfirst, hallocate, rfl⟩ := exists_of_occupy hoccupy
    rw [firstUnused?_cleared] at hfirst
    have hzero : i = 0 := (Option.some.inj hfirst).symm
    subst hzero
    exact ⟨base, rfl, hallocate, rfl⟩

theorem init_eq_ok {segments : Segments} (h : (init s segments entry).1.toOption = some i) :
    init s segments entry =
      (.ok i, (init s segments entry).2.1, (init s segments entry).2.2) := by
  cases hresult : init s segments entry with
  | mk answer rest =>
      rw [hresult] at h
      cases answer with
      | error e => cases h
      | ok k =>
          cases h
          rfl

theorem lifecycle_of_init {segments : Segments} (h : init s segments entry = (.ok i, u, r)) :
    i = 0 ∧ u.Lifecycle 0 := by
  obtain ⟨base, hi, _, rfl⟩ := exists_of_init h
  have hslot : ∀ j, ((((cleared segments).setSlot 0
      ((cleared segments).newSlot entry ⟨base, idleStackSize⟩)).start 0).slot j).state =
        if j = 0 then .running else .unused := by
    intro j
    rw [slot_start_cleared]
    split <;> rfl
  refine ⟨hi, rfl, rfl, rfl, ?_, ?_, ?_, ?_⟩
  · rw [hslot, if_pos rfl]
    exact Or.inl rfl
  · rw [hslot, if_pos rfl]
    exact Or.inr rfl
  · intro j hj
    rw [hslot] at hj
    split at hj
    next h => exact h
    next => cases hj
  · intro j
    rw [hslot]
    split <;> exact TaskState.noConfusion

/-- The pool of the closed instances about tasks, with room for a few stacks. -/
def stackPool : Arena := ⟨({} : Memory).setHeader 4096 ⟨2048, 0⟩, ⟨4096, 6144, 4096⟩⟩

def booted : Except CreationError TaskId × TaskTable × Arena := init stackPool .initial 256

theorem init_stackPool : init stackPool .initial 256 = (.ok 0, booted.2.1, booted.2.2) :=
  init_eq_ok (by decide +kernel)

end TaskTable

end Kernel16
