import Kernel16.Proofs.Task.Lifecycle
import Mathlib.Data.List.Basic

/-!
# Runs of the task table

A table is initialized, perhaps more than once and perhaps without memory for
the idle task, and tasks are created, run, end and are reaped in any order.  It
is then either blank or has the shape of an initialized table, and the state of
a slot moves only along the edges of the lifecycle.  In particular a task that
ended is never found by the search again: its slot has to be emptied and filled
first.
-/

namespace Kernel16

/-- The operations on a table.  Each one that needs the heap comes with a heap of its
own, which may grant or refuse a stack. -/
inductive TableAction where
  | init (heap : Arena) (segments : Segments) (entry : Nat)
  | create (heap : Arena) (entry stackSize : Nat)
  /-- The switch may save registers into the slot that gives up the processor. -/
  | rotate (saved : Option Registers)
  | endCurrent
  | reap (heap : Arena)

def TableAction.isInit : TableAction → Bool
  | .init _ _ _ => true
  | _ => false

def TableAction.isRotate : TableAction → Bool
  | .rotate _ => true
  | _ => false

namespace TaskTable

def after (t : TaskTable) : TableAction → TaskTable
  | .init heap segments entry => (init heap segments entry).2.1
  | .create heap entry stackSize =>
      match t.create heap entry stackSize with
      | .error _ => t
      | .ok (_, u, _) => u
  | .rotate saved =>
      match t.rotate with
      | none => t
      | some (p, u) => saved.elim u fun registers => p.save registers u
  | .endCurrent =>
      match t.endCurrent with
      | none => t
      | some (_, u) => u
  | .reap heap => (t.reap heap).table

def run (t : TaskTable) (actions : List TableAction) : TaskTable :=
  actions.foldl after t

variable {t u : TaskTable} {c i j old start : TaskId} {action : TableAction}

/-! ## The search goes around the table once -/

/-- A search that is not back at its start has more slots to look at. -/
theorem around_of_next_ne {bound : Nat} (haround : start.val = (i.val + (bound + 1)) % slotCount)
    (hne : i + 1 ≠ start) : 0 < bound ∧ start.val = ((i + 1).val + bound) % slotCount := by
  have hnext : (i + 1).val = (i.val + 1) % slotCount := Fin.val_add i 1
  constructor
  · refine Nat.pos_of_ne_zero fun hzero => ?_
    rw [hzero] at haround
    exact hne (Fin.ext (hnext.trans haround.symm))
  · rw [haround, hnext, Nat.mod_add_mod, Nat.add_assoc, Nat.add_comm 1]

theorem search_eq_find? (t : TaskTable) (old start : TaskId) {bound : Nat} (hpos : 0 < bound)
    (hbound : bound ≤ slotCount) {i : TaskId} (hstart : start.val = (i.val + bound) % slotCount) :
    t.search old start bound i =
      (List.iterate (· + 1) i bound).find? (t.eligible old) := by
  induction bound generalizing i with
  | zero => exact absurd hpos (Nat.lt_irrefl 0)
  | succ bound ih =>
      rw [search, List.iterate, List.find?_cons]
      split
      next h => simp [h]
      next h =>
        simp only [h]
        split
        next hwrap =>
          -- Only a search of one slot is back at its start after one step.
          have hzero : bound = 0 := by
            have hnext : (i + 1).val = (i.val + 1) % slotCount := Fin.val_add i 1
            rw [← hwrap, hnext] at hstart
            unfold slotCount at hstart hbound
            omega
          simp [hzero]
        next hwrap =>
          obtain ⟨hmore, hrest⟩ := around_of_next_ne hstart hwrap
          exact ih hmore (Nat.le_of_succ_le hbound) hrest

/-- All slots, in the order in which a search from slot `i` looks at them. -/
def circle (i : TaskId) : List TaskId := List.iterate (· + 1) i slotCount

theorem mem_circle (i j : TaskId) : j ∈ circle i := by
  revert i j
  decide

theorem rotate_eq (hcurrent : t.current = some old) :
    t.rotate = ((circle t.cursor).find? (t.eligible old)).map
      fun new => (⟨old, new⟩, t.handOver old new) := by
  have haround : t.cursor.val = (t.cursor.val + slotCount) % slotCount := by
    rw [Nat.add_mod_right, Nat.mod_eq_of_lt t.cursor.isLt]
  have hsearch := t.search_eq_find? old t.cursor (by decide) (Nat.le_refl slotCount) haround
  simp only [rotate, hcurrent, hsearch, circle, Option.bind_eq_bind, Option.bind_some,
    Option.pure_def, Option.map_eq_bind, Function.comp_def]

theorem exists_rotate (hcurrent : t.current = some old) (hi : t.eligible old i = true) :
    ∃ p u, t.rotate = some (p, u) := by
  have hfound : ((circle t.cursor).find? (t.eligible old)).isSome := by
    rw [List.find?_isSome]
    exact ⟨i, mem_circle t.cursor i, hi⟩
  obtain ⟨new, hnew⟩ := Option.isSome_iff_exists.mp hfound
  exact ⟨⟨old, new⟩, t.handOver old new, by rw [rotate_eq hcurrent, hnew, Option.map_some]⟩

/-- The idle task can always take the processor from one that has ended. -/
theorem Lifecycle.exists_rotate (h : t.Lifecycle c) (hended : (t.slot c).state = .ended) :
    ∃ p u, t.rotate = some (p, u) := by
  have hidle : (t.slot 0).state = .ready := by
    rcases h.idle_state with hready | hrunning
    · exact hready
    · rw [h.running_eq 0 hrunning, hended] at hrunning
      cases hrunning
  have hne : 0 ≠ c := by
    intro hzero
    rw [hzero, hended] at hidle
    cases hidle
  refine TaskTable.exists_rotate h.current_eq (i := 0) ?_
  simp [eligible, hne, hidle, TaskState.canRun]

/-! ## Blank tables -/

structure Blank (t : TaskTable) : Prop where
  current_eq : t.current = none
  idle_eq : t.idle = none
  unused : ∀ i, (t.slot i).state = .unused

theorem blank_cleared (segments : Segments) : (cleared segments).Blank :=
  ⟨rfl, rfl, fun i => by rw [slot_cleared]⟩

theorem blank_empty : ({} : TaskTable).Blank :=
  blank_cleared .initial

theorem Blank.reap_eq (h : t.Blank) (s : Arena) : t.reap s = { table := t, arena := s } := by
  refine List.foldl_fixed' ?_ _
  exact fun i => if_neg (by simp [reapable, h.unused i])

theorem Blank.after_eq (h : t.Blank) (haction : action.isInit = false) :
    t.after action = t := by
  cases action with
  | init heap segments entry => cases haction
  | create heap entry stackSize =>
      simp only [after, create_of_not_started t heap entry stackSize h.current_eq]
  | rotate saved => simp only [after, rotate_of_no_current t h.current_eq]
  | endCurrent => simp [after, endCurrent, h.current_eq]
  | reap heap => rw [after, h.reap_eq heap]

/-! ## One operation -/

theorem table_of_init_error {s r : Arena} {segments : Segments} {entry : Nat} {e : CreationError}
    (h : init s segments entry = (.error e, u, r)) : u = cleared segments := by
  unfold init at h
  split at h
  next =>
    cases h
    rfl
  next => cases h

theorem shape_init (heap : Arena) (segments : Segments) (entry : Nat) :
    (t.after (.init heap segments entry)).Blank ∨
      (t.after (.init heap segments entry)).Lifecycle 0 := by
  cases hresult : init heap segments entry with
  | mk answer rest =>
      obtain ⟨u, r⟩ := rest
      simp only [after, hresult]
      cases answer with
      | error e => exact Or.inl (table_of_init_error hresult ▸ blank_cleared segments)
      | ok i => exact Or.inr (lifecycle_of_init hresult).2

theorem Lifecycle.after_of_not_rotate (h : t.Lifecycle c) (hinit : action.isInit = false)
    (hrotate : action.isRotate = false) : (t.after action).Lifecycle c := by
  cases action with
  | init heap segments entry => cases hinit
  | create heap entry stackSize =>
      cases hresult : t.create heap entry stackSize with
      | error e => simpa only [TaskTable.after, hresult] using h
      | ok result => simpa only [TaskTable.after, hresult] using h.create hresult
  | rotate saved => cases hrotate
  | endCurrent =>
      cases hresult : t.endCurrent with
      | none => simpa only [TaskTable.after, hresult] using h
      | some result => simpa only [TaskTable.after, hresult] using (h.endCurrent hresult).2
  | reap heap => exact h.reap heap

theorem Lifecycle.after_rotate (h : t.Lifecycle c) {p : Switch} (hrotate : t.rotate = some (p, u))
    (saved : Option Registers) : (t.after (.rotate saved)).Lifecycle p.incoming := by
  have hrotated := (h.rotate hrotate).2
  simp only [TaskTable.after, hrotate]
  cases saved with
  | none => exact hrotated
  | some registers => exact hrotated.save p registers

theorem Lifecycle.after (h : t.Lifecycle c) (hinit : action.isInit = false) :
    ∃ d, (t.after action).Lifecycle d := by
  cases haction : action.isRotate with
  | false => exact ⟨c, h.after_of_not_rotate hinit haction⟩
  | true =>
      cases action with
      | rotate saved =>
          cases hresult : t.rotate with
          | none => exact ⟨c, by simpa only [TaskTable.after, hresult] using h⟩
          | some result => exact ⟨_, h.after_rotate hresult saved⟩
      | init | create | endCurrent | reap => cases haction

/-- The ways in which an operation moves the state of a slot. -/
inductive Edge : TableAction → TaskState → TaskState → Prop
  | created {heap entry stackSize} : Edge (.create heap entry stackSize) .unused .ready
  | picked {saved} : Edge (.rotate saved) .ready .running
  | passedOver {saved} : Edge (.rotate saved) .running .ready
  | ended : Edge .endCurrent .running .ended
  | reaped {heap} : Edge (.reap heap) .ended .unused

/-- Slot `i` keeps its state or moves along an edge. -/
def Moves (t : TaskTable) (action : TableAction) (i : TaskId) : Prop :=
  ((t.after action).slot i).state = (t.slot i).state ∨
    Edge action (t.slot i).state ((t.after action).slot i).state

theorem moves_of_after_eq (h : t.after action = t) : t.Moves action i :=
  Or.inl (by rw [h])

theorem moves_create (heap : Arena) (entry stackSize : Nat) :
    t.Moves (.create heap entry stackSize) i := by
  cases hresult : t.create heap entry stackSize with
  | error e => exact moves_of_after_eq (by simp only [after, hresult])
  | ok result =>
      obtain ⟨k, u, r⟩ := result
      obtain ⟨base, hunused, _, hu⟩ := exists_of_create hresult
      have hafter : t.after (.create heap entry stackSize) = u := by simp only [after, hresult]
      rw [Moves, hafter, hu, slot_setSlot]
      split
      next hk =>
        rw [← hk, hunused]
        exact Or.inr .created
      next => exact Or.inl rfl

theorem state_after_rotate {p : Switch} (h : t.rotate = some (p, u)) (saved : Option Registers) :
    ((t.after (.rotate saved)).slot i).state = (u.slot i).state := by
  simp only [after, h]
  cases saved with
  | none => rfl
  | some registers => exact state_save p registers u i

theorem Lifecycle.moves_rotate (h : t.Lifecycle c) (saved : Option Registers) :
    t.Moves (.rotate saved) i := by
  cases hresult : t.rotate with
  | none => exact moves_of_after_eq (by simp only [TaskTable.after, hresult])
  | some result =>
      obtain ⟨p, u⟩ := result
      obtain ⟨hcurrent, hne, hcanRun, hu⟩ := exists_of_rotate hresult
      rw [Moves, state_after_rotate hresult, hu, slot_handOver t hne]
      split
      next hi =>
        -- Only the task on the processor runs, so the one that was found was ready.
        have hready : (t.slot i).state = .ready := by
          cases hstate : (t.slot i).state with
          | ready => rfl
          | running =>
              have hc := h.running_eq i hstate
              rw [h.current_eq, Option.some.injEq] at hcurrent
              exact absurd (hi.symm.trans (hc.trans hcurrent)) hne
          | unused | blocked | ended =>
              rw [← hi, hstate] at hcanRun
              cases hcanRun
        rw [hready]
        exact Or.inr .picked
      next =>
        split
        next hold =>
          rw [hold.2]
          exact Or.inr .passedOver
        next => exact Or.inl rfl

theorem Lifecycle.moves_endCurrent (h : t.Lifecycle c) : t.Moves .endCurrent i := by
  cases hresult : t.endCurrent with
  | none => exact moves_of_after_eq (by simp only [TaskTable.after, hresult])
  | some result =>
      obtain ⟨k, u⟩ := result
      obtain ⟨hk, _⟩ := h.endCurrent hresult
      obtain ⟨_, _, hu⟩ := exists_of_endCurrent hresult
      have hafter : t.after .endCurrent = u := by simp only [TaskTable.after, hresult]
      rw [Moves, hafter, hu, slot_setState]
      split
      next hi =>
        rcases h.current_state with hrunning | hended
        · rw [← hi, hk, hrunning]
          exact Or.inr .ended
        · rw [← hi, hk, hended]
          exact Or.inl rfl
      next => exact Or.inl rfl

theorem moves_reap (heap : Arena) : t.Moves (.reap heap) i := by
  rw [Moves, after, slot_reap]
  split
  next hreapable =>
    rw [(reapable_iff.mp hreapable).1]
    exact Or.inr .reaped
  next => exact Or.inl rfl

theorem Lifecycle.moves (h : t.Lifecycle c) (haction : action.isInit = false) (i : TaskId) :
    t.Moves action i := by
  cases action with
  | init heap segments entry => cases haction
  | create heap entry stackSize => exact moves_create heap entry stackSize
  | rotate saved => exact h.moves_rotate saved
  | endCurrent => exact h.moves_endCurrent
  | reap heap => exact moves_reap heap

/-! ## Runs -/

def Shaped (t : TaskTable) : Prop := t.Blank ∨ ∃ c, t.Lifecycle c

theorem Shaped.after (h : t.Shaped) (action : TableAction) : (t.after action).Shaped := by
  cases haction : action.isInit with
  | true =>
      cases action with
      | init heap segments entry =>
          exact (shape_init heap segments entry).imp id fun hstarted => ⟨0, hstarted⟩
      | create | rotate | endCurrent | reap => cases haction
  | false =>
      rcases h with hblank | ⟨c, hstarted⟩
      · exact Or.inl ((hblank.after_eq haction).symm ▸ hblank)
      · exact Or.inr (hstarted.after haction)

theorem Shaped.run (h : t.Shaped) (actions : List TableAction) : (t.run actions).Shaped := by
  induction actions generalizing t with
  | nil => exact h
  | cons action rest ih => exact ih (h.after action)

theorem Shaped.moves (h : t.Shaped) (haction : action.isInit = false) (i : TaskId) :
    t.Moves action i := by
  rcases h with hblank | ⟨c, hstarted⟩
  · exact moves_of_after_eq (hblank.after_eq haction)
  · exact hstarted.moves haction i

theorem exists_change {P : TaskTable → Prop} {actions : List TableAction} (hstart : P t)
    (hend : ¬ P (t.run actions)) :
    ∃ before action rest, actions = before ++ action :: rest ∧ P (t.run before) ∧
      ¬ P ((t.run before).after action) := by
  induction actions generalizing t with
  | nil => exact absurd hstart hend
  | cons action rest ih =>
      by_cases hnext : P (t.after action)
      · obtain ⟨before, later, rest', rfl, hbefore, hchange⟩ := ih hnext hend
        exact ⟨action :: before, later, rest', rfl, hbefore, hchange⟩
      · exact ⟨[], action, rest, rfl, hstart, hnext⟩

/-! ## A task that ended does not come back -/

/-- No task can run in slot `i`. -/
def Gone (t : TaskTable) (i : TaskId) : Prop :=
  (t.slot i).state = .unused ∨ (t.slot i).state = .ended

theorem state_init_of_ne_zero (hi : i ≠ 0) (heap : Arena) (segments : Segments) (entry : Nat) :
    ((t.after (.init heap segments entry)).slot i).state = .unused := by
  cases hresult : init heap segments entry with
  | mk answer rest =>
      obtain ⟨u, r⟩ := rest
      simp only [after, hresult]
      cases answer with
      | error e => rw [table_of_init_error hresult, slot_cleared]
      | ok k =>
          obtain ⟨base, _, _, rfl⟩ := exists_of_init hresult
          rw [slot_start_cleared, if_neg hi]

theorem Edge.created_of_gone {state next : TaskState} (h : Edge action state next)
    (hgone : state = .unused ∨ state = .ended) (hnext : ¬ (next = .unused ∨ next = .ended)) :
    ∃ heap entry stackSize, action = .create heap entry stackSize := by
  cases h with
  | created => exact ⟨_, _, _, rfl⟩
  | picked | passedOver | ended => simp at hgone
  | reaped => simp at hnext

theorem Edge.reaped_of_ended {state next : TaskState} (h : Edge action state next)
    (hended : state = .ended) : next = .unused ∧ ∃ heap, action = .reap heap := by
  cases h with
  | reaped => exact ⟨rfl, _, rfl⟩
  | created | picked | passedOver | ended => cases hended

theorem Shaped.created_of_not_gone (h : t.Shaped) (hi : i ≠ 0) (hgone : t.Gone i)
    (hfilled : ¬ (t.after action).Gone i) :
    ∃ heap entry stackSize u r, action = .create heap entry stackSize ∧
      t.create heap entry stackSize = .ok (i, u, r) := by
  cases haction : action.isInit with
  | true =>
      cases action with
      | init heap segments entry =>
          exact absurd (Or.inl (state_init_of_ne_zero hi heap segments entry)) hfilled
      | create | rotate | endCurrent | reap => cases haction
  | false =>
      rcases h.moves haction i with hsame | hedge
      · rw [Gone, hsame] at hfilled
        exact absurd hgone hfilled
      · obtain ⟨heap, entry, stackSize, rfl⟩ := hedge.created_of_gone hgone hfilled
        cases hresult : t.create heap entry stackSize with
        | error e =>
            simp only [TaskTable.after, hresult] at hfilled
            exact absurd hgone hfilled
        | ok result =>
            obtain ⟨k, u, r⟩ := result
            obtain ⟨base, _, _, hu⟩ := exists_of_create hresult
            have hk : k = i := by
              by_contra hk
              simp only [TaskTable.after, hresult, Gone, hu, slot_setSlot_of_ne _ _ hk] at hfilled
              exact hfilled hgone
            exact ⟨heap, entry, stackSize, u, r, rfl, hk ▸ hresult⟩

theorem Shaped.emptied_of_not_ended (h : t.Shaped) (hi : i ≠ 0)
    (hended : (t.slot i).state = .ended) (hmoved : ((t.after action).slot i).state ≠ .ended) :
    ((t.after action).slot i).state = .unused ∧
      ((∃ heap, action = .reap heap) ∨ action.isInit = true) := by
  cases haction : action.isInit with
  | true =>
      cases action with
      | init heap segments entry =>
          exact ⟨state_init_of_ne_zero hi heap segments entry, Or.inr rfl⟩
      | create | rotate | endCurrent | reap => cases haction
  | false =>
      rcases h.moves haction i with hsame | hedge
      · exact absurd (hsame.trans hended) hmoved
      · obtain ⟨hunused, hreap⟩ := hedge.reaped_of_ended hended
        exact ⟨hunused, Or.inl hreap⟩

/-- In the course of the actions slot `i`, whose task had ended, is emptied, and then a
creation fills it.  Slots are emptied by reaping, and all at once by an initialization. -/
def Refilled (t : TaskTable) (i : TaskId) (actions : List TableAction) : Prop :=
  ∃ before emptying middle heap entry stackSize rest u r,
    actions = before ++ emptying :: (middle ++ .create heap entry stackSize :: rest) ∧
    ((t.run before).slot i).state = .ended ∧
    ((∃ heap, emptying = .reap heap) ∨ emptying.isInit = true) ∧
    (((t.run before).after emptying).slot i).state = .unused ∧
    (t.run (before ++ emptying :: middle)).create heap entry stackSize = .ok (i, u, r)

theorem Shaped.refilled (h : t.Shaped) (hended : (t.slot i).state = .ended)
    {actions : List TableAction} {p : Switch} (hrotate : (t.run actions).rotate = some (p, u))
    (hselected : p.incoming = i) : t.Refilled i actions := by
  have hi : i ≠ 0 := by
    intro hzero
    rw [hzero] at hended
    rcases h with hblank | ⟨c, hstarted⟩
    · rw [hblank.unused 0] at hended
      cases hended
    · rcases hstarted.idle_state with hidle | hidle <;> simp [hended] at hidle
  have hrunnable : ¬ (t.run actions).Gone i := by
    obtain ⟨_, _, hcanRun, _⟩ := exists_of_rotate hrotate
    rw [hselected] at hcanRun
    rintro (hunused | hended) <;> simp_all [TaskState.canRun]
  -- The action that fills the slot, and before it the one that empties it.
  obtain ⟨earlier, filling, rest, rfl, hgone, hfilled⟩ :=
    exists_change (P := fun v => v.Gone i) (Or.inr hended) hrunnable
  obtain ⟨heap, entry, stackSize, v, r, rfl, hcreate⟩ :=
    (h.run earlier).created_of_not_gone hi hgone hfilled
  obtain ⟨_, hunused, _, _⟩ := exists_of_create hcreate
  obtain ⟨before, emptying, middle, rfl, hbefore, hmoved⟩ :=
    exists_change (P := fun v => (v.slot i).state = .ended) hended
      (show ((t.run earlier).slot i).state ≠ .ended by simp [hunused])
  obtain ⟨hempty, hhow⟩ := (h.run before).emptied_of_not_ended hi hbefore hmoved
  exact ⟨before, emptying, middle, heap, entry, stackSize, rest, v, r, by simp, hbefore, hhow,
    hempty, hcreate⟩

/-! ## Tables that are reached -/

structure Regular (t : TaskTable) : Prop where
  shaped : t.Blank ∨ ∃ c, t.Lifecycle c
  blank_after : t.Blank → ∀ action, action.isInit = false → t.after action = t
  blank_reap : t.Blank → ∀ heap, t.reap heap = { table := t, arena := heap }
  moves : ∀ action i, action.isInit = false →
    ((t.after action).slot i).state = (t.slot i).state ∨
      Edge action (t.slot i).state ((t.after action).slot i).state
  reap_current : ∀ heap c, t.current = some c → (t.reap heap).table.slot c = t.slot c
  rotate_ended : ∀ c, t.current = some c → (t.slot c).state = .ended →
    ∃ p u, t.rotate = some (p, u) ∧ p.incoming ≠ c
  refilled : ∀ actions i p u, (t.slot i).state = .ended →
    (t.run actions).rotate = some (p, u) → p.incoming = i → t.Refilled i actions

theorem Shaped.regular (h : t.Shaped) : t.Regular := by
  refine ⟨h, fun hblank _ haction => hblank.after_eq haction, fun hblank => hblank.reap_eq,
    fun _ i haction => h.moves haction i, ?_, ?_,
    fun _ _ _ _ hended hrotate hselected => h.refilled hended hrotate hselected⟩
  · intro heap c hcurrent
    rw [slot_reap, if_neg]
    intro hreapable
    exact (reapable_iff.mp hreapable).2 hcurrent
  · intro c hcurrent hended
    rcases h with hblank | ⟨d, hstarted⟩
    · rw [hblank.current_eq] at hcurrent
      cases hcurrent
    · have hd : d = c := Option.some.inj (hstarted.current_eq.symm.trans hcurrent)
      rw [hd] at hstarted
      obtain ⟨p, u, hrotate⟩ := hstarted.exists_rotate hended
      obtain ⟨hold, hne, _, _⟩ := exists_of_rotate hrotate
      have hc : p.outgoing = c := Option.some.inj (hold.symm.trans hcurrent)
      exact ⟨p, u, hrotate, hc ▸ hne⟩

/-- Whatever is done to a fresh table, and whichever stacks the heap refuses. -/
theorem run_regular (actions : List TableAction) : (({} : TaskTable).run actions).Regular :=
  (Shaped.run (Or.inl blank_empty) actions).regular

end TaskTable

end Kernel16
