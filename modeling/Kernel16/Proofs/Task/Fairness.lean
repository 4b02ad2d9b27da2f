import Kernel16.Proofs.Task.Transition
import Mathlib.Data.List.Rotate

/-!
# No ready task is passed over

The distance of a slot is the number of steps from the task on the processor around the
table.  Each rotation brings the processor nearer to a slot that is ready, whatever is
created, ended or reaped in between, so its distance bounds the rotations that it waits
for.  When nothing but rotations happens, the slots that can run take turns: the list of
them in the order of the search moves its head to its end.
-/

namespace Kernel16

namespace TaskTable

variable {t u : TaskTable} {c i j new : TaskId} {action : TableAction}
  {actions : List TableAction}

/-! ## Distances around the table -/

/-- Steps from slot `c` forward to slot `i`. -/
def distance (c i : TaskId) : Nat := (i - c).val

theorem distance_eq (c i : TaskId) : distance c i = (slotCount - c.val + i.val) % slotCount := by
  rw [distance, Fin.val_sub]

theorem distance_lt_of_le (hi : i ≠ c) (hnew : new ≠ c)
    (hle : distance (c + 1) new ≤ distance (c + 1) i) : distance new i < distance c i := by
  have hnext : (c + 1).val = (c.val + 1) % slotCount := Fin.val_add c 1
  have hi := Fin.val_ne_of_ne hi
  have hnew := Fin.val_ne_of_ne hnew
  have hbounds := And.intro c.isLt (And.intro i.isLt new.isLt)
  simp only [distance_eq, hnext, slotCount] at *
  omega

theorem circle_sorted (i : TaskId) :
    (circle i).Pairwise fun j k => distance i j < distance i k := by
  revert i
  decide +kernel

theorem circle_nodup (i : TaskId) : (circle i).Nodup :=
  (circle_sorted i).imp fun hlt heq => hlt.ne (congrArg (distance i) heq)

theorem circle_succ (i : TaskId) : circle (i + 1) = (circle i).rotate 1 := by
  revert i
  decide

theorem circle_after {before behind : List TaskId} (h : circle i = before ++ j :: behind) :
    circle (j + 1) = behind ++ before ++ [j] := by
  induction before generalizing i behind with
  | nil =>
      have hij : i = j := (List.cons.inj h).1
      rw [← hij, circle_succ, h, hij]
      simp
  | cons k before ih =>
      have hik : i = k := (List.cons.inj h).1
      have hnext : circle (i + 1) = before ++ j :: (behind ++ [k]) := by
        rw [circle_succ, h, List.cons_append, List.rotate_cons_succ, List.rotate_zero]
        simp
      rw [ih hnext]
      simp

theorem getLast?_circle (i : TaskId) : (circle (i + 1)).getLast? = some i := by
  have hfirst : circle i = [] ++ i :: (circle i).tail := rfl
  rw [circle_after hfirst, List.getLast?_append]
  rfl

/-- The search finds a slot that is no farther than any other that it could take. -/
theorem distance_le_of_find? {p : TaskId → Bool} (hnew : (circle i).find? p = some new)
    (hj : p j = true) : distance i new ≤ distance i j := by
  obtain ⟨_, before, behind, hsplit, hbefore⟩ := List.find?_eq_some_iff_append.mp hnew
  have hmem := hsplit ▸ mem_circle i j
  have hsorted := hsplit ▸ circle_sorted i
  rw [List.mem_append, List.mem_cons] at hmem
  rcases hmem with hearlier | rfl | hlater
  · have := hbefore j hearlier
    simp [hj] at this
  · exact Nat.le_refl _
  · obtain ⟨_, hsorted, _⟩ := List.pairwise_append.mp hsorted
    exact Nat.le_of_lt ((List.pairwise_cons.mp hsorted).1 j hlater)

/-! ## Waiting for the processor -/

/-- The slot that an operation gives the processor to. -/
def selected? (t : TaskTable) : TableAction → Option TaskId
  | .rotate _ => t.rotate.map fun (p, _) => p.incoming
  | _ => none

def selections (t : TaskTable) : List TableAction → List TaskId
  | [] => []
  | action :: rest => (t.selected? action).toList ++ (t.after action).selections rest

theorem Lifecycle.ne_of_ready (h : t.Lifecycle c) (hready : (t.slot i).state = .ready) : i ≠ c := by
  intro hi
  rw [hi] at hready
  rcases h.current_state with hstate | hstate <;> simp [hready] at hstate

/-- A rotation while slot `i` is ready. -/
theorem Lifecycle.approaches (h : t.Lifecycle c) (hready : (t.slot i).state = .ready) :
    ∃ p u, t.rotate = some (p, u) ∧ p.outgoing = c ∧
      distance p.incoming i < distance c i := by
  have hne := h.ne_of_ready hready
  have heligible : t.eligible c i = true := by
    simp [eligible, hne, hready, TaskState.canRun]
  obtain ⟨p, u, hrotate⟩ := TaskTable.exists_rotate h.current_eq heligible
  have hp := h.rotate hrotate
  refine ⟨p, u, hrotate, hp.1, ?_⟩
  have hfound := hrotate
  rw [rotate_eq h.current_eq, Option.map_eq_some_iff] at hfound
  obtain ⟨new, hnew, hresult⟩ := hfound
  cases hresult
  have hother := List.find?_some hnew
  rw [eligible, Bool.and_eq_true, decide_eq_true_iff] at hother
  exact distance_lt_of_le hne hother.1 (h.cursor_eq ▸ distance_le_of_find? hnew heligible)

theorem Edge.isRotate_of_ready {state : TaskState} (h : Edge action .ready state) :
    action.isRotate = true := by
  cases h
  rfl

/-- A task that is ready stays so until it is selected. -/
theorem Lifecycle.ready_after (h : t.Lifecycle c) (hready : (t.slot i).state = .ready)
    (hinit : action.isInit = false) (hother : t.selected? action ≠ some i) :
    ((t.after action).slot i).state = .ready := by
  cases action with
  | init heap segments entry => cases hinit
  | rotate saved =>
      obtain ⟨p, u, hrotate, _⟩ := h.approaches hready
      obtain ⟨_, hne, _, hu⟩ := exists_of_rotate hrotate
      have hi : i ≠ p.incoming := by
        intro hi
        exact hother (by rw [selected?, hrotate, Option.map_some, hi])
      rw [state_after_rotate hrotate, hu, slot_handOver t hne, if_neg hi, if_neg (by simp [hready])]
      exact hready
  | create | endCurrent | reap =>
      rcases h.moves hinit i with hsame | hedge
      · exact hsame.trans hready
      · rw [hready] at hedge
        cases hedge.isRotate_of_ready

/-- Slot `i` has waited since slot `c` had the processor, in the course of the actions. -/
structure Waits (t : TaskTable) (c i : TaskId) (actions : List TableAction) : Prop where
  ready : ((t.run actions).slot i).state = .ready
  /-- What is left of the distance, and what the rotations so far have taken off it. -/
  nearer : ∃ d, (t.run actions).current = some d ∧
    distance d i + actions.countP TableAction.isRotate ≤ distance c i
  next : ∃ p u, (t.run actions).rotate = some (p, u) ∧
    (t.run actions).current = some p.outgoing ∧ u.current = some p.incoming ∧
    distance p.incoming i < distance p.outgoing i

theorem Lifecycle.waits (h : t.Lifecycle c) (hready : (t.slot i).state = .ready)
    (hinit : ∀ action ∈ actions, action.isInit = false) (hother : i ∉ t.selections actions) :
    t.Waits c i actions := by
  induction actions generalizing t c with
  | nil =>
      obtain ⟨p, u, hrotate, rfl, hlt⟩ := h.approaches hready
      exact ⟨hready, ⟨_, h.current_eq, Nat.le_refl _⟩,
        p, u, hrotate, h.current_eq, (h.rotate hrotate).2.current_eq, hlt⟩
  | cons action rest ih =>
      obtain ⟨hfirst, hrest⟩ := List.forall_mem_cons.mp hinit
      rw [selections, List.mem_append, Option.mem_toList, not_or] at hother
      have hstill := h.ready_after hready hfirst hother.1
      cases haction : action.isRotate with
      | false =>
          have hwaits := ih (h.after_of_not_rotate hfirst haction) hstill hrest hother.2
          refine ⟨hwaits.ready, ?_, hwaits.next⟩
          rw [List.countP_cons, haction]
          exact hwaits.nearer
      | true =>
          cases action with
          | rotate saved =>
              obtain ⟨p, u, hrotate, _, hlt⟩ := h.approaches hready
              have hwaits := ih (h.after_rotate hrotate saved) hstill hrest hother.2
              obtain ⟨d, hd, hleft⟩ := hwaits.nearer
              refine ⟨hwaits.ready, ⟨d, hd, ?_⟩, hwaits.next⟩
              rw [List.countP_cons, if_pos haction]
              omega
          | init | create | endCurrent | reap => cases haction

theorem exists_selection (h : i ∈ t.selections actions) :
    ∃ before saved rest, actions = before ++ .rotate saved :: rest ∧ i ∉ t.selections before ∧
      (t.run before).selected? (.rotate saved) = some i := by
  induction actions generalizing t with
  | nil => cases h
  | cons action rest ih =>
      by_cases hfirst : t.selected? action = some i
      · cases action with
        | rotate saved => exact ⟨[], saved, rest, rfl, List.not_mem_nil, hfirst⟩
        | init | create | endCurrent | reap => cases hfirst
      · rw [selections, List.mem_append, Option.mem_toList] at h
        obtain ⟨before, saved, rest, rfl, hbefore, hselected⟩ := ih (h.resolve_left hfirst)
        refine ⟨action :: before, saved, rest, rfl, ?_, hselected⟩
        rw [selections, List.mem_append, Option.mem_toList, not_or]
        exact ⟨hfirst, hbefore⟩

/-- The rotations that a ready task waits for are fewer than its distance. -/
theorem Lifecycle.countP_lt (h : t.Lifecycle c) (hready : (t.slot i).state = .ready)
    (hinit : ∀ action ∈ actions, action.isInit = false) (hother : i ∉ t.selections actions) :
    actions.countP TableAction.isRotate < distance c i := by
  have hwaits := h.waits hready hinit hother
  obtain ⟨d, hd, hnearer⟩ := hwaits.nearer
  obtain ⟨p, u, _, hp, _, hlt⟩ := hwaits.next
  have hd : d = p.outgoing := Option.some.inj (hd.symm.trans hp)
  rw [hd] at hnearer
  omega

theorem Lifecycle.selected (h : t.Lifecycle c) (hready : (t.slot i).state = .ready)
    (hinit : ∀ action ∈ actions, action.isInit = false)
    (henough : distance c i ≤ actions.countP TableAction.isRotate) :
    ∃ before saved rest, actions = before ++ .rotate saved :: rest ∧
      before.countP TableAction.isRotate < distance c i ∧ i ∉ t.selections before ∧
      (t.run before).selected? (.rotate saved) = some i := by
  have hmem : i ∈ t.selections actions := by
    by_contra hother
    exact absurd (h.countP_lt hready hinit hother) (Nat.not_lt.mpr henough)
  obtain ⟨before, saved, rest, rfl, hother, hselected⟩ := exists_selection hmem
  have hbefore : ∀ action ∈ before, action.isInit = false :=
    fun action haction => hinit action (List.mem_append_left _ haction)
  exact ⟨before, saved, rest, rfl, h.countP_lt hready hbefore hother, hother, hselected⟩

/-! ## Taking turns -/

def canRun (t : TaskTable) (i : TaskId) : Bool := (t.slot i).state.canRun

/-- The slots that can run, in the order of the search. -/
def runnable (t : TaskTable) : List TaskId := (circle t.cursor).filter t.canRun

theorem mem_runnable : i ∈ t.runnable ↔ (t.slot i).state.canRun = true := by
  rw [runnable, List.mem_filter, canRun, and_iff_right (mem_circle _ _)]

theorem runnable_sorted (t : TaskTable) :
    t.runnable.Pairwise fun i j => distance t.cursor i < distance t.cursor j :=
  (circle_sorted t.cursor).filter _

theorem runnable_nodup (t : TaskTable) : t.runnable.Nodup := (circle_nodup t.cursor).filter _

/-- The task on the processor runs. -/
structure Running (t : TaskTable) (c : TaskId) : Prop extends t.Lifecycle c where
  running : (t.slot c).state = .running

theorem Running.getLast?_runnable (h : t.Running c) : t.runnable.getLast? = some c := by
  have hlast := getLast?_circle c
  rw [List.getLast?_eq_some_iff] at hlast
  obtain ⟨others, hothers⟩ := hlast
  rw [runnable, h.cursor_eq, hothers, List.filter_append, List.getLast?_append]
  simp [canRun, h.running, TaskState.canRun]

theorem Running.state_eq (h : t.Running c) (hi : t.canRun i = true) :
    (t.slot i).state = if i = c then .running else .ready := by
  split
  next hic => rw [hic, h.running]
  next hic =>
    cases hstate : (t.slot i).state with
    | ready => rfl
    | running => exact absurd (h.running_eq i hstate) hic
    | unused | blocked | ended => simp [canRun, hstate, TaskState.canRun] at hi

/-- The tables differ at most in which of the tasks that can run has the processor. -/
def Alike (t u : TaskTable) : Prop :=
  ∀ i, (u.slot i).state = (t.slot i).state ∨ t.canRun i = true ∧ u.canRun i = true

theorem Alike.refl (t : TaskTable) : t.Alike t := fun _ => Or.inl rfl

theorem Alike.canRun_eq (h : t.Alike u) : u.canRun = t.canRun := by
  funext i
  rcases h i with hsame | ⟨ht, hu⟩
  · rw [canRun, canRun, hsame]
  · rw [ht, hu]

theorem Alike.trans {v : TaskTable} (h : t.Alike u) (h' : u.Alike v) : t.Alike v := by
  intro i
  rcases h i with hsame | hrun
  · rcases h' i with hsame' | hrun'
    · exact Or.inl (hsame'.trans hsame)
    · exact Or.inr (h.canRun_eq ▸ hrun')
  · exact Or.inr ⟨hrun.1, h'.canRun_eq ▸ hrun.2⟩

theorem Running.state_eq_of_alike (h : t.Running c) (hu : u.Running c) (halike : t.Alike u)
    (i : TaskId) : (u.slot i).state = (t.slot i).state := by
  rcases halike i with hsame | ⟨hi, hi'⟩
  · exact hsame
  · rw [h.state_eq hi, hu.state_eq hi']

theorem Edge.canRun_of_rotate {saved : Option Registers} {state next : TaskState}
    (h : Edge (.rotate saved) state next) : state.canRun = true ∧ next.canRun = true := by
  cases h <;> exact ⟨rfl, rfl⟩

theorem Lifecycle.alike_rotate (h : t.Lifecycle c) (saved : Option Registers) :
    t.Alike (t.after (.rotate saved)) :=
  fun _ => (h.moves_rotate saved).imp id Edge.canRun_of_rotate

/-- The first of the slots that can run gets the processor and goes to their end. -/
theorem Running.turn (h : t.Running c) (hmore : 2 ≤ t.runnable.length)
    (saved : Option Registers) :
    ∃ new rest, t.runnable = new :: rest ∧ t.selected? (.rotate saved) = some new ∧
      (t.after (.rotate saved)).Running new ∧
      (t.after (.rotate saved)).runnable = rest ++ [new] := by
  obtain ⟨new, rest, hrunnable⟩ := List.exists_cons_of_length_pos (Nat.zero_lt_of_lt hmore)
  have hne : new ≠ c := by
    have hlast := h.getLast?_runnable
    have hnodup := t.runnable_nodup
    rw [hrunnable] at hmore hlast hnodup
    cases rest with
    | nil => simp at hmore
    | cons next rest =>
        rw [List.getLast?_cons_cons] at hlast
        intro hnew
        exact (List.nodup_cons.mp hnodup).1 (hnew ▸ List.mem_of_getLast? hlast)
  obtain ⟨before, behind, hsplit, hbefore, hnew, hbehind⟩ := List.filter_eq_cons_iff.mp hrunnable
  have hfound : (circle t.cursor).find? (t.eligible c) = some new := by
    refine List.find?_eq_some_iff_append.mpr ⟨?_, before, behind, hsplit, ?_⟩
    · simpa [eligible, hne, canRun] using hnew
    · intro i hi
      have hcannot : (t.slot i).state.canRun = false := by simpa [canRun] using hbefore i hi
      simp [eligible, hcannot]
  have hrotate : t.rotate = some (⟨c, new⟩, t.handOver c new) := by
    rw [rotate_eq h.current_eq, hfound, Option.map_some]
  have hafter := h.after_rotate hrotate saved
  refine ⟨new, rest, hrunnable, ?_, ⟨hafter, ?_⟩, ?_⟩
  · rw [selected?, hrotate, Option.map_some]
  · rw [state_after_rotate hrotate, slot_handOver t hne, if_pos rfl]
  · rw [runnable, hafter.cursor_eq, circle_after hsplit, (h.alike_rotate saved).canRun_eq,
      List.filter_append, List.filter_append, List.filter_eq_nil_iff.mpr hbefore, hbehind,
      List.append_nil, List.filter_singleton, hnew, cond_true]

theorem length_runnable_of_turn {rest : List TaskId} (ht : t.runnable = new :: rest)
    (hu : u.runnable = rest ++ [new]) : u.runnable.length = t.runnable.length := by
  rw [ht, hu, List.length_append, List.length_singleton, List.length_cons]

theorem Running.turns (h : t.Running c) (hmore : 2 ≤ t.runnable.length)
    (saves : List (Option Registers)) :
    t.Alike (t.run (saves.map .rotate)) ∧
      (t.run (saves.map .rotate)).runnable = t.runnable.rotate saves.length ∧
      ∃ d, (t.run (saves.map .rotate)).Running d := by
  induction saves generalizing t c with
  | nil => exact ⟨.refl t, (List.rotate_zero _).symm, c, h⟩
  | cons saved rest ih =>
      obtain ⟨new, others, hrunnable, _, hafter, hturned⟩ := h.turn hmore saved
      have hlength := length_runnable_of_turn hrunnable hturned
      obtain ⟨halike, hrest, hrunning⟩ := ih hafter (hlength ▸ hmore)
      refine ⟨(h.alike_rotate saved).trans halike, ?_, hrunning⟩
      rw [List.map_cons, List.length_cons, hrunnable, List.rotate_cons_succ, ← hturned]
      exact hrest

theorem Running.selections_eq (h : t.Running c) (hmore : 2 ≤ t.runnable.length)
    {saves : List (Option Registers)} (hfew : saves.length ≤ t.runnable.length) :
    t.selections (saves.map .rotate) = t.runnable.take saves.length := by
  induction saves generalizing t c with
  | nil => rfl
  | cons saved rest ih =>
      obtain ⟨new, others, hrunnable, hselected, hafter, hturned⟩ := h.turn hmore saved
      have hlength := length_runnable_of_turn hrunnable hturned
      have hrest : rest.length ≤ others.length := by
        rw [hrunnable] at hfew
        exact Nat.le_of_succ_le_succ hfew
      have hlater := ih hafter (hlength ▸ hmore) (hlength ▸ Nat.le_of_succ_le hfew)
      rw [hturned, List.take_append_of_le_length hrest] at hlater
      rw [List.map_cons, selections, hselected, hlater, hrunnable]
      rfl

/-- The actions give the processor once to each slot that can run, in the order of the
search, and bring the table back. -/
structure Round (t : TaskTable) (actions : List TableAction) : Prop where
  selections : t.selections actions = t.runnable
  every : ∀ i, i ∈ t.runnable ↔ (t.slot i).state.canRun = true
  once : t.runnable.Nodup
  sorted : t.runnable.Pairwise fun i j => distance t.cursor i < distance t.cursor j
  current : (t.run actions).current = t.current
  cursor : (t.run actions).cursor = t.cursor
  states : ∀ i, ((t.run actions).slot i).state = (t.slot i).state

theorem Running.round (h : t.Running c) (hmore : 2 ≤ t.runnable.length)
    {saves : List (Option Registers)} (hall : saves.length = t.runnable.length) :
    t.Round (saves.map .rotate) := by
  obtain ⟨halike, hrunnable, d, hrunning⟩ := h.turns hmore saves
  rw [hall, List.rotate_length] at hrunnable
  -- The slots that can run are in the same order again, and the task on the processor is last.
  have hdc : d = c := by
    have hlast := hrunning.getLast?_runnable
    rw [hrunnable, h.getLast?_runnable] at hlast
    exact (Option.some.inj hlast).symm
  rw [hdc] at hrunning
  refine ⟨?_, fun _ => mem_runnable, t.runnable_nodup, t.runnable_sorted, ?_, ?_,
    h.state_eq_of_alike hrunning halike⟩
  · rw [h.selections_eq hmore (Nat.le_of_eq hall), hall, List.take_length]
  · rw [hrunning.current_eq, h.current_eq]
  · rw [hrunning.cursor_eq, h.cursor_eq]

/-! ## Tables that are reached -/

/-- Slot `c` has the processor. -/
structure Fair (t : TaskTable) (c : TaskId) : Prop where
  waits : ∀ i actions, (t.slot i).state = .ready →
    (∀ action ∈ actions, action.isInit = false) → i ∉ t.selections actions →
    t.Waits c i actions
  selected : ∀ i actions, (t.slot i).state = .ready →
    (∀ action ∈ actions, action.isInit = false) →
    distance c i ≤ actions.countP TableAction.isRotate →
    ∃ before saved rest, actions = before ++ .rotate saved :: rest ∧
      before.countP TableAction.isRotate < distance c i ∧ i ∉ t.selections before ∧
      (t.run before).selected? (.rotate saved) = some i
  rounds : (t.slot c).state = .running → 2 ≤ t.runnable.length →
    ∀ before saves : List (Option Registers), saves.length = t.runnable.length →
      (t.run (before.map .rotate)).Round (saves.map .rotate)

theorem Lifecycle.fair (h : t.Lifecycle c) : t.Fair c := by
  refine ⟨fun _ _ => h.waits, fun _ _ => h.selected, ?_⟩
  intro hrunning hmore before saves hall
  obtain ⟨_, hrunnable, d, hlater⟩ := Running.turns ⟨h, hrunning⟩ hmore before
  have hlength : (t.run (before.map .rotate)).runnable.length = t.runnable.length := by
    rw [hrunnable, List.length_rotate]
  exact hlater.round (hlength ▸ hmore) (hall.trans hlength.symm)

/-- Whatever was done to a fresh table before, once there is a task on the processor. -/
theorem run_fair {setup : List TableAction}
    (hcurrent : (({} : TaskTable).run setup).current = some c) :
    (({} : TaskTable).run setup).Fair c := by
  rcases Shaped.run (Or.inl blank_empty) setup with hblank | ⟨d, h⟩
  · rw [hblank.current_eq] at hcurrent
    cases hcurrent
  · have hd : d = c := Option.some.inj (h.current_eq.symm.trans hcurrent)
    exact hd ▸ h.fair

def threeTasks : List TableAction :=
  [.init stackPool .initial 256, .create stackPool 512 64, .create stackPool 768 64, .rotate none]

theorem run_fair_threeTasks :
    (({} : TaskTable).run threeTasks).Fair 1 ∧
      ((({} : TaskTable).run threeTasks).slot 1).state = .running ∧
      ((({} : TaskTable).run threeTasks).slot 2).state = .ready ∧
      (({} : TaskTable).run threeTasks).runnable = [2, 0, 1] :=
  ⟨run_fair (by decide +kernel), by decide +kernel, by decide +kernel, by decide +kernel⟩

end TaskTable

end Kernel16
