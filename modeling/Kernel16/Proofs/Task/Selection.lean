import Kernel16.Proofs.Task.Fairness

/-!
# Which task is selected

The search for the next task can be seen as a loop that moves the cursor of the table itself,
slot by slot, until it is on a task to switch to or back where it started.  Whatever the states
of the slots are, the loop ends after one turn around the table at most, and in one way only: a
rotation answers what it answers and leaves the table as it does, the cursor included.

What is selected is the first task after the cursor that can run, and only the two tasks of the
switch change their states.
-/

namespace Kernel16

namespace TaskTable

variable {t u : TaskTable} {c i new old start : TaskId}

/-- What a rotation answers, and the table that it leaves. -/
def rotated (t : TaskTable) : Option Switch × TaskTable :=
  match t.rotate with
  | some (p, u) => (some p, u)
  | none => (none, t)

/-! ## The search as a loop -/

def atCursor (t : TaskTable) (i : TaskId) : TaskTable := { t with cursor := i }

/-- A loop that looks at the slot under the cursor and moves the cursor on: the number of its
rounds, its answer and the table at its end. -/
inductive Scan (old start : TaskId) : TaskTable → Nat → Option Switch × TaskTable → Prop
  | found {t : TaskTable} (h : t.eligible old t.cursor = true) :
      Scan old start t 1 (some ⟨old, t.cursor⟩, t.handOver old t.cursor)
  | around {t : TaskTable} (h : t.eligible old t.cursor = false) (hstart : t.cursor + 1 = start) :
      Scan old start t 1 (none, t.atCursor (t.cursor + 1))
  | next {t : TaskTable} {rounds : Nat} {result : Option Switch × TaskTable}
      (h : t.eligible old t.cursor = false) (hstart : t.cursor + 1 ≠ start)
      (hrest : Scan old start (t.atCursor (t.cursor + 1)) rounds result) :
      Scan old start t (rounds + 1) result

theorem Scan.unique {rounds rounds' : Nat} {result result' : Option Switch × TaskTable}
    (h : Scan old start t rounds result) (h' : Scan old start t rounds' result') :
    rounds' = rounds ∧ result' = result := by
  induction h generalizing rounds' with
  | found heligible =>
      cases h' with
      | found => exact ⟨rfl, rfl⟩
      | around hnot => rw [heligible] at hnot; cases hnot
      | next hnot => rw [heligible] at hnot; cases hnot
  | around hnot hstart =>
      cases h' with
      | found heligible => rw [hnot] at heligible; cases heligible
      | around => exact ⟨rfl, rfl⟩
      | next _ hmore => exact absurd hstart hmore
  | next hnot hmore _ ih =>
      cases h' with
      | found heligible => rw [hnot] at heligible; cases heligible
      | around _ hstart => exact absurd hstart hmore
      | next _ _ hrest =>
          obtain ⟨rfl, rfl⟩ := ih hrest
          exact ⟨rfl, rfl⟩

/-- The answer and the table at the end of a search that began at `start`. -/
def conclude (t : TaskTable) (old start : TaskId) : Option TaskId → Option Switch × TaskTable
  | some new => (some ⟨old, new⟩, t.handOver old new)
  | none => (none, t.atCursor start)

theorem handOver_atCursor (t : TaskTable) (i old new : TaskId) :
    (t.atCursor i).handOver old new = t.handOver old new := by
  have hstate : ((t.atCursor i).slot old).state = (t.slot old).state := rfl
  simp only [handOver, hstate]
  split <;> rfl

/-- From slot `i` on the loop does what the search says, if the bound of the search leads back
to the start. -/
theorem exists_scan (t : TaskTable) (old : TaskId) {bound : Nat} (hpos : 0 < bound)
    (haround : start.val = (i.val + bound) % slotCount) :
    ∃ rounds ≤ bound, Scan old start (t.atCursor i) rounds
      (t.conclude old start (t.search old start bound i)) := by
  induction bound generalizing i with
  | zero => exact absurd hpos (Nat.lt_irrefl 0)
  | succ bound ih =>
      rw [search]
      cases heligible : t.eligible old i with
      | true =>
          refine ⟨1, hpos, ?_⟩
          rw [if_pos rfl, conclude, ← t.handOver_atCursor i]
          exact .found heligible
      | false =>
          rw [if_neg Bool.false_ne_true]
          split
          next hstart => exact ⟨1, hpos, hstart ▸ .around heligible rfl⟩
          next hstart =>
            obtain ⟨hmore, hrest⟩ := around_of_next_ne haround hstart
            obtain ⟨rounds, hrounds, hscan⟩ := ih hmore hrest
            exact ⟨rounds + 1, Nat.succ_le_succ hrounds, .next heligible hstart hscan⟩

theorem scan_iff (hcurrent : t.current = some c) :
    ∃ rounds ≤ slotCount, ∀ n result,
      Scan c t.cursor t n result ↔ n = rounds ∧ result = t.rotated := by
  have haround : t.cursor.val = (t.cursor.val + slotCount) % slotCount := by
    rw [Nat.add_mod_right, Nat.mod_eq_of_lt t.cursor.isLt]
  obtain ⟨rounds, hrounds, hscan⟩ := t.exists_scan c (by decide) haround
  have hrotated : t.conclude c t.cursor (t.search c t.cursor slotCount t.cursor) = t.rotated := by
    simp only [rotated, rotate, hcurrent, Option.bind_eq_bind, Option.bind_some, Option.pure_def]
    cases t.search c t.cursor slotCount t.cursor <;> rfl
  rw [hrotated] at hscan
  refine ⟨rounds, hrounds, fun n result => ⟨hscan.unique, ?_⟩⟩
  rintro ⟨rfl, rfl⟩
  exact hscan

/-! ## The selected task -/

theorem eligible_iff : t.eligible c i = true ↔ i ≠ c ∧ (t.slot i).state.canRun = true := by
  rw [eligible, Bool.and_eq_true, decide_eq_true_iff]

/-- Task `c` hands the processor to task `new`, and `u` is the table after that. -/
structure Selects (t : TaskTable) (c new : TaskId) (u : TaskTable) : Prop where
  ne : new ≠ c
  canRun : (t.slot new).state.canRun = true
  first : ∀ i, i ≠ c → (t.slot i).state.canRun = true →
    distance t.cursor new ≤ distance t.cursor i
  current_eq : u.current = some new
  cursor_eq : u.cursor.val = (new.val + 1) % slotCount
  incoming : u.slot new = { t.slot new with state := .running }
  outgoing : u.slot c =
    { t.slot c with
      state := if (t.slot c).state = .running then .ready else (t.slot c).state }
  others : ∀ i, i ≠ c → i ≠ new → u.slot i = t.slot i
  image : ∀ i, (u.slot i).image = (t.slot i).image
  stack : ∀ i, (u.slot i).stack = (t.slot i).stack
  idle_eq : u.idle = t.idle
  segments_eq : u.segments = t.segments

theorem selects_of_find? (hnew : (circle t.cursor).find? (t.eligible c) = some new) :
    t.Selects c new (t.handOver c new) := by
  obtain ⟨hne, hcanRun⟩ := eligible_iff.mp (List.find?_some hnew)
  refine ⟨hne, hcanRun, ?_, rfl, Fin.val_add new 1, ?_, ?_, ?_,
    fun _ => image_handOver hne, fun _ => stack_handOver hne, ?_, ?_⟩
  · intro i hi hrun
    exact distance_le_of_find? hnew (eligible_iff.mpr ⟨hi, hrun⟩)
  · rw [slot_handOver t hne, if_pos rfl]
  · rw [slot_handOver t hne, if_neg hne.symm]
    simp only [true_and]
    split <;> rfl
  · intro i hi hi'
    rw [slot_handOver t hne, if_neg hi', if_neg fun h => hi h.1]
  · unfold handOver
    split <;> rfl
  · unfold handOver
    split <;> rfl

/-- What a rotation of the table comes to, whatever the states of its slots are. -/
structure Rotates (t : TaskTable) : Prop where
  stopped : t.current = none → t.rotated = (none, t)
  scan : ∀ c, t.current = some c → ∃ rounds ≤ slotCount, ∀ n result,
    Scan c t.cursor t n result ↔ n = rounds ∧ result = t.rotated
  selects : ∀ c, t.current = some c →
    (∃ i, i ≠ c ∧ (t.slot i).state.canRun = true) →
    ∃ new u, t.rotated = (some ⟨c, new⟩, u) ∧ t.Selects c new u
  alone : ∀ c, t.current = some c →
    (∀ i, i ≠ c → (t.slot i).state.canRun = false) → t.rotated = (none, t)

theorem rotated_of_find? (hcurrent : t.current = some c)
    (hnew : (circle t.cursor).find? (t.eligible c) = some new) :
    t.rotated = (some ⟨c, new⟩, t.handOver c new) := by
  rw [rotated, rotate_eq hcurrent, hnew, Option.map_some]

theorem rotated_of_find?_eq_none (hcurrent : t.current = some c)
    (hnone : (circle t.cursor).find? (t.eligible c) = none) : t.rotated = (none, t) := by
  rw [rotated, rotate_eq hcurrent, hnone, Option.map_none]

/-- For every table with a task on the processor or without one. -/
theorem rotates (t : TaskTable) : t.Rotates := by
  refine ⟨?_, fun c => scan_iff, ?_, ?_⟩
  · intro hcurrent
    rw [rotated, rotate_of_no_current t hcurrent]
  · rintro c hcurrent ⟨i, hi⟩
    have hfound : ((circle t.cursor).find? (t.eligible c)).isSome := by
      rw [List.find?_isSome]
      exact ⟨i, mem_circle t.cursor i, eligible_iff.mpr hi⟩
    obtain ⟨new, hnew⟩ := Option.isSome_iff_exists.mp hfound
    exact ⟨new, t.handOver c new, rotated_of_find? hcurrent hnew, selects_of_find? hnew⟩
  · intro c hcurrent hnone
    refine rotated_of_find?_eq_none hcurrent (List.find?_eq_none.mpr fun i _ heligible => ?_)
    obtain ⟨hi, hcanRun⟩ := eligible_iff.mp heligible
    rw [hnone i hi] at hcanRun
    cases hcanRun

end TaskTable

end Kernel16
