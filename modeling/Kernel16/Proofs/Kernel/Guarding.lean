import Mathlib.Logic.Function.Basic
import Kernel16.Proofs.Kernel.Execution

/-!
# The interrupt flag under several locks

Locks are taken while they are free, and the guards that live are given back in any order.  A
guard gives back the interrupt flag that it found when it was taken, so one guard at most finds
the flag set, and the flag is clear exactly while this guard lives.  When all guards are gone the
flag is as it was.  A guard that outlives the one that found the flag set does not mask interrupts,
so that only guards that are given back in the opposite order mask them as long as they live.
-/

namespace Kernel16

/-- A family of locks around values of any types. -/
abbrev Locks {ι : Type} (α : ι → Type) := (i : ι) → SpinLock (α i)

/-- What is done to one lock of a family. -/
inductive LockStep (ι : Type) where
  | lock (i : ι)
  | drop (i : ι)
  deriving DecidableEq, Repr

namespace LockStep

variable {ι : Type} [DecidableEq ι] {α : ι → Type}

/-- The locks after the step.  To take a lock that is held changes nothing. -/
def program (locks : Locks α) : LockStep ι → KernelM (Locks α)
  | .lock i => do
      match ← (locks i).acquire with
      | some held => return Function.update locks i held
      | none => return locks
  | .drop i => do
      let (_, free) ← (locks i).release
      return Function.update locks i free

/-- The guards that live after the step, the one taken last first. -/
def guards (live : List ι) : LockStep ι → List ι
  | .lock i => i :: live
  | .drop i => live.erase i

/-- A lock is taken while it is free, and a guard is given back once. -/
def Permitted (live : List ι) : LockStep ι → Prop
  | .lock i => i ∉ live
  | .drop i => i ∈ live

/-- Only the guard taken last is given back. -/
def Nested (live : List ι) : LockStep ι → Prop
  | .lock _ => True
  | .drop i => live.head? = some i

instance decidablePermitted (live : List ι) : (step : LockStep ι) → Decidable (step.Permitted live)
  | .lock i => inferInstanceAs (Decidable (i ∉ live))
  | .drop i => inferInstanceAs (Decidable (i ∈ live))

/-- Each step has the property with the guards that live when it is taken. -/
def Each (p : List ι → LockStep ι → Prop) (live : List ι) : List (LockStep ι) → Prop
  | [] => True
  | step :: rest => p live step ∧ Each p (step.guards live) rest

instance decidableEach : (live : List ι) → (steps : List (LockStep ι)) →
    Decidable (Each Permitted live steps)
  | _, [] => inferInstanceAs (Decidable True)
  | live, step :: rest =>
      have := decidableEach (step.guards live) rest
      inferInstanceAs (Decidable (step.Permitted live ∧ Each _ (step.guards live) rest))

end LockStep

namespace Locks

open KernelM

variable {ι : Type} {α : ι → Type} {locks locks' : Locks α} {start k k' : Kernel}
  {live : List ι} {found : Bool} {i : ι}

/-- These guards live in a kernel that had the flag and all else of `start` ahead of them. -/
structure Guards (live : List ι) (start : Kernel) (locks : Locks α) (k : Kernel) : Prop where
  installed : k.installed = true
  kernel_eq : k = start.setInterrupts k.machine.interrupts
  nodup : live.Nodup
  held_iff : ∀ i, (locks i).isLocked = true ↔ i ∈ live
  one : ∀ i j, (locks i).held = some true → (locks j).held = some true → i = j
  found : ∀ i, (locks i).held = some true → start.machine.interrupts = true
  flag_iff : k.machine.interrupts = true ↔
    start.machine.interrupts = true ∧ ∀ i, (locks i).held ≠ some true

/-- The guard taken first is the only one that may have found the flag set. -/
structure Stacked (live : List ι) (locks : Locks α) (k : Kernel) : Prop where
  masked : live ≠ [] → k.machine.interrupts = false
  oldest : ∀ i, (locks i).held = some true → live.getLast? = some i

theorem Guards.held_of_not_mem (h : Guards live start locks k) (hi : i ∉ live) :
    (locks i).held = none := by
  rw [← Option.not_isSome_iff_eq_none]
  exact fun hlocked => hi ((h.held_iff i).mp hlocked)

theorem Guards.exists_held (h : Guards live start locks k) (hi : i ∈ live) :
    ∃ found, (locks i).held = some found :=
  Option.isSome_iff_exists.mp ((h.held_iff i).mpr hi)

theorem guards_nil (hk : k.installed = true) (hlocks : ∀ i, (locks i).held = none) :
    Guards [] k locks k where
  installed := hk
  kernel_eq := rfl
  nodup := List.nodup_nil
  held_iff := fun i => by simp [SpinLock.isLocked, hlocks i]
  one := fun i _ hi => absurd hi (by simp [hlocks i])
  found := fun i hi => absurd hi (by simp [hlocks i])
  flag_iff := by simp [hlocks]

theorem stacked_nil (hlocks : ∀ i, (locks i).held = none) : Stacked [] locks k where
  masked := fun hne => absurd rfl hne
  oldest := fun i hi => absurd hi (by simp [hlocks i])

variable [DecidableEq ι] {step : LockStep ι} {steps : List (LockStep ι)}

/-! ## Single steps -/

/-- Lock `i` now remembers this flag, or none. -/
def setHeld (locks : Locks α) (i : ι) (held : Option Bool) : Locks α :=
  Function.update locks i { locks i with held }

theorem held_setHeld (locks : Locks α) (i : ι) (held : Option Bool) (j : ι) :
    (locks.setHeld i held j).held = if j = i then held else (locks j).held := by
  unfold setHeld
  by_cases hj : j = i
  · subst hj
    rw [Function.update_self, if_pos rfl]
  · rw [Function.update_of_ne hj, if_neg hj]

theorem held_of_setHeld_none {j : ι} (h : (locks.setHeld i none j).held = some found) :
    j ≠ i ∧ (locks j).held = some found := by
  rw [held_setHeld] at h
  split at h
  next => cases h
  next hj => exact ⟨hj, h⟩

theorem program_lock (hk : k.installed = true) (hfree : (locks i).held = none) :
    LockStep.program locks (.lock i) k =
      .ok (locks.setHeld i (some k.machine.interrupts)) (k.setInterrupts false) := by
  have hacquire : (locks i).acquire k =
      .ok (some { locks i with held := some k.machine.interrupts }) (k.setInterrupts false) := by
    rw [SpinLock.acquire, SpinLock.isLocked, hfree, if_neg (by decide),
      bind_of_ok (maskInterrupts_apply k), if_pos hk, Kernel.flagAtLock, hk, Bool.true_and]
    rfl
  rw [LockStep.program, bind_of_ok hacquire]
  rfl

theorem program_drop (hheld : (locks i).held = some found) :
    LockStep.program locks (.drop i) k = .ok (locks.setHeld i none) (k.unlocked found) := by
  have hrelease : (locks i).release k =
      .ok (true, { locks i with held := none }) (k.unlocked found) := by
    rw [SpinLock.release, hheld]
    dsimp only
    rw [bind_of_ok (restoreInterrupts_apply found k)]
    rfl
  rw [LockStep.program, bind_of_ok hrelease]
  rfl

/-- A lock that is taken remembers the flag, and clears it. -/
theorem Guards.lock (h : Guards live start locks k) (hi : i ∉ live) :
    Guards (i :: live) start (locks.setHeld i (some k.machine.interrupts))
      (k.setInterrupts false) where
  installed := h.installed
  kernel_eq := by
    rw [h.kernel_eq]
    rfl
  nodup := List.nodup_cons.mpr ⟨hi, h.nodup⟩
  held_iff := by
    intro j
    rw [SpinLock.isLocked, held_setHeld, List.mem_cons]
    by_cases hj : j = i
    · simp only [hj, if_true, Option.isSome_some, true_or]
    · simp only [hj, if_false, false_or]
      exact h.held_iff j
  one := by
    intro j j' hj hj'
    rw [held_setHeld] at hj hj'
    -- A guard that finds the flag set is the only one that does.
    have hnone : ∀ j, k.machine.interrupts = true → (locks j).held ≠ some true :=
      fun j hflag => (h.flag_iff.mp hflag).2 j
    split at hj <;> split at hj'
    next hji hji' => exact hji.trans hji'.symm
    next => exact absurd hj' (hnone j' (Option.some.inj hj))
    next => exact absurd hj (hnone j (Option.some.inj hj'))
    next => exact h.one j j' hj hj'
  found := by
    intro j hj
    rw [held_setHeld] at hj
    split at hj
    next => exact (h.flag_iff.mp (Option.some.inj hj)).1
    next => exact h.found j hj
  flag_iff := by
    refine ⟨fun hflag => absurd hflag Bool.false_ne_true, ?_⟩
    rintro ⟨hbefore, hnone⟩
    have hflag : k.machine.interrupts = true := by
      refine h.flag_iff.mpr ⟨hbefore, fun j hj => hnone j ?_⟩
      have hji : j ≠ i := by
        rintro rfl
        rw [h.held_of_not_mem hi] at hj
        cases hj
      rw [held_setHeld, if_neg hji, hj]
    refine absurd ?_ (hnone i)
    rw [held_setHeld, if_pos rfl, hflag]

/-- A guard gives back the flag that it found. -/
theorem Guards.drop (h : Guards live start locks k) (hi : (locks i).held = some found) :
    Guards (live.erase i) start (locks.setHeld i none) (k.unlocked found) where
  installed := by
    rw [Kernel.unlocked]
    split
    next => exact h.installed
    next => exact h.installed
  kernel_eq := by
    rw [Kernel.unlocked]
    split
    next =>
      rw [h.kernel_eq]
      rfl
    next => exact h.kernel_eq
  nodup := h.nodup.erase i
  held_iff := by
    intro j
    rw [SpinLock.isLocked, held_setHeld, h.nodup.mem_erase_iff]
    by_cases hj : j = i
    · simp [hj]
    · simp only [hj, if_false, ne_eq, not_false_eq_true, true_and]
      exact h.held_iff j
  one := by
    intro j j' hj hj'
    exact h.one j j' (held_of_setHeld_none hj).2 (held_of_setHeld_none hj').2
  found := by
    intro j hj
    exact h.found j (held_of_setHeld_none hj).2
  flag_iff := by
    cases found with
    | true =>
        have hflag : (k.unlocked true).machine.interrupts = true := by
          rw [Kernel.unlocked, h.installed]
          rfl
        refine ⟨fun _ => ⟨h.found i hi, fun j hj => ?_⟩, fun _ => hflag⟩
        obtain ⟨hji, hj⟩ := held_of_setHeld_none hj
        exact hji (h.one j i hj hi)
    | false =>
        have hsame : k.unlocked false = k := rfl
        rw [hsame, h.flag_iff]
        refine and_congr_right fun _ => forall_congr' fun j => ?_
        rw [held_setHeld]
        by_cases hj : j = i
        · subst hj
          rw [if_pos rfl, hi]
          decide
        · rw [if_neg hj]

theorem Stacked.lock (h : Stacked live locks k) :
    Stacked (i :: live) (locks.setHeld i (some k.machine.interrupts)) (k.setInterrupts false) where
  masked := fun _ => rfl
  oldest := by
    intro j hj
    rw [held_setHeld] at hj
    split at hj
    next hji =>
      -- The flag is set only if no guard lives yet.
      cases live with
      | nil => rw [hji]; rfl
      | cons newest rest =>
          rw [h.masked (List.cons_ne_nil _ _)] at hj
          cases hj
    next =>
      have hlast := h.oldest j hj
      cases live with
      | nil => cases hlast
      | cons newest rest => rw [List.getLast?_cons_cons, hlast]

theorem Stacked.drop (h : Stacked live locks k) (hnodup : live.Nodup)
    (hi : live.head? = some i) (hheld : (locks i).held = some found) :
    Stacked (live.erase i) (locks.setHeld i none) (k.unlocked found) := by
  obtain ⟨rest, rfl⟩ := List.head?_eq_some_iff.mp hi
  rw [List.erase_cons_head]
  cases rest with
  | nil =>
      refine ⟨fun hne => absurd rfl hne, fun j hj => ?_⟩
      obtain ⟨hji, hj⟩ := held_of_setHeld_none hj
      exact absurd (Option.some.inj (h.oldest j hj)).symm hji
  | cons older rest =>
      -- A younger guard found the flag clear, so that it stays so.
      have hfound : found = false := by
        rw [Bool.eq_false_iff]
        rintro rfl
        have hlast := h.oldest i hheld
        rw [List.getLast?_cons_cons] at hlast
        exact (List.nodup_cons.mp hnodup).1 (List.mem_of_getLast? hlast)
      subst hfound
      refine ⟨fun _ => h.masked (List.cons_ne_nil _ _), fun j hj => ?_⟩
      rw [← List.getLast?_cons_cons, h.oldest j (held_of_setHeld_none hj).2]

theorem Guards.perform (h : Guards live start locks k) (hstep : step.Permitted live) :
    ∃ locks' k', step.program locks k = .ok locks' k' ∧
      Guards (step.guards live) start locks' k' ∧
      (step.Nested live → Stacked live locks k → Stacked (step.guards live) locks' k') := by
  cases step with
  | lock i =>
      exact ⟨_, _, program_lock h.installed (h.held_of_not_mem hstep), h.lock hstep,
        fun _ hstacked => hstacked.lock⟩
  | drop i =>
      obtain ⟨found, hheld⟩ := h.exists_held hstep
      exact ⟨_, _, program_drop hheld, h.drop hheld,
        fun hnested hstacked => hstacked.drop h.nodup hnested hheld⟩

/-! ## Runs -/

def run (locks : Locks α) (steps : List (LockStep ι)) : KernelM (Locks α) :=
  steps.foldlM LockStep.program locks

/-- The guards that live after these steps. -/
def liveAfter (live : List ι) (steps : List (LockStep ι)) : List ι :=
  steps.foldl LockStep.guards live

theorem Guards.run (h : Guards live start locks k)
    (hsteps : LockStep.Each LockStep.Permitted live steps) :
    ∃ locks' k', locks.run steps k = .ok locks' k' ∧
      Guards (liveAfter live steps) start locks' k' ∧
      (LockStep.Each LockStep.Nested live steps → Stacked live locks k →
        Stacked (liveAfter live steps) locks' k') := by
  induction steps generalizing live locks k with
  | nil => exact ⟨locks, k, rfl, h, fun _ hstacked => hstacked⟩
  | cons step rest ih =>
      obtain ⟨locks₁, k₁, hstep, hguards, hstacked⟩ := h.perform hsteps.1
      obtain ⟨locks₂, k₂, hrest, hguards', hstacked'⟩ := ih hguards hsteps.2
      refine ⟨locks₂, k₂, ?_, hguards', ?_⟩
      · rw [Locks.run, List.foldlM_cons, bind_of_ok hstep]
        exact hrest
      · exact fun hnested hbefore => hstacked' hnested.2 (hstacked hnested.1 hbefore)

/-- What the steps came to: only the flag of the kernel may be another one.  It is set again as
soon as the guard that found it set is gone, and that is the last of all guards if they are given
back in the opposite order. -/
structure Guarded (steps : List (LockStep ι)) (k : Kernel) (locks' : Locks α) (k' : Kernel) :
    Prop where
  isLocked_iff : ∀ i, (locks' i).isLocked = true ↔ i ∈ liveAfter [] steps
  kernel_eq : k' = k.setInterrupts k'.machine.interrupts
  one : ∀ i j, (locks' i).held = some true → (locks' j).held = some true → i = j
  flag_iff : k'.machine.interrupts = true ↔
    k.machine.interrupts = true ∧ ∀ i, (locks' i).held ≠ some true
  restored : liveAfter [] steps = [] → k'.machine.interrupts = k.machine.interrupts
  masked : LockStep.Each LockStep.Nested [] steps → liveAfter [] steps ≠ [] →
    k'.machine.interrupts = false

theorem run_guarded (hk : k.installed = true) (hlocks : ∀ i, (locks i).held = none)
    (hsteps : LockStep.Each LockStep.Permitted [] steps) :
    ∃ locks' k', locks.run steps k = .ok locks' k' ∧ Guarded steps k locks' k' := by
  obtain ⟨locks', k', hrun, hguards, hstacked⟩ := (guards_nil hk hlocks).run hsteps
  refine ⟨locks', k', hrun, hguards.held_iff, hguards.kernel_eq, hguards.one,
    hguards.flag_iff, fun hnil => ?_, fun hnested => (hstacked hnested (stacked_nil hlocks)).masked⟩
  have hnone : ∀ i, (locks' i).held ≠ some true := by
    intro i hi
    rw [hguards.held_of_not_mem (by rw [hnil]; exact List.not_mem_nil)] at hi
    cases hi
  rw [Bool.eq_iff_iff, hguards.flag_iff]
  exact and_iff_left hnone

def twoLocks : Locks fun _ : Fin 2 => Nat := fun _ => { value := 0 }

/-- A kernel with interrupts enabled. -/
def openKernel : Kernel := ({} : Kernel).install { interrupts := true }

/-- Lock 1 is taken while lock 0 is held, and held longer. -/
def overlapping : List (LockStep (Fin 2)) := [.lock 0, .lock 1, .drop 0]

theorem run_guarded_overlapping :
    openKernel.installed = true ∧ (∀ i, (twoLocks i).held = none) ∧
      LockStep.Each LockStep.Permitted [] overlapping ∧
      ∃ locks' k', twoLocks.run overlapping openKernel = .ok locks' k' ∧
        Guarded overlapping openKernel locks' k' := by
  have hk : openKernel.installed = true := by decide
  have hlocks : ∀ i, (twoLocks i).held = none := fun _ => rfl
  have hsteps : LockStep.Each LockStep.Permitted [] overlapping := by decide
  exact ⟨hk, hlocks, hsteps, run_guarded hk hlocks hsteps⟩

/-- A guard lives, and interrupts are enabled. -/
theorem overlapping_exposed :
    openKernel.installed = true ∧ (∀ i, (twoLocks i).held = none) ∧
      LockStep.Each LockStep.Permitted [] overlapping ∧
      ∃ locks' k', twoLocks.run overlapping openKernel = .ok locks' k' ∧
        (locks' 1).isLocked = true ∧ k'.machine.interrupts = true :=
  ⟨by decide, fun _ => rfl, by decide, _, _, rfl, rfl, rfl⟩

end Locks

end Kernel16
