import Kernel16.Task.Table

/-!
# Passing the processor on

The search for the next task starts at the cursor, goes around the table once
and skips the task that gives up the processor.  It takes the first slot that
can run.  A switch then saves the registers into the old slot and resumes from
the image in the new one.
-/

namespace Kernel16

structure Switch where
  outgoing : TaskId
  incoming : TaskId
  deriving DecidableEq, Repr

namespace Switch

def save (p : Switch) (image : Registers) (t : TaskTable) : TaskTable :=
  t.setSlot p.outgoing { t.slot p.outgoing with image }

def load (p : Switch) (t : TaskTable) : Registers := (t.slot p.incoming).image

end Switch

namespace TaskTable

def eligible (t : TaskTable) (old i : TaskId) : Bool :=
  i ≠ old && (t.slot i).state.canRun

/-- Looks at the slots from `i` on until one is eligible or the search is back
at `start`, after `bound` slots at most. -/
def search (t : TaskTable) (old start : TaskId) : (bound : Nat) → TaskId → Option TaskId
  | 0, _ => none
  | bound + 1, i =>
      if t.eligible old i then some i
      else if i + 1 = start then none
      else t.search old start bound (i + 1)

def handOver (t : TaskTable) (old new : TaskId) : TaskTable :=
  let t := if (t.slot old).state = .running then t.setState old .ready else t
  { t.setState new .running with current := some new, cursor := new + 1 }

def rotate (t : TaskTable) : Option (Switch × TaskTable) := do
  let old ← t.current
  let new ← t.search old t.cursor slotCount t.cursor
  return (⟨old, new⟩, t.handOver old new)

theorem rotate_of_no_current (t : TaskTable) (h : t.current = none) :
    t.rotate = none := by
  simp [rotate, h]

theorem search_eligible {t : TaskTable} {old start i new : TaskId} {bound : Nat}
    (h : t.search old start bound i = some new) : t.eligible old new = true := by
  induction bound generalizing i with
  | zero => simp [search] at h
  | succ bound ih =>
      rw [search] at h
      split at h
      next hi => simpa [← Option.some.inj h] using hi
      next =>
        split at h
        next => simp at h
        next => exact ih h

end TaskTable

end Kernel16
