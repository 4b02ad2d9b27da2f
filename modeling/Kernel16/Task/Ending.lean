import Kernel16.Heap.Free
import Kernel16.Log.Record
import Kernel16.Task.Table

/-!
# Tasks that end

A task that ends is only marked: it still runs on its stack.  Reaping returns
the stacks of marked tasks to the heap and empties their slots, but leaves the
task on the processor alone.
-/

namespace Kernel16

namespace TaskTable

/-- Marks the task on the processor as gone.  The idle task cannot end. -/
def endCurrent (t : TaskTable) : Option (TaskId × TaskTable) := do
  let i ← t.current
  if t.idle = some i then none else some (i, t.setState i .ended)

def reapable (t : TaskTable) (i : TaskId) : Bool :=
  (t.slot i).state = .ended && t.current ≠ some i

end TaskTable

structure Reaping where
  table : TaskTable
  arena : Arena
  count : Nat := 0
  /-- Slots whose stack the heap did not take back, and why. -/
  refused : List (TaskId × FreeRefusal) := []

namespace Reaping

def step (r : Reaping) (i : TaskId) : Reaping :=
  if r.table.reapable i then
    let emptied := r.table.setSlot i {}
    match r.arena.free (r.table.slot i).stack.base with
    | .ok (_, arena) => { r with table := emptied, arena, count := r.count + 1 }
    | .error e =>
        { r with table := emptied, count := r.count + 1, refused := r.refused ++ [(i, e)] }
  else r

def warnings (r : Reaping) : List Log.Record :=
  r.refused.map fun (i, e) =>
    .of .warn "sched" (TaskId.name i ++ " stack not returned: " ++ e.reason)

end Reaping

/-- Empties every slot that can be emptied, in the order of the table. -/
def TaskTable.reap (t : TaskTable) (s : Arena) : Reaping :=
  (List.finRange slotCount).foldl Reaping.step { table := t, arena := s }

end Kernel16
