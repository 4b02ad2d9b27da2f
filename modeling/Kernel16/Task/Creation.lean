import Kernel16.Heap.Allocate
import Kernel16.Task.Table

/-!
# Creating tasks

A new task takes the lowest unused slot and a stack from the heap, and starts
from an image that enters it with the stack pointer at the top of that stack.
Initializing the table creates the idle task, which is the flow of control
that asked for it.  A refused creation changes neither table nor arena.
-/

namespace Kernel16

def idleStackSize : Nat := 1024

/-- Stack bytes for the first long-running task. -/
def defaultStackSize : Nat := 2048

inductive CreationError where
  | notStarted
  | noSlot
  | noStack
  deriving DecidableEq, Repr

def CreationError.message : CreationError → String
  | .notStarted => "scheduler not initialized"
  | .noSlot => s!"task table full ({slotCount} slots)"
  | .noStack => "task stack allocation failed"

/-- The image that a task first resumes from.  Addresses are cut to sixteen
bits, the offset in the segment. -/
def Registers.ofNewTask (entry : Nat) (stack : Stack) (segments : Segments) : Registers where
  ip := UInt16.ofNat entry
  cs := segments.code
  sp := UInt16.ofNat (stack.base + stack.size)
  ss := segments.data
  ds := segments.data
  es := segments.data
  flags := Flag.ofNewTask

namespace TaskTable

def firstUnused? (t : TaskTable) : Option TaskId :=
  (List.finRange slotCount).find? fun i => (t.slot i).state = .unused

def newSlot (t : TaskTable) (entry : Nat) (stack : Stack) : Slot where
  state := .ready
  image := .ofNewTask entry stack t.segments
  stack := stack

def occupy (t : TaskTable) (s : Arena) (entry stackSize : Nat) :
    Except CreationError (TaskId × TaskTable × Arena) :=
  match t.firstUnused? with
  | none => .error .noSlot
  | some i =>
      match s.allocate stackSize with
      | none => .error .noStack
      | some (base, s) => .ok (i, t.setSlot i (t.newSlot entry ⟨base, stackSize⟩), s)

def create (t : TaskTable) (s : Arena) (entry stackSize : Nat) :
    Except CreationError (TaskId × TaskTable × Arena) :=
  if t.isStarted then t.occupy s entry stackSize else .error .notStarted

def cleared (segments : Segments) : TaskTable := { segments }

def start (t : TaskTable) (i : TaskId) : TaskTable :=
  { t.setState i .running with current := some i, idle := some i, cursor := i + 1 }

/-- Drops all tasks and makes the calling flow the idle task.  Without memory
for its stack the table stays empty. -/
def init (s : Arena) (segments : Segments) (entry : Nat) :
    Except CreationError TaskId × TaskTable × Arena :=
  match (cleared segments).occupy s entry idleStackSize with
  | .error e => (.error e, cleared segments, s)
  | .ok (i, t, s) => (.ok i, t.start i, s)

theorem create_of_not_started (t : TaskTable) (s : Arena) (entry stackSize : Nat)
    (h : t.current = none) : t.create s entry stackSize = .error .notStarted := by
  simp [create, isStarted, h]

end TaskTable

end Kernel16
