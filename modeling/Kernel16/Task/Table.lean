import Kernel16.Cpu.Registers

/-!
# The task table

Tasks live in sixteen slots.  A slot that is in use holds the register image
that its task resumes from and the stack it owns.  The table also knows the
task on the processor, the idle task, the slot where the next search starts,
and the segments that new tasks get.
-/

namespace Kernel16

abbrev slotCount : Nat := 16

abbrev TaskId := Fin slotCount

-- The zero is named, since libraries of algebra give `Nat` others.
instance : @NeZero Nat Zero.ofOfNat0 slotCount := ⟨by decide⟩

def TaskId.name (i : TaskId) : String := s!"task#{i.val}"

inductive TaskState where
  | unused
  | ready
  | running
  /-- Waiting for a device; no operation enters this state. -/
  | blocked
  /-- Gone, but its slot and its stack are still held. -/
  | ended
  deriving DecidableEq, Repr

def TaskState.canRun : TaskState → Bool
  | .ready | .running => true
  | _ => false

/-- The memory of a stack, which grows down from the end. -/
structure Stack where
  base : Nat := 0
  size : Nat := 0
  deriving DecidableEq, Repr

structure Slot where
  state : TaskState := .unused
  image : Registers := {}
  stack : Stack := {}
  deriving DecidableEq, Repr

structure TaskTable where
  slots : Vector Slot slotCount := Vector.replicate slotCount {}
  /-- The task on the processor; there is none before the table is initialized. -/
  current : Option TaskId := none
  /-- First slot that the next search looks at. -/
  cursor : TaskId := 0
  segments : Segments := .initial
  idle : Option TaskId := none
  deriving DecidableEq, Repr

/-- Where the images of the slots lie in memory: the first one, and what lies between one and
the next. -/
structure ImagePlacement where
  first : Nat := 0
  gap : Nat := 0
  deriving DecidableEq, Repr

def ImagePlacement.address (p : ImagePlacement) (i : TaskId) : Nat :=
  p.first + i.val * (Registers.byteCount + p.gap)

/-- The images of two slots share no byte. -/
theorem ImagePlacement.apart (p : ImagePlacement) {i j : TaskId} (h : i ≠ j) :
    p.address i + Registers.byteCount ≤ p.address j ∨
      p.address j + Registers.byteCount ≤ p.address i := by
  have hbefore : ∀ {a b : TaskId}, a < b → p.address a + Registers.byteCount ≤ p.address b := by
    intro a b hlt
    have hnext : (a.val + 1) * (Registers.byteCount + p.gap) ≤
        b.val * (Registers.byteCount + p.gap) := Nat.mul_le_mul_right _ hlt
    rw [Nat.succ_mul] at hnext
    unfold address
    omega
  exact (Fin.lt_or_lt_of_ne h).imp hbefore hbefore

namespace TaskTable

def slot (t : TaskTable) (i : TaskId) : Slot := t.slots[i]

def setSlot (t : TaskTable) (i : TaskId) (s : Slot) : TaskTable :=
  { t with slots := t.slots.set i s }

def setState (t : TaskTable) (i : TaskId) (state : TaskState) : TaskTable :=
  t.setSlot i { t.slot i with state }

def isStarted (t : TaskTable) : Bool := t.current.isSome

def slot? (t : TaskTable) (n : Nat) : Option Slot := t.slots[n]?

/-- State of slot `n`, unused past the table. -/
def state (t : TaskTable) (n : Nat) : TaskState :=
  ((t.slot? n).map Slot.state).getD .unused

def used? (t : TaskTable) (n : Nat) : Option Slot :=
  (t.slot? n).filter (·.state ≠ .unused)

def image? (t : TaskTable) (n : Nat) : Option Registers :=
  (t.used? n).map Slot.image

def stack? (t : TaskTable) (n : Nat) : Option Stack :=
  (t.used? n).map Slot.stack

def countTasks (t : TaskTable) : Nat :=
  t.slots.toList.countP (·.state ≠ .unused)

@[simp] theorem slot_setSlot_self (t : TaskTable) (i : TaskId) (s : Slot) :
    (t.setSlot i s).slot i = s := by
  simp [slot, setSlot]

theorem slot_setSlot_of_ne (t : TaskTable) {i j : TaskId} (s : Slot) (h : i ≠ j) :
    (t.setSlot i s).slot j = t.slot j := by
  have hval : i.val ≠ j.val := fun e => h (Fin.ext e)
  simp [slot, setSlot, hval]

theorem slot_setSlot (t : TaskTable) (i j : TaskId) (s : Slot) :
    (t.setSlot i s).slot j = if i = j then s else t.slot j := by
  by_cases h : i = j
  · subst h
    simp
  · simp [h, slot_setSlot_of_ne]

@[simp] theorem current_setSlot (t : TaskTable) (i : TaskId) (s : Slot) :
    (t.setSlot i s).current = t.current := rfl

@[simp] theorem cursor_setSlot (t : TaskTable) (i : TaskId) (s : Slot) :
    (t.setSlot i s).cursor = t.cursor := rfl

@[simp] theorem idle_setSlot (t : TaskTable) (i : TaskId) (s : Slot) :
    (t.setSlot i s).idle = t.idle := rfl

@[simp] theorem segments_setSlot (t : TaskTable) (i : TaskId) (s : Slot) :
    (t.setSlot i s).segments = t.segments := rfl

end TaskTable

end Kernel16
