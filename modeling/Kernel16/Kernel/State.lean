import Kernel16.Heap.Layout
import Kernel16.Interrupt.HandlerTable
import Kernel16.Log.Logger
import Kernel16.Machine
import Kernel16.Task.Ending
import Kernel16.Task.Rotation
import Kernel16.Task.Creation

/-!
# The kernel's state

All state that the parts of the kernel share, with the machine they run on.
A machine exists from the start, but the kernel uses it for its own purposes
only once it is installed.  The trace lists, in order, what happened to the
machine and to shared state.

An operation of the kernel either returns or stops; a stop leaves the state as
it was at that point.
-/

namespace Kernel16

/-- State that is only touched under a lock. -/
inductive Resource where
  | heap
  | tasks
  | handlers
  deriving DecidableEq, Repr

inductive Event where
  | bus (access : BusAccess)
  | vectorWrite (vector : UInt8) (target : FarPointer)
  /-- The machine was halted; the flag is the one on entry. -/
  | halt (interrupts : Bool)
  /-- A switch, with the image it loaded, the ticks so far and the interrupt flag. -/
  | switch (switch : Switch) (image : Registers) (ticks : UInt32) (interrupts : Bool)
  | handler (id : HandlerId) (line : UInt8)
  | tick (count : UInt32)
  /-- Shared state was used with this interrupt flag. -/
  | access (resource : Resource) (interrupts : Bool)
  deriving DecidableEq, Repr

structure Kernel where
  arena : Arena := {}
  tasks : TaskTable := {}
  /-- Where the task table keeps its images. -/
  placement : ImagePlacement := {}
  handlerTable : HandlerTable := { controller := ⟨lineVectorBase⟩ }
  /-- Timer interrupts since the traps were set up. -/
  ticks : UInt32 := 0
  /-- Whether the timer takes the processor from a task. -/
  preemption : Bool := false
  halted : Bool := false
  machine : Machine := {}
  installed : Bool := false
  logger : Log.Logger := {}
  trace : Array Event := #[]

inductive Stop where
  | cpuHalted
  /-- The kernel halted for this reason, but there is no machine to stop. -/
  | noMachine (reason : String)
  /-- The machine does no more switches. -/
  | switchBudget
  deriving DecidableEq, Repr

def Stop.message : Stop → String
  | .cpuHalted => "cpu halted"
  | .noMachine reason => "kernel halted without a platform: " ++ reason
  | .switchBudget => "switch limit"

abbrev KernelM := EStateM Stop Kernel

/-- What each handler does when it is called for a line. -/
abbrev Handlers := HandlerId → UInt8 → KernelM Unit

namespace Kernel

/-- Makes `m` the machine of the kernel, unless it has one already. -/
def install (k : Kernel) (m : Machine) : Kernel :=
  if k.installed then k else { k with machine := m, installed := true }

def setInterrupts (k : Kernel) (enabled : Bool) : Kernel :=
  { k with machine := { k.machine with interrupts := enabled } }

/-- A switch as the machine is told of it. -/
def switchEvent (k : Kernel) (switch : Switch) : SwitchEvent where
  save := k.placement.address switch.outgoing
  load := k.placement.address switch.incoming
  loaded := switch.load k.tasks

end Kernel

namespace KernelM

def note (e : Event) : KernelM Unit :=
  modify fun k => { k with trace := k.trace.push e }

def emit (r : Log.Record) : KernelM Unit :=
  modify fun k => { k with logger := k.logger.emit r }

def logMessage (level : Log.Level) (target message : String) : KernelM Unit :=
  emit (.of level target message)

/-! ## The machine -/

def interruptFlag : KernelM Bool := do return (← get).machine.interrupts

def setInterrupts (enabled : Bool) : KernelM Unit :=
  modify (·.setInterrupts enabled)

def runBus (p : BusProgram α) : KernelM α :=
  modifyGet fun k =>
    let (result, machine, accesses) := k.machine.run p
    (result, { k with machine, trace := k.trace ++ accesses.map Event.bus })

def setVector (vector : UInt8) (target : FarPointer) : KernelM Unit := do
  modify fun k => { k with machine := k.machine.setVector vector target }
  note (.vectorWrite vector target)

/-- Stores the image of the task that left, if the machine stores one. -/
def saveOutgoing (switch : Switch) : KernelM Unit :=
  modify fun k =>
    match k.machine.settings.saved with
    | some image => { k with tasks := switch.save image k.tasks }
    | none => k

/-- Takes one switch off the machine's budget and stops when it is used up. -/
def spendSwitch : KernelM Unit := do
  let k ← get
  match k.machine.settings.switchBudget with
  | none => return
  | some left =>
      set { k with machine.settings.switchBudget := some (left - 1) }
      if left ≤ 1 then throw .switchBudget

/-- The machine's switch.  It returns at once, as if the task that got the
processor had handed it straight back. -/
def switchTasks (switch : Switch) : KernelM Unit := do
  let k ← get
  let e := k.switchEvent switch
  note (.switch switch (switch.load k.tasks) k.ticks k.machine.interrupts)
  modify fun k => { k with machine := k.machine.recordSwitch e }
  saveOutgoing switch
  spendSwitch

def haltMachine : KernelM α := do
  note (.halt (← interruptFlag))
  modify fun k => { k with machine := k.machine.halt }
  throw .cpuHalted

end KernelM

end Kernel16
