import Kernel16.Kernel.Halt
import Kernel16.Kernel.Heap

/-!
# Scheduling

Creating tasks, and handing the processor from one to the next.  A task gives
the processor up by yielding: tasks that ended are reaped first, then the next
one is picked and switched to, all with interrupts masked.
-/

namespace Kernel16.KernelM

open Text

def onTasks (body : KernelM α) : KernelM α := withLock .tasks body

/-- The segments of new tasks: those of the machine, once it is installed. -/
def newTaskSegments : KernelM Segments := do
  let k ← get
  return if k.installed then k.machine.settings.segments else .initial

/-- Entry address of the idle task.  The flow that sets up the tasks becomes
the idle task, so it does not need to be entered anywhere. -/
def idleStart : Nat := 0

def initTaskTable (segments : Segments) (k : Kernel) : Except CreationError TaskId × Kernel :=
  let (result, tasks, arena) := TaskTable.init k.arena segments idleStart
  (result, { k with tasks, arena })

def createInTable (entry stackSize : Nat) (k : Kernel) : Except CreationError TaskId × Kernel :=
  match k.tasks.create k.arena entry stackSize with
  | .ok (i, tasks, arena) => (.ok i, { k with tasks, arena })
  | .error e => (.error e, k)

def initTasks : KernelM TaskId := do
  let segments ← newTaskSegments
  match ← onTasks (withLock .heap (modifyGet (initTaskTable segments))) with
  | .ok i =>
      logMessage .info "sched" ("initialized, idle " ++ TaskId.name i ++
        " cs=" ++ hex 4 segments.code.toNat ++ " ds=" ++ hex 4 segments.data.toNat)
      return i
  | .error e => halt ("failed to create idle task: " ++ e.message)

def newTask (entry stackSize : Nat) : KernelM (Except CreationError TaskId) := do
  let result ← onTasks (withLock .heap (modifyGet (createInTable entry stackSize)))
  match result with
  | .ok i => logMessage .debug "sched" ("created " ++ TaskId.name i ++ s!" stack={stackSize}")
  | .error e => logMessage .warn "sched" ("create_task failed: " ++ e.message)
  return result

def reapTasks (k : Kernel) : List Log.Record × Kernel :=
  let done := k.tasks.reap k.arena
  (done.warnings, { k with tasks := done.table, arena := done.arena })

def rotateTasks (k : Kernel) : Option Switch × Kernel :=
  match k.tasks.rotate with
  | some (switch, tasks) => (some switch, { k with tasks })
  | none => (none, k)

/-- Reaps and picks.  The heap lock is released before the table is used again. -/
def nextSwitch : KernelM (Option Switch) :=
  onTasks do
    let warnings ← withLock .heap (modifyGet reapTasks)
    warnings.forM emit
    noteAccess .tasks
    modifyGet rotateTasks

/-- Hands the processor to the next task.  Returns when this task has it again,
or at once if no other task can run.  A halted kernel never switches. -/
def yield : KernelM Unit := do
  let k ← get
  if k.halted || !k.installed then return
  else
    let before ← interruptFlag
    setInterrupts false
    match ← nextSwitch with
    | some switch =>
        logMessage .trace "sched"
          ("switch " ++ TaskId.name switch.outgoing ++ " -> " ++ TaskId.name switch.incoming)
        switchTasks switch
    | none => pure ()
    if before then setInterrupts true

def yieldTimes : Nat → KernelM Unit
  | 0 => return
  | n + 1 => do
      yield
      yieldTimes n

def markEnded (k : Kernel) : Option TaskId × Kernel :=
  match k.tasks.endCurrent with
  | some (i, tasks) => (some i, { k with tasks })
  | none => (none, k)

/-- Ends the task on the processor.  It yields for ever; `rounds` yields are run. -/
def endTask (rounds : Nat) : KernelM Unit := do
  match ← onTasks (modifyGet markEnded) with
  | some i => logMessage .debug "sched" (TaskId.name i ++ " exiting")
  | none => logMessage .warn "sched" "exit_current outside an exitable task"
  yieldTimes rounds

def taskOnProcessor : KernelM (Option TaskId) := onTasks do return (← get).tasks.current

def stateOf (n : Nat) : KernelM TaskState := onTasks do return (← get).tasks.state n

def imageOf (n : Nat) : KernelM (Option Registers) :=
  onTasks do return (← get).tasks.image? n

def countTasks : KernelM Nat := onTasks do return (← get).tasks.countTasks

end Kernel16.KernelM
