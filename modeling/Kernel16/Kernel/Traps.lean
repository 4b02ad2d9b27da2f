import Kernel16.Kernel.Tasks

/-!
# Traps

Setting up the controllers and the vector table, and dispatching vectors.
Exceptions stop the machine.  A controller line runs its handler and is then
acknowledged, whether it has a handler or not; the timer line counts a tick and
may take the processor from the task.
-/

namespace Kernel16

open Text

namespace KernelM

/-- Routes one vector with the handlers and controllers of a handler table. -/
def route (d : HandlerTable) (run : Handlers) (vector : UInt8)
    (frame : Option TrapFrame) : KernelM Outcome := do
  if vector < d.controller.base then return .fatal (.ofFrame vector frame)
  else match d.controller.lineOf? vector with
    | none =>
        logMessage .warn "traps" ("spurious vector " ++ hex 2 vector.toNat ++ " ignored")
        return .ignored
    | some line =>
        let handler := d.handler? line
        match handler with
        | some id =>
            note (.handler id line)
            run id line
        | none =>
            logMessage .warn "traps"
              (s!"Unhandled IRQ {line.toNat} (Vector " ++ hex 2 vector.toNat ++ ")")
        runBus (Controller.acknowledge line)
        return .served line handler.isSome

/-- A copy of the kernel's handler table; a handler that changes the table does
not change the dispatch that called it. -/
def handlerTableCopy : KernelM HandlerTable :=
  withLock .handlers do return (← get).handlerTable

/-- Points the vectors that the kernel serves at their entry stubs and answers
how many there were.  Other vectors keep their entries. -/
def installStubs : KernelM Nat := do
  let installed ← servedVectors.foldlM (fun installed vector => do
    match (← get).machine.stub? vector with
    | some stub =>
        setVector vector stub
        return installed + 1
    | none =>
        logMessage .warn "traps" ("no entry stub for vector " ++ hex 2 vector.toNat)
        return installed) 0
  logMessage .debug "traps" s!"installed {installed}/{servedVectors.length} trap stubs"
  return installed

/-- Sets up controllers and vectors, enables some lines and then interrupts.
Interrupts stay disabled until everything is in place. -/
def initTraps (lines : LineSet) : KernelM Unit := do
  setInterrupts false
  let controller := (← handlerTableCopy).controller
  runBus controller.setUp
  let installed ← installStubs
  let lines := lines.withCascade
  runBus (Controller.enable lines)
  modify fun k => { k with ticks := 0 }
  logMessage .info "traps"
    ("pic remapped to " ++ hex 2 controller.base.toNat ++ "/" ++
      hex 2 controller.secondaryBase.toNat ++
      s!", {installed} vectors installed, lines " ++ hex 4 lines.bits.toNat ++ " enabled")
  setInterrupts true

def attachHandler (line : UInt8) (handler : HandlerId) : KernelM (Option HandlerId) := do
  if lineCount ≤ line.toNat then
    logMessage .warn "traps" s!"handler for invalid line {line.toNat} ignored"
    return none
  else
    withLock .handlers (modifyGet fun k =>
      let (before, handlerTable) := k.handlerTable.attach line handler
      (before, { k with handlerTable }))

def detachHandler (line : UInt8) : KernelM (Option HandlerId) :=
  withLock .handlers (modifyGet fun k =>
    let (before, handlerTable) := k.handlerTable.detach line
    (before, { k with handlerTable }))

/-- Enables a line; lines past the last are passed over. -/
def enableLine (line : UInt8) : KernelM Unit := do
  match LineSet.single? line with
  | some lines =>
      let _ ← handlerTableCopy
      runBus (Controller.enable lines)
  | none => return

/-- Disables a line; lines past the last are passed over. -/
def disableLine (line : UInt8) : KernelM Unit := do
  match LineSet.single? line with
  | some lines =>
      let _ ← handlerTableCopy
      runBus (Controller.disable lines)
  | none => return

def setPreemption (enabled : Bool) : KernelM Unit :=
  modify fun k => { k with preemption := enabled }

def countTick : KernelM Unit := do
  modify fun k => { k with ticks := k.ticks + 1 }
  note (.tick (← get).ticks)

/-- What follows the routing of a vector: an exception halts the kernel, the
timer counts and may yield. -/
def conclude : Outcome → KernelM Unit
  | .fatal fault => halt fault.text
  | .served line _ => do
      if line = timerLine then
        countTick
        if (← get).preemption then yield
  | .ignored => return

/-- Dispatches one vector.  Without an installed machine nothing can be
acknowledged and the vector is ignored. -/
def dispatch (run : Handlers) (vector : UInt8) (frame : Option TrapFrame) :
    KernelM Outcome := do
  if (← get).installed then
    let d ← handlerTableCopy
    let outcome ← route d run vector frame
    conclude outcome
    return outcome
  else
    logMessage .error "traps" ("vector " ++ hex 2 vector.toNat ++ " before platform install")
    return .ignored

/-- The entry from the stubs, which pass the vector as a wide number. -/
def enterTrap (run : Handlers) (vector : Nat) (frame : Option TrapFrame) : KernelM Unit := do
  let _ ← dispatch run (UInt8.ofNat vector) frame

end KernelM

end Kernel16
