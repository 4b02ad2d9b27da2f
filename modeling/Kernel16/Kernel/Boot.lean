import Kernel16.Kernel.Traps

/-!
# Booting

The kernel comes up in three phases.  Traps are first, so that a fault in a
later phase is reported; then the heap; then the scheduler, whose idle task
needs a stack from the heap.  A phase that fails ends the boot.
-/

namespace Kernel16

structure BootConfig where
  poolStart : Nat
  poolSize : Nat
  lines : LineSet := .standard
  preemption : Bool := false
  maxLevel : Option Log.Level := some .info
  deriving DecidableEq, Repr

inductive BootFailure where
  | pool (cause : PoolError)
  deriving DecidableEq, Repr

def BootFailure.message : BootFailure → String
  | .pool cause => "heap: " ++ cause.message

namespace KernelM

/-- Runs a phase between the lines that announce it and tell how it went. -/
def bootPhase (name : String) (phase : KernelM (Except BootFailure α)) :
    KernelM (Except BootFailure α) := do
  logMessage .info "boot" (name ++ "...")
  let result ← phase
  match result with
  | .ok _ => logMessage .info "boot" (name ++ " done")
  | .error e => logMessage .error "boot" (name ++ " failed: " ++ e.message)
  return result

def trapPhase (config : BootConfig) : KernelM (Except BootFailure Unit) :=
  bootPhase "traps" do
    setPreemption config.preemption
    initTraps config.lines
    return .ok ()

def heapPhase (config : BootConfig) : KernelM (Except BootFailure Unit) :=
  bootPhase "heap" do
    match ← initHeap config.poolStart config.poolSize with
    | .ok _ => return .ok ()
    | .error e => return .error (.pool e)

def taskPhase : KernelM (Except BootFailure TaskId) :=
  bootPhase "scheduler" do return .ok (← initTasks)

def beginBoot (config : BootConfig) : KernelM Unit :=
  modify fun k => { k with installed := true, logger.maxLevel := config.maxLevel }

/-- Brings the kernel up.  The calling flow becomes the idle task. -/
def boot (config : BootConfig) : KernelM (Except BootFailure TaskId) := do
  beginBoot config
  match ← trapPhase config with
  | .error e => return .error e
  | .ok () =>
      match ← heapPhase config with
      | .error e => return .error e
      | .ok () => taskPhase

/-- Turns the boot flow into the idle task, which yields for ever; `rounds`
yields are run. -/
def idleLoop (rounds : Nat) : KernelM Unit := do
  logMessage .info "boot" "entering idle loop"
  if (← get).installed then setInterrupts true
  yieldTimes rounds

end KernelM

end Kernel16
