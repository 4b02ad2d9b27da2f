import Kernel16.Kernel.State

/-!
# Locks that mask interrupts

A lock remembers the interrupt flag, clears it, and puts it back when it is
released, so that a handler never runs while shared state is half changed.
Without an installed machine there is no flag to touch.
-/

namespace Kernel16

namespace KernelM

def maskInterrupts : KernelM Bool := do
  if (← get).installed then
    let before ← interruptFlag
    setInterrupts false
    return before
  else return false

def restoreInterrupts (before : Bool) : KernelM Unit := do
  if before && (← get).installed then setInterrupts true

/-- Notes that shared state is used now. -/
def noteAccess (resource : Resource) : KernelM Unit := do
  note (.access resource (← interruptFlag))

def withLock (resource : Resource) (body : KernelM α) : KernelM α := do
  let before ← maskInterrupts
  noteAccess resource
  let result ← body
  restoreInterrupts before
  return result

end KernelM

/-- A lock around a value.  While it is held it remembers the interrupt flag
from before. -/
structure SpinLock (α : Type) where
  value : α
  held : Option Bool := none
  deriving DecidableEq, Repr

namespace SpinLock

def isLocked (l : SpinLock α) : Bool := l.held.isSome

/-- Takes a lock that is free; a lock that is held is never got. -/
def acquire (l : SpinLock α) : KernelM (Option (SpinLock α)) := do
  if l.isLocked then return none
  else
    let before ← KernelM.maskInterrupts
    return some { l with held := some before }

def release (l : SpinLock α) : KernelM (Bool × SpinLock α) := do
  match l.held with
  | none => return (false, l)
  | some before =>
      KernelM.restoreInterrupts before
      return (true, { l with held := none })

end SpinLock

end Kernel16
