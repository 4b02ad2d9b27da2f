import Kernel16.Kernel.State

/-!
# Halting

A halt is final: the kernel remembers it, masks interrupts, reports the reason
and stops the machine.
-/

namespace Kernel16.KernelM

def halt (reason : String) : KernelM α := do
  modify fun k => { k with halted := true }
  if (← get).installed then setInterrupts false
  logMessage .error "halt" ("KERNEL PANIC: " ++ reason)
  logMessage .error "halt" "System halted."
  if (← get).installed then haltMachine else throw (.noMachine reason)

end Kernel16.KernelM
