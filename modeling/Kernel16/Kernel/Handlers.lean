import Kernel16.Kernel.Traps

/-!
# A few handlers

Handlers of the shapes that drivers have: one that only takes note, one that
removes or replaces itself, one that yields, one that raises the next line, and
one that logs.
-/

namespace Kernel16

inductive HandlerBody where
  | quiet
  /-- Runs once: removes the handler of its line. -/
  | once
  /-- Leaves its line to another handler. -/
  | handOver (next : HandlerId)
  | yielding
  /-- Raises the line after its own, unless it is the last. -/
  | chaining
  | reporting
  deriving DecidableEq, Repr

/-- Runs a body for a line; `raise` dispatches a vector. -/
def HandlerBody.run (raise : UInt8 → KernelM Unit) (line : UInt8) : HandlerBody → KernelM Unit
  | .quiet => return
  | .once => do let _ ← KernelM.detachHandler line
  | .handOver next => do let _ ← KernelM.attachHandler line next
  | .yielding => KernelM.yield
  | .chaining => do
      if line.toNat + 1 < lineCount then raise (lineVectorBase + 1 + line)
  | .reporting => KernelM.logMessage .info "driver" s!"line {line.toNat}"

/-- Handlers with the given bodies, which raise further lines up to `depth` deep. -/
def Handlers.nested (body : HandlerId → HandlerBody) : (depth : Nat) → Handlers
  | 0, _, _ => return
  | depth + 1, id, line =>
      (body id).run (fun vector => do
        let _ ← KernelM.dispatch (nested body depth) vector none) line

/-- Handlers with the given bodies.  A chain of raised lines goes up, so it is
no deeper than the number of lines. -/
def Handlers.ofBodies (body : HandlerId → HandlerBody) : Handlers :=
  Handlers.nested body lineCount

end Kernel16
