import Kernel16.Kernel.Lock

/-!
# The kernel heap

The heap operations under the heap lock, each with its line in the log.  On top
of them stand requests with an alignment.
-/

namespace Kernel16

open Text

namespace Arena

def attempt (f : Arena → Except ε (α × Arena)) (s : Arena) : Except ε α × Arena :=
  match f s with
  | .ok (result, s) => (.ok result, s)
  | .error e => (.error e, s)

def attemptAllocate (n : Nat) (s : Arena) : Option Nat × Arena :=
  match s.allocate n with
  | some (address, s) => (some address, s)
  | none => (none, s)

end Arena

namespace KernelM

def onHeap (f : Arena → α × Arena) : KernelM α :=
  withLock .heap (modifyGet fun k =>
    let (result, arena) := f k.arena
    (result, { k with arena }))

def initHeap (start size : Nat) : KernelM (Except PoolError Nat) := do
  let result ← onHeap (Arena.attempt (·.init start size))
  match result with
  | .ok managed =>
      logMessage .info "heap" ("pool @ " ++ hex 1 start ++ s!", {managed} bytes managed")
  | .error e => logMessage .error "heap" ("init rejected: " ++ e.message)
  return result

def heapIsReady : KernelM Bool := onHeap fun s => (s.heap.hasPool, s)

def heapUsage : KernelM PoolUsage := onHeap fun s => (s.usage, s)

/-- The address of a new payload, or zero. -/
def allocate (n : Nat) : KernelM Nat := do
  match ← onHeap (Arena.attemptAllocate n) with
  | some address =>
      logMessage .trace "heap" ("alloc ptr=" ++ hex 1 address ++ s!" requested={n}")
      return address
  | none =>
      logMessage .debug "heap" s!"alloc failed requested={n}"
      return 0

def reserveStack (n : Nat) : KernelM (Option Nat) := do
  let stack ← onHeap (Arena.attemptAllocate n)
  if stack.isNone then logMessage .debug "heap" s!"stack alloc failed requested={n}"
  return stack

/-- Gives a payload back.  Address zero is passed over in silence, other
addresses that are not taken back with a warning. -/
def free (address : Nat) : KernelM Unit := do
  match ← onHeap (Arena.attempt (·.free address)) with
  | .ok size =>
      logMessage .trace "heap" ("free ptr=" ++ hex 1 address ++ s!" block={size}")
  | .error .null => return
  | .error e =>
      logMessage .warn "heap"
        ("free rejected ptr=" ++ hex 1 address ++ " reason=" ++ e.reason)

/-! ## Requests with an alignment -/

def modifyMemory (f : Memory → Memory) : KernelM Unit :=
  modify fun k => { k with arena.memory := f k.arena.memory }

def allocateAligned (layout : Layout) : KernelM Nat := do
  match layout.request? with
  | none => return 0
  | some n =>
      let raw ← allocate n
      if raw = 0 || layout.isNatural then return raw
      else
        let address := layout.place raw
        modifyMemory (·.setWord (Layout.slot address) raw)
        return address

def freeAligned (address : Nat) (layout : Layout) : KernelM Unit := do
  if layout.isNatural then free address
  else if address = 0 then return
  else free ((← get).arena.memory.word (Layout.slot address))

def allocateZeroed (layout : Layout) : KernelM Nat := do
  let address ← allocateAligned layout
  if address ≠ 0 then modifyMemory (·.writeBytes address (List.replicate layout.size 0))
  return address

/-- Moves a payload to a new one of layout `new` and gives the old one back,
unless there is no memory for the new one. -/
def reallocate (address : Nat) (old new : Layout) : KernelM Nat := do
  let target ← allocateAligned new
  if target ≠ 0 then
    modifyMemory fun m => m.writeBytes target (m.readBytes address (min old.size new.size))
    freeAligned address old
  return target

end KernelM

end Kernel16
