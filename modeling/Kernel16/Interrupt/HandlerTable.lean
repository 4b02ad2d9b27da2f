import Kernel16.Interrupt.Controller
import Kernel16.Interrupt.Fault

/-!
# Handlers of controller lines

A handler table holds at most one handler for each line of its controllers.
Handlers are known by number; what a handler does is up to the kernel that
calls it.
-/

namespace Kernel16

abbrev HandlerId := Nat

structure HandlerTable where
  controller : Controller
  handlers : Vector (Option HandlerId) lineCount := Vector.replicate lineCount none
  deriving DecidableEq, Repr

inductive Outcome where
  /-- An exception; whoever asked has to stop the machine. -/
  | fatal (fault : Fault)
  /-- A line that was acknowledged, with or without a handler for it. -/
  | served (line : UInt8) (handled : Bool)
  /-- A vector beyond the lines. -/
  | ignored
  deriving DecidableEq, Repr

namespace HandlerTable

/-- The handler of a line; lines past the last have none. -/
def handler? (t : HandlerTable) (line : UInt8) : Option HandlerId :=
  if h : line.toNat < lineCount then t.handlers[line.toNat] else none

def setHandler (t : HandlerTable) (line : UInt8) (handler : Option HandlerId) : HandlerTable :=
  if h : line.toNat < lineCount then
    { t with handlers := t.handlers.set line.toNat handler }
  else t

/-- Installs a handler and answers the one it replaces. -/
def attach (t : HandlerTable) (line : UInt8) (handler : HandlerId) :
    Option HandlerId × HandlerTable :=
  (t.handler? line, t.setHandler line (some handler))

def detach (t : HandlerTable) (line : UInt8) : Option HandlerId × HandlerTable :=
  (t.handler? line, t.setHandler line none)

theorem handler?_setHandler (t : HandlerTable) {line : UInt8} (handler : Option HandlerId)
    (h : line.toNat < lineCount) (other : UInt8) :
    (t.setHandler line handler).handler? other =
      if other = line then handler else t.handler? other := by
  unfold handler? setHandler
  by_cases hother : other = line
  · subst hother
    simp [h]
  · have hval : line.toNat ≠ other.toNat := fun e => hother (UInt8.toNat_inj.mp e).symm
    simp [h, hother, hval]

theorem setHandler_of_le (t : HandlerTable) {line : UInt8} (handler : Option HandlerId)
    (h : lineCount ≤ line.toNat) : t.setHandler line handler = t := by
  have hnot : ¬ line.toNat < lineCount := by omega
  simp only [setHandler, hnot, dite_false]

@[simp] theorem controller_setHandler (t : HandlerTable) (line : UInt8)
    (handler : Option HandlerId) : (t.setHandler line handler).controller = t.controller := by
  unfold setHandler
  split <;> rfl

end HandlerTable

end Kernel16
