import Kernel16.Cpu.Registers
import Kernel16.Interrupt.Vector

/-!
# Faults

An exception that the kernel cannot recover from is described by its vector
and, if the interrupted registers are known, by the place where it happened.
-/

namespace Kernel16

structure Fault where
  vector : UInt8
  place : Option FarPointer
  flags : Option UInt16
  deriving DecidableEq, Repr

namespace Fault

def ofFrame (vector : UInt8) (frame : Option TrapFrame) : Fault where
  vector := vector
  place := frame.map fun f => ⟨f.cs, f.ip⟩
  flags := frame.map (·.flags)

/-- The name of the exception, for those that have one of their own. -/
def name? (f : Fault) : Option String :=
  if f.vector = 0 then some "Divide by Zero"
  else if f.vector = 6 then some "Invalid Opcode"
  else none

def text (f : Fault) : String :=
  (match f.name? with
    | some name => name ++ " Exception!"
    | none => "Unhandled Exception " ++ Text.hex 2 f.vector.toNat ++ "!") ++
  (match f.place with
    | some place => " at " ++ place.text
    | none => "") ++
  (match f.flags with
    | some flags => " flags=" ++ Text.hex 4 flags.toNat
    | none => "")

end Fault

end Kernel16
