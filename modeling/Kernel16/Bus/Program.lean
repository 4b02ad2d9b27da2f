/-!
# Programs of bus accesses

The devices are reached over a bus of byte-wide registers with sixteen-bit
addresses.  A device driver is a program of reads and writes: what it does
next may depend on the bytes it has read.  Because a program is data, it can be
run to its end, or only some accesses far and resumed after an interruption.
-/

namespace Kernel16

/-- One access, with the byte that went over the bus. -/
inductive BusAccess where
  | read (address : UInt16) (value : UInt8)
  | write (address : UInt16) (value : UInt8)
  deriving DecidableEq, Repr

inductive BusProgram (α : Type) where
  | done (value : α)
  | read (address : UInt16) (next : UInt8 → BusProgram α)
  | write (address : UInt16) (value : UInt8) (next : BusProgram α)

namespace BusProgram

def bind (p : BusProgram α) (f : α → BusProgram β) : BusProgram β :=
  match p with
  | .done value => f value
  | .read address next => .read address fun b => (next b).bind f
  | .write address value next => .write address value (next.bind f)

instance : Monad BusProgram where
  pure := .done
  bind := bind

def input (address : UInt16) : BusProgram UInt8 := .read address .done

def output (address : UInt16) (value : UInt8) : BusProgram Unit :=
  .write address value (.done ())

def outputs : List (UInt16 × UInt8) → BusProgram Unit
  | [] => .done ()
  | (address, value) :: rest => .write address value (outputs rest)

@[simp] theorem bind_eq (p : BusProgram α) (f : α → BusProgram β) : p >>= f = p.bind f := rfl

@[simp] theorem done_bind (value : α) (f : α → BusProgram β) :
    (BusProgram.done value).bind f = f value := rfl

end BusProgram

end Kernel16
