import Kernel16.Bus.Program
import Kernel16.Cpu.Registers
import Kernel16.Interrupt.Vector

/-!
# The recording machine

A machine in memory.  It keeps the interrupt flag, a vector table that starts
out as the firmware left it, and a byte latch behind each of the first 256 bus
addresses.  It also keeps a record of what was done to it: the first writes to
the bus, the first switches, the number of halts, and the number of writes to
the bus or the vector table that were made with interrupts enabled.
-/

namespace Kernel16

def busLogSize : Nat := 512

def switchLogSize : Nat := 128

abbrev latchCount : Nat := 256

structure BusWrite where
  address : UInt16
  value : UInt8
  deriving DecidableEq, Repr

/-- One switch, with the addresses of the image it saves to and of the one it loads. -/
structure SwitchEvent where
  save : Nat
  load : Nat
  /-- What the image at `load` was. -/
  loaded : Registers
  deriving DecidableEq, Repr

/-- What a machine answers, as opposed to what is done to it. -/
structure MachineSettings where
  segments : Segments := ⟨stubSegment, dataSegment⟩
  /-- Served vectors without an entry stub. -/
  missing : List UInt8 := []
  /-- The image that a switch stores for the task that leaves, if it stores one. -/
  saved : Option Registers := none
  /-- Switches until the machine gives up, if it does. -/
  switchBudget : Option Nat := none
  deriving DecidableEq, Repr

structure Machine where
  settings : MachineSettings := {}
  interrupts : Bool := false
  halts : Nat := 0
  vectors : Vector FarPointer vectorCount :=
    Vector.ofFn fun v => firmwareEntry (UInt8.ofNat v.val)
  latch : Vector UInt8 latchCount := Vector.replicate latchCount 0
  busLog : Array BusWrite := #[]
  switchEvents : Array SwitchEvent := #[]
  exposedWrites : Nat := 0

/-- Appends to a log that keeps only its first `capacity` entries. -/
def pushBounded (capacity : Nat) (log : Array α) (entry : α) : Array α :=
  if log.size < capacity then log.push entry else log

namespace Machine

/-- The state at power-on.  Settings and the number of halts are kept. -/
def reset (m : Machine) : Machine :=
  { settings := m.settings, halts := m.halts }

/-- The byte last written to a latched address; other addresses read as ones. -/
def read (m : Machine) (address : UInt16) : UInt8 :=
  if h : address.toNat < latchCount then m.latch[address.toNat] else 0xFF

def countWrite (m : Machine) : Machine :=
  if m.interrupts then { m with exposedWrites := m.exposedWrites + 1 } else m

def setLatch (m : Machine) (address : UInt16) (value : UInt8) : Machine :=
  if h : address.toNat < latchCount then { m with latch := m.latch.set address.toNat value } else m

def write (m : Machine) (address : UInt16) (value : UInt8) : Machine :=
  let m := (m.setLatch address value).countWrite
  { m with busLog := pushBounded busLogSize m.busLog ⟨address, value⟩ }

/-- Runs a program to its end and answers its result, the machine after it and
the accesses it made. -/
def run (m : Machine) : BusProgram α → α × Machine × List BusAccess
  | .done result => (result, m, [])
  | .read address next =>
      let value := m.read address
      let (result, after, accesses) := m.run (next value)
      (result, after, .read address value :: accesses)
  | .write address value next =>
      let (result, after, accesses) := (m.write address value).run next
      (result, after, .write address value :: accesses)

def vector (m : Machine) (v : UInt8) : FarPointer := m.vectors.get ⟨v.toNat, v.toNat_lt⟩

def setVector (m : Machine) (v : UInt8) (target : FarPointer) : Machine :=
  let m := m.countWrite
  { m with vectors := m.vectors.set v.toNat target v.toNat_lt }

/-- The entry stub of a vector, if the kernel serves it and the stub is there. -/
def stub? (m : Machine) (v : UInt8) : Option FarPointer :=
  if isServed v && !m.settings.missing.contains v then some (stubEntry v) else none

def recordSwitch (m : Machine) (e : SwitchEvent) : Machine :=
  { m with switchEvents := pushBounded switchLogSize m.switchEvents e }

def halt (m : Machine) : Machine :=
  { m with interrupts := false, halts := m.halts + 1 }

def valuesAt (m : Machine) (address : UInt16) : List UInt8 :=
  (m.busLog.toList.filter (·.address = address)).map BusWrite.value

def writesTo (m : Machine) (address : UInt16) : Nat :=
  m.busLog.toList.countP (·.address = address)

/-- Puts a value into the next of `n` places, if one is left, and counts it. -/
def collectValue (n : Nat) (collected : List UInt8 × Nat) (value : UInt8) : List UInt8 × Nat :=
  (if collected.2 < n then collected.1.set collected.2 value else collected.1, collected.2 + 1)

/-- The first `n` values written to an address, filled up with zeros, and the
number of all of them. -/
def valuesWritten (m : Machine) (n : Nat) (address : UInt16) : List UInt8 × Nat :=
  (m.valuesAt address).foldl (collectValue n) (List.replicate n 0, 0)

/-- The images that were loaded by the switches in the log. -/
def switchLog (m : Machine) : Array Registers := m.switchEvents.map SwitchEvent.loaded

def lastSwitch? (m : Machine) : Option SwitchEvent := m.switchEvents.back?

def clearBusLog (m : Machine) : Machine := { m with busLog := #[] }

def clearSwitchLog (m : Machine) : Machine := { m with switchEvents := #[] }

@[simp] theorem settings_write (m : Machine) (address : UInt16) (value : UInt8) :
    (m.write address value).settings = m.settings := by
  simp only [write, countWrite, setLatch]
  split <;> split <;> rfl

@[simp] theorem interrupts_write (m : Machine) (address : UInt16) (value : UInt8) :
    (m.write address value).interrupts = m.interrupts := by
  simp only [write, countWrite, setLatch]
  split <;> split <;> rfl

theorem read_write (m : Machine) (address : UInt16) (value : UInt8)
    (h : address.toNat < latchCount) (other : UInt16) :
    (m.write address value).read other = if other = address then value else m.read other := by
  have hlatch : (m.write address value).latch = m.latch.set address.toNat value := by
    simp only [write, countWrite, setLatch, h, dite_true]
    split <;> rfl
  unfold read
  by_cases hother : other = address
  · subst hother
    simp [h, hlatch]
  · have hval : address.toNat ≠ other.toNat := fun e => hother (UInt16.toNat_inj.mp e).symm
    simp [hlatch, hother, hval]

theorem vector_eq (m : Machine) (h : v.toNat < vectorCount) : m.vector v = m.vectors[v.toNat] := rfl

theorem vector_setVector (m : Machine) (v : UInt8) (target : FarPointer) (other : UInt8) :
    (m.setVector v target).vector other = if other = v then target else m.vector other := by
  have hvectors : (m.setVector v target).vectors = m.vectors.set v.toNat target v.toNat_lt := by
    simp only [setVector, countWrite]
    split <;> rfl
  rw [vector_eq _ other.toNat_lt, vector_eq m other.toNat_lt]
  simp only [hvectors]
  by_cases hother : other = v
  · subst hother
    simp
  · have hval : v.toNat ≠ other.toNat := fun e => hother (UInt8.toNat_inj.mp e).symm
    simp [hother, hval]

theorem run_bind (m : Machine) (p : BusProgram α) (f : α → BusProgram β) :
    m.run (p.bind f) =
      let (a, middle, first) := m.run p
      let (b, last, second) := middle.run (f a)
      (b, last, first ++ second) := by
  induction p generalizing m with
  | done value => simp [run]
  | read address next ih => simp [BusProgram.bind, run, ih]
  | write address value next ih => simp [BusProgram.bind, run, ih]

end Machine

end Kernel16
