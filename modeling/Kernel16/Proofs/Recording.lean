import Kernel16.Machine
import Mathlib.Data.List.DropRight
import Mathlib.Data.List.Range

/-!
# What the records tell

A machine keeps several records of what was done to it.  They are emptied on
different occasions, and two of them are full at some point.  Here the whole
history of a machine is known, and each record is read off it: the part of the
history that counts begins after the last request that empties the record, and
a log shows the front of that part only.  The latches, the vectors and the count
of writes with interrupts enabled depend neither on the room in the log nor on
its being cleared.
-/

namespace Kernel16

inductive MachineRequest where
  | read (address : UInt16)
  | write (address : UInt16) (value : UInt8)
  | readVector (v : UInt8)
  | setVector (v : UInt8) (target : FarPointer)
  | setInterrupts (enabled : Bool)
  | switch (e : SwitchEvent)
  | clearBusLog
  | clearSwitchLog
  | reset
  deriving DecidableEq, Repr

namespace MachineRequest

def emptiesBusLog : MachineRequest → Bool
  | .clearBusLog | .reset => true
  | _ => false

def emptiesSwitchLog : MachineRequest → Bool
  | .clearSwitchLog | .reset => true
  | _ => false

def isReset : MachineRequest → Bool
  | .reset => true
  | _ => false

/-- Whether the bus or the vector table is written. -/
def isWrite : MachineRequest → Bool
  | .write _ _ | .setVector _ _ => true
  | _ => false

def busWrite? : MachineRequest → Option BusWrite
  | .write address value => some ⟨address, value⟩
  | _ => none

def switch? : MachineRequest → Option SwitchEvent
  | .switch e => some e
  | _ => none

def valueFor? (address : UInt16) : MachineRequest → Option UInt8
  | .write a value => if a = address then some value else none
  | _ => none

def targetFor? (v : UInt8) : MachineRequest → Option FarPointer
  | .setVector w target => if w = v then some target else none
  | _ => none

def flag? : MachineRequest → Option Bool
  | .setInterrupts enabled => some enabled
  | _ => none

end MachineRequest

/-! ## Histories -/

/-- What was asked of a machine, first request first. -/
abbrev History := List MachineRequest

namespace History

open MachineRequest

variable (h : History)

/-- What came after the last request that `ends` picks. -/
def since (ends : MachineRequest → Bool) : History := h.rtakeWhile (! ends ·)

/-- What the last request that says something says, and `start` if none does. -/
def last (f : MachineRequest → Option α) (start : α) : α := (h.filterMap f).getLast?.getD start

/-- What the requests said after the last one that `ends` picks. -/
def said (ends : MachineRequest → Bool) (f : MachineRequest → Option α) : List α :=
  (h.since ends).filterMap f

def busWrites : List BusWrite := h.said emptiesBusLog busWrite?

/-- The values that were written to an address and are in the log. -/
def loggedAt (address : UInt16) : List UInt8 :=
  ((h.busWrites.take busLogSize).filter fun w => w.address = address).map BusWrite.value

def switches : List SwitchEvent := h.said emptiesSwitchLog switch?

/-- The images that the switches loaded. -/
def images : List Registers := h.switches.map SwitchEvent.loaded

def value (address : UInt16) : UInt8 := (h.since isReset).last (valueFor? address) 0

def target (v : UInt8) : FarPointer := (h.since isReset).last (targetFor? v) (firmwareEntry v)

def interrupts : Bool := (h.since isReset).last flag? false

/-- The number of writes before which interrupts were enabled last. -/
def exposedIn : Nat :=
  (List.range h.length).countP fun i => h[i]?.any isWrite && last (h.take i) flag? false

def exposedWrites : Nat := (h.since isReset).exposedIn

theorem since_append (h : History) (r : MachineRequest) (ends : MachineRequest → Bool) :
    since (h ++ [r]) ends = if ends r then [] else h.since ends ++ [r] := by
  rw [since, List.rtakeWhile_concat, since]
  cases ends r <;> rfl

theorem said_append (h : History) (r : MachineRequest) (ends : MachineRequest → Bool)
    (f : MachineRequest → Option α) :
    said (h ++ [r]) ends f = if ends r then [] else h.said ends f ++ (f r).toList := by
  rw [said, since_append, said]
  split
  next => rfl
  next =>
    rw [List.filterMap_append]
    cases hr : f r <;> simp [hr]

theorem last_append (h : History) (r : MachineRequest) (f : MachineRequest → Option α)
    (start : α) : last (h ++ [r]) f start = (f r).getD (h.last f start) := by
  rw [last, List.filterMap_append, last]
  cases hr : f r with
  | none => simp [hr]
  | some x => simp [hr]

theorem last_since_append (h : History) (r : MachineRequest) (f : MachineRequest → Option α)
    (start : α) :
    (since (h ++ [r]) isReset).last f start =
      if isReset r then start else (f r).getD ((h.since isReset).last f start) := by
  rw [since_append]
  split
  next => rfl
  next => exact last_append _ _ _ _

theorem exposedIn_append (h : History) (r : MachineRequest) :
    exposedIn (h ++ [r]) = h.exposedIn + if isWrite r && h.last flag? false then 1 else 0 := by
  have hbefore : (List.range h.length).countP (fun i =>
      (h ++ [r])[i]?.any isWrite && last ((h ++ [r]).take i) flag? false) = h.exposedIn := by
    refine List.countP_congr ?_
    intro i hi
    have hlt := List.mem_range.mp hi
    rw [List.getElem?_append_left hlt, List.take_append_of_le_length (Nat.le_of_lt hlt)]
  have hlast : (h ++ [r])[h.length]?.any isWrite = isWrite r := by
    simp
  rw [exposedIn, List.length_append, List.length_singleton, List.range_succ, List.countP_append,
    hbefore, List.countP_singleton, hlast, List.take_left]

end History

/-! ## One request -/

theorem toList_pushBounded {capacity : Nat} {log : Array α} {entries : List α}
    (h : log.toList = entries.take capacity) (entry : α) :
    (pushBounded capacity log entry).toList = (entries ++ [entry]).take capacity := by
  have hsize : log.size = min capacity entries.length := by
    rw [← Array.length_toList, h, List.length_take]
  unfold pushBounded
  split
  next hroom =>
    have hlength : entries.length < capacity := by omega
    rw [Array.toList_push, h, List.take_of_length_le (by omega), List.take_of_length_le]
    rw [List.length_append, List.length_singleton]
    omega
  next hfull =>
    have hlength : capacity ≤ entries.length := by omega
    rw [h, List.take_append_of_le_length hlength]

theorem toList_log {log : Array α} {capacity : Nat} {h : History} {ends : MachineRequest → Bool}
    {f : MachineRequest → Option α} (hlog : log.toList = (h.said ends f).take capacity)
    (r : MachineRequest) :
    (if ends r then #[] else (f r).elim log (pushBounded capacity log)).toList =
      (History.said (h ++ [r]) ends f).take capacity := by
  rw [History.said_append]
  split
  next => exact List.take_nil.symm
  next =>
    cases f r with
    | none => rw [Option.toList_none, List.append_nil]; exact hlog
    | some entry => exact toList_pushBounded hlog entry

namespace Machine

open MachineRequest

variable (m : Machine) (r : MachineRequest)

def perform (m : Machine) : MachineRequest → Machine
  | .read _ | .readVector _ => m
  | .write address value => m.write address value
  | .setVector v target => m.setVector v target
  | .setInterrupts enabled => { m with interrupts := enabled }
  | .switch e => m.recordSwitch e
  | .clearBusLog => m.clearBusLog
  | .clearSwitchLog => m.clearSwitchLog
  | .reset => m.reset

def performAll (m : Machine) (h : History) : Machine := h.foldl perform m

theorem write_eq (address : UInt16) (value : UInt8) :
    m.write address value =
      { m with
        latch := (m.setLatch address value).latch
        exposedWrites := m.exposedWrites + if m.interrupts then 1 else 0
        busLog := pushBounded busLogSize m.busLog ⟨address, value⟩ } := by
  unfold write countWrite setLatch
  dsimp only
  split <;> split <;> simp_all

theorem setVector_eq (v : UInt8) (target : FarPointer) :
    m.setVector v target =
      { m with
        vectors := m.vectors.set v.toNat target v.toNat_lt
        exposedWrites := m.exposedWrites + if m.interrupts then 1 else 0 } := by
  unfold setVector countWrite
  dsimp only
  split <;> rfl

theorem busLog_perform :
    (m.perform r).busLog =
      if emptiesBusLog r then #[]
      else (busWrite? r).elim m.busLog (pushBounded busLogSize m.busLog) := by
  cases r with
  | write address value => rw [perform, write_eq]; rfl
  | setVector v target => rw [perform, setVector_eq]; rfl
  | _ => rfl

theorem switchEvents_perform :
    (m.perform r).switchEvents =
      if emptiesSwitchLog r then #[]
      else (switch? r).elim m.switchEvents (pushBounded switchLogSize m.switchEvents) := by
  cases r with
  | write address value => rw [perform, write_eq]; rfl
  | setVector v target => rw [perform, setVector_eq]; rfl
  | _ => rfl

theorem interrupts_perform :
    (m.perform r).interrupts = if isReset r then false else (flag? r).getD m.interrupts := by
  cases r with
  | write address value => rw [perform, write_eq]; rfl
  | setVector v target => rw [perform, setVector_eq]; rfl
  | _ => rfl

theorem exposedWrites_perform :
    (m.perform r).exposedWrites =
      if isReset r then 0
      else m.exposedWrites + if isWrite r && m.interrupts then 1 else 0 := by
  cases r with
  | write address value => rw [perform, write_eq]; rfl
  | setVector v target => rw [perform, setVector_eq]; rfl
  | _ => rfl

theorem read_perform {address : UInt16} (haddress : address.toNat < latchCount) :
    (m.perform r).read address =
      if isReset r then 0 else (valueFor? address r).getD (m.read address) := by
  cases r with
  | write a value =>
      by_cases ha : a.toNat < latchCount
      · rw [perform, read_write m a value ha]
        by_cases heq : a = address
        · simp [isReset, valueFor?, heq]
        · simp [isReset, valueFor?, heq, Ne.symm heq]
      · have hne : a ≠ address := by
          rintro rfl
          exact ha haddress
        rw [perform, write_eq]
        simp [isReset, valueFor?, hne, read, setLatch, ha]
  | setVector v target => rw [perform, setVector_eq]; rfl
  | reset => simp [perform, reset, read, haddress, isReset]
  | _ => rfl

theorem vector_perform (v : UInt8) :
    (m.perform r).vector v =
      if isReset r then firmwareEntry v else (targetFor? v r).getD (m.vector v) := by
  cases r with
  | write a value => rw [perform, write_eq]; rfl
  | setVector w target =>
      rw [perform, vector_setVector]
      by_cases heq : w = v
      · simp [isReset, targetFor?, heq]
      · simp [isReset, targetFor?, heq, Ne.symm heq]
  | reset =>
      have hfirmware : m.reset.vector v = firmwareEntry (UInt8.ofNat v.toNat) := by
        rw [vector_eq _ v.toNat_lt]
        exact Vector.getElem_ofFn _
      rw [perform, hfirmware, UInt8.ofNat_toNat]
      rfl
  | _ => rfl

/-! ## Whole histories -/

/-- The records show what the history says. -/
structure Recorded (m : Machine) (h : History) : Prop where
  busLog : m.busLog.toList = h.busWrites.take busLogSize
  switchEvents : m.switchEvents.toList = h.switches.take switchLogSize
  read : ∀ address : UInt16, address.toNat < latchCount → m.read address = h.value address
  vector : ∀ v, m.vector v = h.target v
  interrupts : m.interrupts = h.interrupts
  exposedWrites : m.exposedWrites = h.exposedWrites

variable {m : Machine} {h : History}

theorem recorded_reset (m : Machine) : m.reset.Recorded [] where
  busLog := rfl
  switchEvents := rfl
  read := fun _ haddress => m.read_perform .reset haddress
  vector := m.vector_perform .reset
  interrupts := rfl
  exposedWrites := rfl

theorem Recorded.exposedWrites_perform (hm : m.Recorded h) (r : MachineRequest) :
    (m.perform r).exposedWrites = History.exposedWrites (h ++ [r]) := by
  rw [Machine.exposedWrites_perform, History.exposedWrites, History.since_append]
  split
  next => rfl
  next => rw [History.exposedIn_append, hm.exposedWrites, hm.interrupts]; rfl

theorem Recorded.perform (hm : m.Recorded h) (r : MachineRequest) :
    (m.perform r).Recorded (h ++ [r]) where
  busLog := by
    rw [busLog_perform]
    exact toList_log hm.busLog r
  switchEvents := by
    rw [switchEvents_perform]
    exact toList_log hm.switchEvents r
  read := by
    intro address haddress
    rw [read_perform m r haddress, hm.read address haddress, History.value, History.value,
      History.last_since_append]
  vector := by
    intro v
    rw [vector_perform, hm.vector, History.target, History.target, History.last_since_append]
  interrupts := by
    rw [interrupts_perform, hm.interrupts, History.interrupts, History.interrupts,
      History.last_since_append]
  exposedWrites := hm.exposedWrites_perform r

theorem recorded_performAll (m : Machine) (h : History) : (m.reset.performAll h).Recorded h := by
  induction h using List.reverseRecOn with
  | nil => exact m.recorded_reset
  | append_singleton h r ih =>
      rw [performAll, List.foldl_append]
      exact ih.perform r

/-! ## Values written to an address -/

theorem take_padded {n : Nat} {values : List UInt8} (h : values.length ≤ n) :
    (values ++ List.replicate n 0).take n =
      values ++ List.replicate (n - values.length) 0 := by
  rw [List.take_append, List.take_of_length_le h, List.take_replicate,
    Nat.min_eq_left (Nat.sub_le _ _)]

theorem collectValue_padded (n : Nat) (values : List UInt8) (value : UInt8) :
    collectValue n ((values ++ List.replicate n 0).take n, values.length) value =
      ((values ++ [value] ++ List.replicate n 0).take n, (values ++ [value]).length) := by
  have hlength : (values ++ [value]).length = values.length + 1 := List.length_append
  unfold collectValue
  dsimp only
  rw [hlength]
  split
  next hroom =>
    have hrest : n - values.length = n - (values.length + 1) + 1 := by omega
    rw [take_padded (Nat.le_of_lt hroom), take_padded (by omega), hlength, hrest,
      List.replicate_succ, List.set_append_right _ _ (Nat.le_refl _), Nat.sub_self,
      List.set_cons_zero, List.append_assoc, List.singleton_append]
  next hfull =>
    have hle := Nat.not_lt.mp hfull
    rw [List.append_assoc, List.take_append_of_le_length hle, List.take_append_of_le_length hle]

theorem foldl_collectValue (n : Nat) (values more : List UInt8) :
    more.foldl (collectValue n) ((values ++ List.replicate n 0).take n, values.length) =
      ((values ++ more ++ List.replicate n 0).take n, (values ++ more).length) := by
  induction more generalizing values with
  | nil => simp
  | cons value rest ih =>
      rw [List.foldl_cons, collectValue_padded, ih, List.append_assoc values, List.singleton_append]

theorem writesTo_eq (m : Machine) (address : UInt16) :
    m.writesTo address = (m.valuesAt address).length := by
  rw [writesTo, List.countP_eq_length_filter, valuesAt, List.length_map]

theorem valuesWritten_eq (m : Machine) (n : Nat) (address : UInt16) :
    m.valuesWritten n address =
      ((m.valuesAt address ++ List.replicate n 0).take n, m.writesTo address) := by
  have hfold := foldl_collectValue n [] (m.valuesAt address)
  rw [valuesWritten, writesTo_eq]
  simpa using hfold

theorem Recorded.valuesAt_eq (hm : m.Recorded h) (address : UInt16) :
    m.valuesAt address = h.loggedAt address := by
  rw [valuesAt, hm.busLog, History.loggedAt]

/-- Everything that can be asked of a machine is answered from its history. -/
structure Faithful (m : Machine) (h : History) : Prop where
  busLog : m.busLog.toList = h.busWrites.take busLogSize
  read : ∀ address : UInt16, address.toNat < latchCount → m.read address = h.value address
  read_outside : ∀ address : UInt16, latchCount ≤ address.toNat → m.read address = 0xFF
  exposedWrites : m.exposedWrites = h.exposedWrites
  writesTo : ∀ address, m.writesTo address = (h.loggedAt address).length
  valuesWritten : ∀ n address,
    m.valuesWritten n address =
      ((h.loggedAt address ++ List.replicate n 0).take n, m.writesTo address)
  switchEvents : m.switchEvents.toList = h.switches.take switchLogSize
  switchLog : m.switchLog.toList = h.images.take switchLogSize
  lastSwitch : m.lastSwitch? = (h.switches.take switchLogSize).getLast?
  vector : ∀ v, m.vector v = h.target v
  interrupts : m.interrupts = h.interrupts

theorem Recorded.faithful (hm : m.Recorded h) : m.Faithful h where
  busLog := hm.busLog
  read := hm.read
  read_outside := fun _ haddress => dif_neg (Nat.not_lt.mpr haddress)
  exposedWrites := hm.exposedWrites
  writesTo := fun address => by rw [writesTo_eq, hm.valuesAt_eq]
  valuesWritten := fun n address => by rw [valuesWritten_eq, hm.valuesAt_eq]
  switchEvents := hm.switchEvents
  switchLog := by rw [switchLog, Array.toList_map, hm.switchEvents, List.map_take, History.images]
  lastSwitch := by rw [lastSwitch?, ← Array.getLast?_toList, hm.switchEvents]
  vector := hm.vector
  interrupts := hm.interrupts

/-- Whatever is asked of a machine after it was reset, its logs hold the first writes and
switches since they were emptied, and its latches, its vectors and the count of writes with
interrupts enabled lose nothing when a log is full or cleared. -/
theorem performAll_faithful (m : Machine) (h : History) : (m.reset.performAll h).Faithful h :=
  (m.recorded_performAll h).faithful

example : History.exposedWrites [.setInterrupts true, .write 0x20 1, .reset, .write 0x20 2,
    .setInterrupts true, .setVector 3 ⟨0, 0⟩, .clearBusLog, .write 0x20 3,
    .setInterrupts false, .write 0x20 4] = 2 := by
  decide

end Machine

end Kernel16
