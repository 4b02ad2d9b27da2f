/-!
# Register images

A suspended flow of control is kept as an image of its sixteen-bit registers,
in a fixed order of words.  A trap leaves a shorter frame on the stack.  Both
are plain records; a flow resumes exactly where its image says.
-/

namespace Kernel16

/-- Complete image of a suspended flow of control, in storage order. -/
structure Registers where
  di : UInt16 := 0
  si : UInt16 := 0
  bp : UInt16 := 0
  sp : UInt16 := 0
  bx : UInt16 := 0
  dx : UInt16 := 0
  cx : UInt16 := 0
  ax : UInt16 := 0
  es : UInt16 := 0
  ds : UInt16 := 0
  flags : UInt16 := 0
  ip : UInt16 := 0
  cs : UInt16 := 0
  ss : UInt16 := 0
  deriving DecidableEq, Repr, Inhabited

namespace Registers

def toList (r : Registers) : List UInt16 :=
  [r.di, r.si, r.bp, r.sp, r.bx, r.dx, r.cx, r.ax, r.es, r.ds, r.flags, r.ip, r.cs, r.ss]

def ofList? : List UInt16 → Option Registers
  | [di, si, bp, sp, bx, dx, cx, ax, es, ds, flags, ip, cs, ss] =>
      some ⟨di, si, bp, sp, bx, dx, cx, ax, es, ds, flags, ip, cs, ss⟩
  | _ => none

def offsets : List Nat :=
  (List.range (toList {}).length).map (2 * ·)

def byteCount : Nat := 2 * (toList {}).length

@[simp] theorem ofList?_toList (r : Registers) : ofList? r.toList = some r := rfl

end Registers

/-- Registers pushed on entry to a trap, with the interrupted `cs:ip` and flags. -/
structure TrapFrame where
  di : UInt16 := 0
  si : UInt16 := 0
  bp : UInt16 := 0
  sp : UInt16 := 0
  bx : UInt16 := 0
  dx : UInt16 := 0
  cx : UInt16 := 0
  ax : UInt16 := 0
  es : UInt16 := 0
  ds : UInt16 := 0
  ip : UInt16 := 0
  cs : UInt16 := 0
  flags : UInt16 := 0
  deriving DecidableEq, Repr

def TrapFrame.ofList? : List UInt16 → Option TrapFrame
  | [di, si, bp, sp, bx, dx, cx, ax, es, ds, ip, cs, flags] =>
      some ⟨di, si, bp, sp, bx, dx, cx, ax, es, ds, ip, cs, flags⟩
  | _ => none

inductive Flag where
  | carry
  /-- Always set. -/
  | reserved
  | zero
  | trap
  | interrupt
  | direction
  deriving DecidableEq, Repr

namespace Flag

def bit : Flag → UInt16
  | .carry => 0x0001
  | .reserved => 0x0002
  | .zero => 0x0040
  | .trap => 0x0100
  | .interrupt => 0x0200
  | .direction => 0x0400

def all : List Flag := [.carry, .reserved, .zero, .trap, .interrupt, .direction]

def union (flags : List Flag) : UInt16 := flags.foldl (fun bits f => bits ||| f.bit) 0

/-- Flags of a task that has not run yet: interrupts are enabled. -/
def ofNewTask : UInt16 := union [.interrupt, .reserved]

end Flag

/-- Segments that a new task starts with. -/
structure Segments where
  code : UInt16
  data : UInt16
  deriving DecidableEq, Repr

/-- Segment of the kernel image, its heap and all stacks. -/
def dataSegment : UInt16 := 0x07E0

/-- Segments while no machine is known. -/
def Segments.initial : Segments := ⟨0, dataSegment⟩

def segmentBytes : Nat := 0x10000

end Kernel16
