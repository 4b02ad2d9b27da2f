import Kernel16.Log.Record

/-!
# The capture buffer

While capturing is enabled, each record is also kept as a line `target|message`
in a buffer of 4096 bytes.  What does not fit is cut off, piece by piece, and
the loss is remembered.  A cut can fall inside a character, so the text of the
buffer is its longest part from the start that is well-formed UTF-8.
-/

namespace Kernel16.Log

def captureSize : Nat := 4096

structure Capture where
  enabled : Bool := false
  bytes : Array UInt8 := #[]
  overflow : Bool := false
  deriving DecidableEq, Repr

namespace Capture

def restart (enabled : Bool) : Capture := { enabled }

/-- Keeps as much of a piece as fits. -/
def write (c : Capture) (piece : String) : Capture :=
  let bytes := piece.toUTF8.data
  let room := captureSize - c.bytes.size
  { c with
    bytes := c.bytes ++ bytes.extract 0 room
    overflow := c.overflow || decide (room < bytes.size) }

def linePieces (r : Record) : List String :=
  [r.target, "|"] ++ r.pieces ++ ["\n"]

def record (c : Capture) (r : Record) : Capture :=
  if c.enabled then (linePieces r).foldl write c else c

/-- The longest text that the first bytes spell, `bound` of them at most. -/
def longestText (bytes : Array UInt8) : (bound : Nat) → String
  | 0 => ""
  | bound + 1 =>
      match String.fromUTF8? ⟨bytes.extract 0 (bound + 1)⟩ with
      | some text => text
      | none => longestText bytes bound

def text (c : Capture) : String := longestText c.bytes c.bytes.size

@[simp] theorem enabled_write (c : Capture) (piece : String) :
    (c.write piece).enabled = c.enabled := rfl

end Capture

end Kernel16.Log
