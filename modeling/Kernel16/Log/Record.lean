/-!
# Log records

A record has a level, a target that names the part of the kernel it comes
from, and a message.  The message reaches a writer in pieces; its text is
their concatenation.
-/

namespace Kernel16.Log

inductive Level where
  | error
  | warn
  | info
  | debug
  | trace
  deriving DecidableEq, Repr

namespace Level

/-- More verbose levels have larger ranks. -/
def rank : Level → Nat
  | .error => 1
  | .warn => 2
  | .info => 3
  | .debug => 4
  | .trace => 5

/-- Name of the level, five characters wide. -/
def tag : Level → String
  | .error => "ERROR"
  | .warn => "WARN "
  | .info => "INFO "
  | .debug => "DEBUG"
  | .trace => "TRACE"

/-- Whether a filter lets the level pass; no filter level lets nothing pass. -/
def passes (level : Level) : Option Level → Bool
  | none => false
  | some most => decide (level.rank ≤ most.rank)

end Level

structure Record where
  level : Level
  target : String
  pieces : List String
  deriving DecidableEq, Repr

namespace Record

def of (level : Level) (target message : String) : Record :=
  ⟨level, target, [message]⟩

def message (r : Record) : String := String.join r.pieces

def line (r : Record) : String :=
  "[" ++ r.level.tag ++ " " ++ r.target ++ "] " ++ r.message ++ "\n"

end Record

end Kernel16.Log
