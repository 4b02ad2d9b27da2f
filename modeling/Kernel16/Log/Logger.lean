import Kernel16.Log.Listing
import Kernel16.Text.Blank

/-!
# The logger

The kernel has one logger.  Until a console is installed it drops every
record.  A record that passes the level filter is shown as a line on the
console and kept in the capture buffer; a record that arrives while the
captured text is being read is only shown.
-/

namespace Kernel16.Log

/-- What becomes of the lines that a console is given. -/
inductive Console where
  | shown
  | discarded
  deriving DecidableEq, Repr

inductive InstallError where
  | alreadyInstalled
  deriving DecidableEq, Repr

def InstallError.message : InstallError → String
  | .alreadyInstalled =>
      "attempted to set a logger after the logging system was already initialized"

structure Logger where
  console : Option Console := none
  /-- The most verbose level that passes. -/
  maxLevel : Option Level := none
  capture : Capture := {}
  reading : Bool := false
  output : String := ""

namespace Logger

/-- Installs a console, once, and sets the level in any case. -/
def install (l : Logger) (console : Console) (level : Option Level) :
    Except InstallError Unit × Logger :=
  match l.console with
  | none => (.ok (), { l with console := some console, maxLevel := level })
  | some _ => (.error .alreadyInstalled, { l with maxLevel := level })

def enabled (l : Logger) (level : Level) : Bool :=
  l.console.isSome && level.passes l.maxLevel

def shownText (console : Console) (r : Record) : String :=
  match console with
  | .shown => r.line
  | .discarded => ""

def emit (l : Logger) (r : Record) : Logger :=
  match l.console with
  | none => l
  | some console =>
      if r.level.passes l.maxLevel then
        { l with
          output := l.output ++ shownText console r
          capture := if l.reading then l.capture else l.capture.record r }
      else l

def setCapture (l : Logger) (enabled : Bool) : Logger :=
  { l with capture := .restart enabled }

def emitWhileReading (l : Logger) (records : List Record) : Logger :=
  { records.foldl emit { l with reading := true } with reading := false }

def reportLength (l : Logger) : Nat × Logger :=
  let length := l.capture.text.utf8ByteSize
  (length, l.emitWhileReading [.of .error "inner" (toString length)])

/-- Lists a target on a console that logs the pieces it is given. -/
def echoListing (l : Logger) (target : String) : Logger :=
  l.emitWhileReading ((l.capture.listing target).map fun piece =>
    .of .error "echo" (Text.trimBlanks piece))

end Logger

end Kernel16.Log
