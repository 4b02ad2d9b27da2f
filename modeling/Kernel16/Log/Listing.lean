import Kernel16.Log.Capture

/-!
# Listing captured lines

A captured text is read back line by line.  A line belongs to the target in
front of its first bar; the rest is the message.  The listing of a target names
it, gives its messages, says whether something was lost, and ends with the name
again.  An empty text has no listing.
-/

namespace Kernel16.Log

def splitAt (separator : Char) : List Char → List (List Char)
  | [] => [[]]
  | c :: rest =>
      if c = separator then [] :: splitAt separator rest
      else match splitAt separator rest with
        | [] => [[c]]
        | part :: parts => (c :: part) :: parts

def messageOf? (target line : List Char) : Option (List Char) :=
  match line.dropWhile (· ≠ '|') with
  | [] => none
  | _ :: message => if line.takeWhile (· ≠ '|') = target then some message else none

def messages (text target : String) : List String :=
  ((splitAt '\n' text.toList).filterMap (messageOf? target.toList)).map String.ofList

def occursIn (needle : List Char) : List Char → Bool
  | [] => needle.isEmpty
  | c :: rest => needle.isPrefixOf (c :: rest) || occursIn needle rest

namespace Capture

def mentions (c : Capture) (target needle : String) : Bool :=
  (messages c.text target).any fun message => occursIn needle.toList message.toList

def listing (c : Capture) (target : String) : List String :=
  if c.text.isEmpty then []
  else
    ["\n--- ", target, " debug ---\n"] ++
    (messages c.text target).flatMap (fun message => [message, "\n"]) ++
    (if c.overflow then ["[... log output truncated ...]\n"] else []) ++
    ["--- end ", target, " debug ---\n"]

end Capture

end Kernel16.Log
