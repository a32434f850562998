import RdStubs.Directive
import RdStubs.Redirects
import RdStubs.Task

/-!
# Declarations

What the directives have declared so far. Each region is a group of names; groups are handed out
in the order in which their regions were opened, one for each placeholder definition, and a
request counts whether it is met or not. A line that is refused changes nothing.
-/

namespace RdStubs

structure Declarations where
  /-- The groups of the regions that are closed, oldest first. -/
  closed : List (List Text) := []
  /-- The names in the open region, if a region is open. -/
  current? : Option (List Text) := none
  /-- How many groups have been asked for. -/
  taken : Nat := 0
  redirects : Redirects := {}
deriving DecidableEq, Repr

namespace Declarations

def groups (d : Declarations) : List (List Text) := d.closed ++ d.current?.toList

def hasOpenRegion (d : Declarations) : Bool := d.current?.isSome

def accept? (d : Declarations) : Directive → Option Declarations
  | .opens => if d.hasOpenRegion then none else some { d with current? := some [] }
  | .closes => d.current?.map fun names => { d with closed := d.closed ++ [names], current? := none }
  | .redirect raw page =>
    if d.hasOpenRegion then none else some { d with redirects := d.redirects.insert raw page }
  | .incomplete => none
  | .name n => some { d with current? := d.current?.map (· ++ [n]) }

def announce : Directive → Task Declarations Unit
  | .redirect raw page => Task.note .info .declarations (raw ++ " => ".toList ++ page)
  | _ => return ()

def declare (line : Text) : Task Declarations Unit := do
  let directive := Directive.ofLine line
  match (← Task.state).accept? directive with
  | some d =>
    announce directive
    Task.setState d
  | none => throw (.malformedDirective (Text.trimEnd line))

def takeGroup (statement : Text) : Task Declarations (List Text) := do
  let d ← Task.state
  Task.setState { d with taken := d.taken + 1 }
  match d.groups[d.taken]? with
  | some (n :: names) => return n :: names
  | _ => throw (.noPlaceholders (Text.trimEnd statement))

end Declarations

end RdStubs
