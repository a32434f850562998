import RdStubs.Log.Expression.Class

/-!
# Well-formed regular expressions

`isWellFormed` says whether a text is a regular expression. Groups are left open while it is read,
so a reading holds a stack of them; an expression ends when all are closed. It may be nested 250
levels deep. The expressions of this program are values of fields in log rules, and a value ends
before the first closing brace; an opening brace is therefore never part of a well-formed one.
-/

namespace RdStubs.Log.Expression

/-- A part of a sequence. Settings are no part that could be repeated. -/
inductive Part where
  | settings
  | nested (height : Nat)
deriving DecidableEq, Repr

def Part.height : Part → Nat
  | settings => 0
  | nested height => height

structure Group where
  mode : Mode := {}
  /-- The parts of the branch that is being read, the last first. -/
  parts : List Part := []
  /-- The nesting of the branches before it. -/
  branches : List Nat := []
deriving DecidableEq, Repr

namespace Group

def branchHeight (g : Group) : Nat := joined (g.parts.map Part.height)

def height (g : Group) : Nat := joined (g.branchHeight :: g.branches)

def add (p : Part) (g : Group) : Group := { g with parts := p :: g.parts }

def endBranch (g : Group) : Group :=
  { g with parts := [], branches := g.branchHeight :: g.branches }

def repeatLast? (g : Group) : Option Group :=
  match g.parts with
  | .nested height :: parts => some { g with parts := .nested (height + 1) :: parts }
  | _ => none

end Group

structure Reading where
  group : Group := {}
  /-- The groups around it, the innermost first. -/
  outer : List Group := []
  names : List Text := []
deriving DecidableEq, Repr

namespace Reading

def inGroup (f : Group → Group) (r : Reading) : Reading := { r with group := f r.group }

def openGroup (m : Mode) (r : Reading) : Reading :=
  { r with group := { mode := m }, outer := r.group :: r.outer }

def closeGroup? (r : Reading) : Option Reading :=
  match r.outer with
  | [] => none
  | g :: outer => some { r with group := g.add (.nested (r.group.height + 1)), outer := outer }

end Reading

def isGroupName : Text → Bool
  | [] => false
  | c :: s =>
    (c = '_' || isLetter c)
      && s.all fun c => c = '_' || c = '.' || c = '[' || c = ']' || isLetter c || isNumeral c

/-- Flags, each at most once, of which those behind a dash are cleared. -/
def areFlags (s : Text) : Bool :=
  s.all "imsUuRx-".toList.contains && s.Nodup && s.getLast? ≠ some '-'

def Mode.set (flags : Text) (m : Mode) : Mode :=
  let on := flags.takeWhile (· ≠ '-')
  let off := flags.dropWhile (· ≠ '-')
  { spaced := on.contains 'x' || m.spaced && !off.contains 'x'
    bytewise := off.contains 'u' || m.bytewise && !on.contains 'u' }

def groupStart? (r : Reading) (s : Text) : Option (Reading × Text) :=
  let m := r.group.mode
  match m.skip s with
  | '?' :: 'P' :: '<' :: s | '?' :: '<' :: s =>
    let name := s.takeWhile (· ≠ '>')
    match s.drop name.length with
    | _ :: s =>
      if isGroupName name && !r.names.contains name then
        some ({ r.openGroup m with names := name :: r.names }, s)
      else none
    | [] => none
  | '?' :: s =>
    let flags := s.takeWhile fun c => c ≠ ':' ∧ c ≠ ')'
    if areFlags flags then
      match s.drop flags.length with
      | ':' :: s => some (r.openGroup (m.set flags), s)
      | _ :: s =>
        if flags = [] then none
        else some (r.inGroup fun g => { g.add .settings with mode := m.set flags }, s)
      | [] => none
    else none
  | s => some (r.openGroup m, s)

def step? (r : Reading) : Text → Option (Reading × Text)
  | [] => none
  | c :: s =>
    match c with
    | '(' => groupStart? r s
    | ')' => r.closeGroup?.map (·, s)
    | '|' => some (r.inGroup Group.endBranch, s)
    | '[' => (class? r.group.mode s).map fun (height, s) => (r.inGroup (·.add (.nested height)), s)
    | '*' | '+' | '?' =>
      r.group.repeatLast?.map fun g =>
        ({ r with group := g }, if s.head? = some '?' then s.tail else s)
    | '\x7b' => none
    | '\\' => (escape? r.group.mode s).map fun (_, s) => (r.inGroup (·.add (.nested 0)), s)
    | '.' => if r.group.mode.bytewise then none else some (r.inGroup (·.add (.nested 0)), s)
    | _ => some (r.inGroup (·.add (.nested 0)), s)

def readFrom? (r : Reading) (s : Text) : Option Reading :=
  match r.group.mode.skip s with
  | [] => some r
  | c :: t =>
    match step? r (c :: t) with
    | some (r, rest) => if rest.length < s.length then readFrom? r rest else none
    | none => none
termination_by s.length

def isWellFormed (s : Text) : Bool :=
  match readFrom? {} s with
  | some r => r.outer = [] && r.group.height ≤ 250
  | none => false

end RdStubs.Log.Expression
