import RdStubs.Log.Expression.Atom

/-!
# Bracketed classes

A class in brackets holds characters, ranges, sets and further classes, and set operators between
groups of them. Reading a class tells how deeply it is nested: each pair of brackets, each operator
and each group of several items is one level.
-/

namespace RdStubs.Log.Expression

/-- The nesting of parts that are put together, of which a single one is no level of its own. -/
def joined : List Nat → Nat
  | [] => 0
  | [height] => height
  | heights => heights.foldl max 0 + 1

/-- A class of which the bracket that closes it is still to come. -/
structure OpenClass where
  /-- The nesting of what stands before the last operator. -/
  operand? : Option Nat := none
  items : List Nat := []
  /-- Only dashes have been read, which stand for themselves at the beginning. -/
  isFresh : Bool := true
deriving DecidableEq, Repr

namespace OpenClass

def height (c : OpenClass) : Nat :=
  match c.operand? with
  | none => joined c.items
  | some operand => max operand (joined c.items) + 1

def add (height : Nat) (c : OpenClass) : OpenClass :=
  { c with items := height :: c.items, isFresh := false }

def operate (c : OpenClass) : OpenClass := { operand? := some c.height, isFresh := false }

end OpenClass

def classNames : List Text :=
  ["alnum", "alpha", "ascii", "blank", "cntrl", "digit", "graph", "lower", "print", "punct",
    "space", "upper", "word", "xdigit"].map String.toList

/-- A class given by its name between colons, as it stands behind an inner bracket; the first
component says whether it is negated. -/
def namedClass? : Text → Option (Bool × Text)
  | ':' :: s =>
    let negated := s.head? = some '^'
    let s := if negated then s.tail else s
    let name := s.takeWhile (· ≠ ':')
    match s.drop name.length with
    | ':' :: ']' :: s => if classNames.contains name then some (negated, s) else none
    | _ => none
  | _ => none

/-- What stands behind the bracket that opens a class, without the mark of negation. The bytes
outside a class of bytes are no characters, so such a class is not negated. -/
def openClass? (m : Mode) (s : Text) : Option Text :=
  match m.skip s with
  | '^' :: s => if m.bytewise then none else some s
  | s => some s

def classItem? (m : Mode) : Text → Option (Atom × Text)
  | [] => none
  | '\\' :: s => escape? m s
  | c :: s => some (.char c, s)

def isMember (m : Mode) : Atom → Bool
  | .char c => m.admits c
  | .set => true
  | .edge => false

def isRange (m : Mode) : Atom → Atom → Bool
  | .char first, .char last => m.admits first && m.admits last && first ≤ last
  | _, _ => false

/-- Reads an item or a range. A dash before the closing bracket or another dash makes no range. -/
def classRange? (m : Mode) (s : Text) : Option Text := do
  let (first, s) ← classItem? m s
  match m.skip s with
  | [] => none
  | '-' :: t =>
    let behind := m.skip t
    if behind.head? = some ']' ∨ behind.head? = some '-' then
      if isMember m first then some ('-' :: t) else none
    else do
      let (last, s) ← classItem? m behind
      if isRange m first last then some s else none
  | s => if isMember m first then some s else none

/-- Reads on in a class, up to a bracket or an operator or over one item. What is left open is
returned, the innermost class first; or nothing is, and the nesting of the whole. -/
def classStep? (m : Mode) (c : OpenClass) (outer : List OpenClass) (s : Text) :
    Option ((OpenClass × List OpenClass ⊕ Nat) × Text) :=
  match m.skip s with
  | [] => none
  | '[' :: s =>
    match namedClass? s with
    | some (negated, s) =>
      if negated && m.bytewise then none else some (.inl (c.add 0, outer), s)
    | none => (openClass? m s).map fun s => (.inl ({}, c :: outer), s)
  | ']' :: s =>
    if c.isFresh ∧ c.items = [] then some (.inl (c.add 0, outer), s)
    else
      match outer with
      | [] => some (.inr (c.height + 1), s)
      | d :: outer => some (.inl (d.add (c.height + 1), outer), s)
  | '&' :: '&' :: s => some (.inl (c.operate, outer), s)
  | '~' :: '~' :: s => some (.inl (c.operate, outer), s)
  | '-' :: s =>
    if c.isFresh then some (.inl ({ c with items := 0 :: c.items }, outer), s)
    else
      match s with
      | '-' :: s => some (.inl (c.operate, outer), s)
      | _ => (classRange? m ('-' :: s)).map fun s => (.inl (c.add 0, outer), s)
  | s => (classRange? m s).map fun s => (.inl (c.add 0, outer), s)

def restOfClass? (m : Mode) (c : OpenClass) (outer : List OpenClass) (s : Text) :
    Option (Nat × Text) :=
  match classStep? m c outer s with
  | some (.inl (c, outer), rest) =>
    if rest.length < s.length then restOfClass? m c outer rest else none
  | some (.inr height, rest) => some (height, rest)
  | none => none
termination_by s.length

def class? (m : Mode) (s : Text) : Option (Nat × Text) := do
  restOfClass? m {} [] (← openClass? m s)

end RdStubs.Log.Expression
