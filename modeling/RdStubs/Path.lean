import RdStubs.Text.Runs

/-!
# Paths

A path is kept as it was written. Its components leave out repeated separators and `.`, which
stands for a component of its own only at the start of a relative path; two spellings name the
same path when their components agree. `parent?` and `join` work on the spelling, so a path that
is shown looks the way its parts were given.
-/

namespace RdStubs

structure Path where
  text : Text
deriving DecidableEq, Repr

namespace Path

inductive Component where
  | root
  /-- The `.` at the start of a relative path. -/
  | here
  | up
  | name (n : Text)
deriving DecidableEq, Repr

def isAbsolute (p : Path) : Bool := p.text.head? = some '/'

/-- The pieces between separators, empty ones and `.` included. -/
def segments (p : Path) : List Text := p.text.split '/'

def isIdle (segment : Text) : Bool := segment = [] ∨ segment = ['.']

def Component.ofSegment? (segment : Text) : Option Component :=
  if isIdle segment then none
  else if segment = ['.', '.'] then some .up
  else some (.name segment)

/-- The component that the first segment stands for; an empty one is the root if more follow. -/
def Component.ofFirst? (segment : Text) (more : Bool) : Option Component :=
  if segment = [] then if more then some .root else none
  else if segment = ['.'] then some .here
  else ofSegment? segment

def components (p : Path) : List Component :=
  match p.segments with
  | [] => []
  | first :: rest =>
    (Component.ofFirst? first !rest.isEmpty).toList ++ rest.filterMap Component.ofSegment?

def SameAs (p q : Path) : Prop := p.components = q.components

instance (p q : Path) : Decidable (p.SameAs q) :=
  inferInstanceAs (Decidable (p.components = q.components))

/-- The path without its last component and without the idle segments around it; there is none for
the empty path and for the root. -/
def parent? (p : Path) : Option Path :=
  match p.segments with
  | [] => none
  | first :: rest =>
    match rest.reverse.dropWhile isIdle with
    | [] => if first = [] then none else some ⟨[]⟩
    | _ :: before =>
      match before.dropWhile isIdle with
      | [] => some ⟨if first = [] then ['/'] else first⟩
      | kept => some ⟨Text.join ['/'] (first :: kept.reverse)⟩

/-- The path `q` seen from `p`; an absolute `q` stands for itself. -/
def join (p q : Path) : Path :=
  if q.isAbsolute then q
  else if p.text = [] ∨ p.text.getLast? = some '/' then ⟨p.text ++ q.text⟩
  else ⟨p.text ++ '/' :: q.text⟩

example : (parent? ⟨"a/./b//".toList⟩, parent? ⟨"///a".toList⟩, parent? ⟨"./b".toList⟩) =
    (some ⟨"a".toList⟩, some ⟨"/".toList⟩, some ⟨".".toList⟩) := by decide

example : SameAs ⟨"pkg//man/./f.Rd".toList⟩ ⟨"pkg/man/f.Rd".toList⟩ ∧
    ¬ SameAs ⟨"./pkg/man/f.Rd".toList⟩ ⟨"pkg/man/f.Rd".toList⟩ := by decide

end Path

end RdStubs
