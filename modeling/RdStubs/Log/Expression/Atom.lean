import RdStubs.Text.Letter

/-!
# Atoms of regular expressions

Expressions are only checked here and never matched, so an atom is known by what it may be part
of: a character, a set of characters, or an edge between characters. What a backslash begins
depends on the mode at its place.
-/

namespace RdStubs.Log.Expression

structure Mode where
  /-- Blanks and comments are passed over. -/
  spaced : Bool := false
  /-- Sets are sets of bytes. They may hold ASCII only, as other bytes are no characters. -/
  bytewise : Bool := false
deriving DecidableEq, Repr

def dropSpace (inComment : Bool) : Text → Text
  | [] => []
  | c :: s =>
    if inComment then dropSpace (c ≠ '\n') s
    else if isBlank c then dropSpace false s
    else if c = '#' then dropSpace true s
    else c :: s

def Mode.skip (m : Mode) (s : Text) : Text := if m.spaced then dropSpace false s else s

def Mode.admits (m : Mode) (c : Char) : Bool := !m.bytewise || c.toNat < 0x80

inductive Atom where
  | char (c : Char)
  | set
  | edge
deriving DecidableEq, Repr

def hexValue? (c : Char) : Option Nat :=
  if c.isDigit then some (c.toNat - '0'.toNat)
  else if 'a' ≤ c ∧ c ≤ 'f' then some (c.toNat - 'a'.toNat + 10)
  else if 'A' ≤ c ∧ c ≤ 'F' then some (c.toNat - 'A'.toNat + 10)
  else none

def hex? (m : Mode) : Nat → Nat → Text → Option (Nat × Text)
  | 0, value, s => some (value, s)
  | n + 1, value, s =>
    match m.skip s with
    | [] => none
    | c :: s => do hex? m n (16 * value + (← hexValue? c)) s

def codePoint? (m : Mode) (digits : Nat) (s : Text) : Option (Char × Text) := do
  let (n, s) ← hex? m digits 0 s
  if n.isValidChar then some (Char.ofNat n, s) else none

def category? (m : Mode) (s : Text) : Option (Atom × Text) :=
  match m.skip s with
  | c :: s => if !m.bytewise && "clmnpsz".toList.contains c.toLower then some (.set, s) else none
  | [] => none

def specialChars : List (Char × Char) :=
  [('a', '\x07'), ('f', '\x0c'), ('t', '\t'), ('n', '\n'), ('r', '\r'), ('v', '\x0b')]

/-- Reads what stands behind a backslash. Other letters and digits have no meaning, and an edge of
a word must be one of bytes, since whole characters on both sides are not looked at. -/
def escape? (m : Mode) : Text → Option (Atom × Text)
  | [] => none
  | c :: s =>
    match c with
    | 'x' => ((codePoint? m 2 s).filter (m.admits ·.1)).map fun (d, s) => (.char d, s)
    | 'u' => (codePoint? m 4 s).map fun (d, s) => (.char d, s)
    | 'U' => (codePoint? m 8 s).map fun (d, s) => (.char d, s)
    | 'p' | 'P' => category? m s
    | 'd' | 's' | 'w' => some (.set, s)
    | 'D' | 'S' | 'W' => if m.bytewise then none else some (.set, s)
    | 'A' | 'z' => some (.edge, s)
    | 'b' | 'B' | '<' | '>' => if m.bytewise then some (.edge, s) else none
    | c =>
      match specialChars.lookup c with
      | some d => some (.char d, s)
      | none => if c.toNat < 0x80 && !c.isAlphanum then some (.char c, s) else none

end RdStubs.Log.Expression
