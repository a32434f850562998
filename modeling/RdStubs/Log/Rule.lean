import RdStubs.Task
import RdStubs.Text.Bytes
import RdStubs.Log.Expression.WellFormed

/-!
# Log rules

A rule lets notices through up to a level. It is written as a level, as `target=level`, or as a
target alone, which lets everything through. A target may be followed by brackets with the name of
a span and, in braces, a field and its value. The notices of this program stand in no span and
their only field is the message.
-/

namespace RdStubs

def Origin.target : Origin → Text
  | program => "s4doc".toList
  | source => "s4doc::scanner".toList
  | declarations => "s4doc::registry".toList
  | stubs => "s4doc::writer".toList

/-- How much a level lets through; nothing is shown at verbosity 0. -/
def Level.verbosity : Level → Nat
  | error => 1
  | warn => 2
  | info => 3
  | debug => 4
  | trace => 5

namespace Log

structure Field where
  name : Text
  value? : Option Text
deriving DecidableEq, Repr

structure Rule where
  /-- Begins the target of each notice that the rule speaks of. -/
  target : Text := []
  span? : Option Text := none
  field? : Option Field := none
  verbosity : Nat
deriving DecidableEq, Repr

namespace Rule

/-- The values of fields are those of spans, so a rule that asks for one speaks of no notice. -/
def speaksOf (r : Rule) (n : Notice) : Bool :=
  r.target.isPrefixOf n.origin.target && r.span?.isNone
    && r.field?.all fun field => field.name = "message".toList && field.value?.isNone

/-- Of two rules for one notice the more specific one decides: the one with the longer target, or
with a field if both targets are the same. -/
def specificity (r : Rule) : Nat := 2 * r.target.length + if r.field?.isSome then 1 else 0

def verbosityNames : List (Text × Nat) :=
  [("off".toList, 0), ("error".toList, 1), ("warn".toList, 2), ("info".toList, 3),
    ("debug".toList, 4), ("trace".toList, 5)]

def decimal? (s : Text) : Option Nat :=
  if s ≠ [] ∧ s.all Char.isDigit then
    some (s.foldl (fun n c => 10 * n + (c.toNat - '0'.toNat)) 0)
  else none

def verbosity? (s : Text) : Option Nat :=
  match decimal? (("+".toList.isPrefixOf? s).getD s) with
  | some n => if n ≤ 5 then some n else none
  | none => verbosityNames.lookup (s.map Char.toLower)

def limit? (s : Text) : Option Nat := if s = [] then some 5 else verbosity? s

def dropSign (s : Text) : Text :=
  match s with
  | '+' :: s | '-' :: s => s
  | s => s

def isDigits (s : Text) : Bool := s ≠ [] && s.all Char.isDigit

/-- A number in decimal notation, with or without a point and an exponent, or the name of a value
that has no such notation. -/
def isNumber (s : Text) : Bool :=
  let s := (dropSign s).map Char.toLower
  let mantissa := s.takeWhile (· ≠ 'e')
  let whole := mantissa.takeWhile (· ≠ '.')
  let fraction := (mantissa.drop whole.length).drop 1
  ["inf".toList, "infinity".toList, "nan".toList].contains s
    || isDigits (whole ++ fraction)
      && (mantissa.length = s.length || isDigits (dropSign (s.drop (mantissa.length + 1))))

/-- A field is given by its name or by name and value. A value is a number or a regular expression;
what stands behind a second equals sign is passed over. -/
def fieldOf? (s : Text) : Option Field :=
  match Text.split '=' s with
  | name :: value :: _ =>
    if isNumber value || Expression.isWellFormed value then some ⟨name, some value⟩ else none
  | _ => if s = [] then none else some ⟨s, none⟩

def startsTarget (c : Char) : Bool :=
  isLetter c || isNumeral c || c = '-' || c = ':' || c = '_'

/-- The level behind brackets, of which `closing` are still to be passed in `s`. -/
def limitBehind? (closing : Nat) (shown s : Text) : Option Nat :=
  match shown with
  | [] => some 5
  | '=' :: _ => do
    let (_, s) ← Text.splitBytes? (closing + 1) s
    limit? s
  | _ => none

def inBrackets? (target shown s : Text) : Option Rule := do
  let name := shown.takeWhile fun c => c ≠ ']' ∧ c ≠ '\x7b'
  let (span, s) ← Text.splitBytes? (Text.byteLength name) s
  match shown.drop name.length with
  | ']' :: shown =>
    some { target := target, span? := some span, verbosity := ← limitBehind? 1 shown s }
  | '\x7b' :: shown =>
    let (_, s) ← Text.splitBytes? 1 s
    let field := shown.takeWhile (· ≠ '\x7d')
    let (written, s) ← Text.splitBytes? (Text.byteLength field) s
    match shown.drop field.length with
    | '\x7d' :: ']' :: shown =>
      some
        { target := target
          span? := if span = [] then none else some span
          field? := some (← fieldOf? written)
          verbosity := ← limitBehind? 2 shown s }
    | _ => none
  | _ => none

/-- Reads one rule. Blanks around it are passed over when its parts are told apart but count where
they are cut: each part is taken from the whole text, as many bytes behind its beginning as the
part stands behind the first character that is not blank. -/
def read? (s : Text) : Option Rule :=
  let shown := Text.trim s
  let head := shown.takeWhile fun c => c ≠ '=' ∧ c ≠ '['
  if shown.head? ≠ some '[' ∧ !shown.head?.any startsTarget then none
  else
    match shown.drop head.length with
    | [] =>
      match verbosity? s with
      | some v => some { verbosity := v }
      | none => some { target := s, verbosity := 5 }
    | mark :: shown => do
      let (target, s) ← Text.splitBytes? (Text.byteLength head) s
      let (_, s) ← Text.splitBytes? 1 s
      if mark = '[' then inBrackets? target shown s
      else some { target := target, verbosity := ← limit? s }

end Rule

end Log

end RdStubs
