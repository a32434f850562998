import RdStubs.Text.Control

/-!
# Invocations

What the arguments of the command line ask for. Options may stand between files, short ones may be
written together, and `--` ends them. The first argument that cannot be read decides the error.
-/

namespace RdStubs

inductive Flag where
  | quiet
  | help
deriving DecidableEq, Repr

namespace Flag

def long : Flag → Text
  | quiet => "quiet".toList
  | help => "help".toList

def ofLong? (name : Text) : Option Flag := [quiet, help].find? fun f => f.long = name

def ofShort? : Char → Option Flag
  | 'q' => some quiet
  | 'h' => some help
  | _ => none

end Flag

inductive UsageError where
  | unknown (argument : Text)
  | unwantedValue (value : Text) (flag : Flag)
  | repeated (flag : Flag)
deriving DecidableEq, Repr

def UsageError.message : UsageError → Text
  | unknown argument =>
    "error: unexpected argument '".toList ++ Text.plain argument ++ "' found".toList
  | unwantedValue value flag =>
    "error: unexpected value '".toList ++ Text.plain value ++ "' for '--".toList ++ flag.long
      ++ "' found; no more were expected".toList
  | repeated flag =>
    "error: the argument '--".toList ++ flag.long ++ "' cannot be used multiple times".toList

structure Invocation where
  flags : List Flag := []
  files : List Text := []
deriving DecidableEq, Repr

namespace Invocation

def addFlag (flag : Flag) (i : Invocation) : Except UsageError Invocation :=
  if flag ∈ i.flags then .error (.repeated flag) else .ok { i with flags := i.flags ++ [flag] }

/-- The letters of short options that are written together. -/
def addShort : Text → Invocation → Except UsageError Invocation
  | [], i => .ok i
  | c :: s, i =>
    match Flag.ofShort? c with
    | some flag => do addShort s (← i.addFlag flag)
    | none => .error (.unknown ['-', c])

def addLong (s : Text) (i : Invocation) : Except UsageError Invocation :=
  let name := s.takeWhile (· ≠ '=')
  match Flag.ofLong? name, s.dropWhile (· ≠ '=') with
  | none, _ => .error (.unknown ("--".toList ++ name))
  | some flag, [] => i.addFlag flag
  | some flag, _ :: value => .error (.unwantedValue value flag)

def add (i : Invocation) : List Text → Except UsageError Invocation
  | [] => .ok i
  | argument :: arguments =>
    match argument with
    | ['-', '-'] => .ok { i with files := i.files ++ arguments }
    | '-' :: '-' :: s => do add (← i.addLong s) arguments
    | '-' :: c :: s => do add (← i.addShort (c :: s)) arguments
    | file => add { i with files := i.files ++ [file] } arguments

def ofArguments (arguments : List Text) : Except UsageError Invocation := add {} arguments

end Invocation

end RdStubs
