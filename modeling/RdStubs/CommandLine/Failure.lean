import RdStubs.Text.Runs
import RdStubs.Update

/-!
# Failures and their report

A failure is a message with the causes behind it, the outermost first. A single cause is indented;
several are numbered, and further lines of a cause stand below its first.
-/

namespace RdStubs

structure Failure where
  message : Text
  causes : List Text := []
deriving DecidableEq, Repr

namespace Failure

/-- A trouble with a file has what the system says as a cause of its own. -/
def ofError (e : Error) : Failure :=
  match e with
  | .file _ cause => ⟨e.message, [cause.message]⟩
  | _ => ⟨e.message, []⟩

def inContext (message : String) (f : Failure) : Failure := ⟨message.toList, f.message :: f.causes⟩

def ofFault : Update.Fault → Failure
  | .reading e => (ofError e).inContext "failed to collect S4 methods"
  | .collecting e => ofError e
  | .writing e => (ofError e).inContext "failed to write Rd files"

/-- The lines of `s`, the first behind `first` and the others behind `others`. -/
def indented (first others s : Text) : Text :=
  first ++ Text.join ('\n' :: others) (Text.split '\n' s)

def number (n : Nat) : Text :=
  let digits := (toString n).toList
  List.replicate (5 - digits.length) ' ' ++ digits ++ ": ".toList

def causesReport : List Text → Text
  | [] => []
  | [cause] => indented "    ".toList "    ".toList cause
  | causes =>
    Text.join ['\n'] (causes.zipIdx.map fun (cause, n) => indented (number n) "       ".toList cause)

def report (f : Failure) : Text :=
  "Error: ".toList ++ f.message
    ++ (if f.causes = [] then [] else "\n\nCaused by:\n".toList ++ causesReport f.causes)
    ++ ['\n']

end Failure

end RdStubs
