import RdStubs.Method.Markup
import RdStubs.Task

/-!
# Stubs

A stub is what one page is given: the methods documented there, in the order in which they were
found. `collect` sorts methods into stubs by the page each of them has, and fails before anything
is written if one has none; `write` appends the texts of the stubs to their pages.
-/

namespace RdStubs

structure Stub where
  page : Path
  methods : List Method
deriving DecidableEq, Repr

namespace Stub

/-- Stubs in the order in which their pages come up, and the position of the stub of each page.
Pages are told apart by their components. -/
structure Collection where
  stubs : List Stub := []
  positions : List (List Path.Component × Nat) := []

/-- Adds a method to the stub of its page, which is started behind the others if it is new. A stub
keeps the first spelling of its page. -/
def Collection.add (page : Path) (m : Method) (c : Collection) : Collection :=
  match c.positions.lookup page.components with
  | some i => { c with stubs := c.stubs.modify i fun s => { s with methods := s.methods ++ [m] } }
  | none =>
    { stubs := c.stubs ++ [⟨page, [m]⟩]
      positions := (page.components, c.stubs.length) :: c.positions }

def collectInto (tree : FileTree) (redirects : Redirects) (methods : List Method)
    (c : Collection) : Except Error Collection :=
  methods.foldlM (fun c m =>
    let m := m.lookUp tree redirects
    match m.page? with
    | some page => .ok (c.add page m)
    | none => .error (.noPage m.name (m.candidates redirects))) c

def collect (tree : FileTree) (redirects : Redirects) (methods : List Method) :
    Except Error (List Stub) :=
  (collectInto tree redirects methods {}).map Collection.stubs

/-- The lines of a stub; an entry of the usage block is followed by an empty line. -/
def items (redirects : Redirects) (s : Stub) : List Text :=
  match s.methods with
  | [] => []
  | first :: others =>
    Method.doctype :: first.aliasLines true redirects :: others.map (Method.aliasLines false redirects)
      ++ Method.usageOpening :: s.methods.flatMap (fun m => [m.usageLine, []])
      ++ [Method.usageClosing]

/-- The text of a stub. The pages of its methods were looked for when it was collected, so nothing
is looked for here. -/
def text (redirects : Redirects) (s : Stub) : Text := (s.items redirects).flatMap (· ++ ['\n'])

def write (redirects : Redirects) (s : Stub) : Task FileTree Unit := do
  Task.note .info .stubs ("Adding to ".toList ++ s.page.text)
  let tree ← Task.ofFile s.page ((← Task.state).append s.page (s.text redirects))
  Task.setState tree

def writeAll (redirects : Redirects) : List Stub → Task FileTree Unit
  | [] => return ()
  | s :: stubs => do
    s.write redirects
    writeAll redirects stubs

end Stub

end RdStubs
