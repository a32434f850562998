import RdStubs.Source
import RdStubs.Stub

/-!
# Updating pages

The whole of the work on a list of sources: read them all, sort what was found into stubs, and only
then write. Until the first stub is written no file has changed.
-/

namespace RdStubs

inductive Update.Fault where
  | reading (cause : Error)
  | collecting (cause : Error)
  | writing (cause : Error)
deriving DecidableEq, Repr

namespace Update

def count (n : Nat) (what : String) : Text := (toString n).toList ++ ' ' :: what.toList

def readNotice (methods : List Method) (d : Declarations) : Notice :=
  ⟨.debug, .program,
    Text.join ", ".toList
      [count methods.length "methods", count d.groups.length "placeholder groups",
        count d.redirects.size "Rd file mappings"]⟩

def nothingNotice : Notice := ⟨.info, .program, "no S4 methods found".toList⟩

def stubsNotice (stubs : List Stub) : Notice :=
  ⟨.debug, .program, count stubs.length "Rd files to update"⟩

def run (tree : FileTree) (sources : List Path) : Except Fault Unit × Progress FileTree :=
  match (Source.readFiles tree sources).run { state := {} } with
  | .error e p => (.error (.reading e), ⟨tree, p.notices⟩)
  | .ok methods p =>
    let notices := p.notices ++ [readNotice methods p.state]
    match Stub.collect tree p.state.redirects methods with
    | .error e => (.error (.collecting e), ⟨tree, notices⟩)
    | .ok [] => (.ok (), ⟨tree, notices ++ [nothingNotice]⟩)
    | .ok stubs =>
      match (Stub.writeAll p.state.redirects stubs).run ⟨tree, notices ++ [stubsNotice stubs]⟩ with
      | .error e p => (.error (.writing e), p)
      | .ok () p => (.ok (), p)

end Update

end RdStubs
