import RdStubs.Definition
import RdStubs.Error
import RdStubs.Method.Formals
import RdStubs.Method.PageName
import RdStubs.Method.Signature
import RdStubs.Redirects

/-!
# Methods

A method knows its name, class signature and parameter list, and the file it was found in. Its
page is looked for in the `man` directory of the package that the file belongs to. The first look
decides: what it found, be it nothing, is part of the method from then on.
-/

namespace RdStubs

inductive Lookup where
  | pending
  | done (page? : Option Path)
deriving DecidableEq, Repr

structure Method where
  name : Text
  signature : Text
  formals : Text
  source : Path
  lookup : Lookup := .pending
deriving DecidableEq, Repr

namespace Method

def ofParts (name classExpr formals : Text) (source : Path) : Except Error Method :=
  if name = placeholderWord then
    .error (.reservedName
      (Text.join ", ".toList [classExpr, Text.trimEnd formals, source.text]))
  else
    .ok { name := Text.unwrap '\x60' name
          signature := Signature.ofExpr classExpr
          formals := Formals.clean formals
          source }

def hasPlainName (m : Method) : Bool := m.name.all fun c => Text.isWordChar c || c = ',' || c = '.'

def label (m : Method) : Text := m.source.text ++ ": ".toList ++ m.name ++ m.formals

def pageName (redirects : Redirects) (m : Method) : Text :=
  redirects.resolve (PageName.ofName m.name)

def manDirectory (m : Method) : Path :=
  ((m.source.parent?.bind Path.parent?).getD ⟨[]⟩).join ⟨"man".toList⟩

/-- Where the page may be, most likely place first. -/
def candidates (redirects : Redirects) (m : Method) : List Path :=
  [m.manDirectory.join ⟨m.pageName redirects ++ ".Rd".toList⟩]

def lookUp (tree : FileTree) (redirects : Redirects) (m : Method) : Method :=
  match m.lookup with
  | .pending => { m with lookup := .done ((m.candidates redirects).find? tree.exists?) }
  | .done _ => m

/-- The page that was found; nothing is looked for. -/
def page? (m : Method) : Option Path :=
  match m.lookup with
  | .pending => none
  | .done page? => page?

end Method

end RdStubs
