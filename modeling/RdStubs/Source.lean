import RdStubs.Declarations
import RdStubs.Method.Basic

/-!
# Reading sources

A source is read line by line. A line on which a definition opens begins a statement, which ends
with the first line that ends in a brace; the lines between statements are declarations. A
statement becomes methods when the next one begins or the source ends, so the declarations right
behind it are taken in before it.
-/

namespace RdStubs.Source

/-- The statement that has been begun and not yet become methods. -/
inductive Pending where
  | none
  /-- The lines that follow still belong to it. -/
  | growing (statement : Text)
  | complete (statement : Text)
deriving DecidableEq, Repr

def endsInBrace (line : Text) : Bool := (Text.trimEnd line).getLast? = some '\x7b'

def Pending.extend (statement line : Text) : Pending :=
  let statement := statement ++ line ++ ['\n']
  if endsInBrace line then .complete statement else .growing statement

/-- The methods that a statement defines: one, or one for each name of the next placeholder
group. -/
def methodsOf (source : Path) (statement : Text) : Task Declarations (List Method) := do
  let some d := Definition.read? statement
    | throw (.notADefinition (Text.trimEnd statement))
  let names ← match d.slot with
    | .quoted name => pure [name]
    | .placeholder => Declarations.takeGroup statement
  let methods ← match names.mapM (Method.ofParts · d.classExpr d.formals source) with
    | .ok methods => pure methods
    | .error e => throw e
  methods.forM fun m => Task.note .debug .source ("found ".toList ++ m.label)
  return methods

def flush (source : Path) : Pending → Task Declarations (List Method)
  | .none => return []
  | .growing statement => methodsOf source statement
  | .complete statement => methodsOf source statement

def readLines (source : Path) : Pending → List Text → Task Declarations (List Method)
  | pending, [] => flush source pending
  | pending, line :: lines =>
    if Definition.opensOn line then do
      let done ← flush source pending
      let more ← readLines source (Pending.extend [] line) lines
      return done ++ more
    else
      match pending with
      | .growing statement => readLines source (Pending.extend statement line) lines
      | settled => do
        Declarations.declare line
        readLines source settled lines

def readText (source : Path) (text : Text) : Task Declarations (List Method) :=
  readLines source .none (Text.lines text)

def readFile (tree : FileTree) (source : Path) : Task Declarations (List Method) := do
  let text ← Task.ofFile source (tree.readText source)
  let methods ← readText source text
  if (← Task.state).hasOpenRegion then
    Task.note .warn .source
      (source.text ++ ": placeholder region not closed at end of file".toList)
  Task.note .debug .source
    (source.text ++ ": ".toList ++ (toString methods.length).toList ++ " S4 methods".toList)
  return methods

/-- Reads several sources in order. They share one set of declarations, so the order decides which
group a placeholder definition is given. -/
def readFiles (tree : FileTree) : List Path → Task Declarations (List Method)
  | [] => return []
  | source :: sources => do
    let methods ← readFile tree source
    let more ← readFiles tree sources
    return methods ++ more

end RdStubs.Source
