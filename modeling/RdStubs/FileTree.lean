import RdStubs.Path

/-!
# File trees

A file tree says what stands at each location and where relative paths start. `locate` follows a
path one segment at a time, the way an operating system does: every step needs a directory to
start from, `..` goes one directory up, and an idle segment stays. Reading, appending and the
tests for existence all go through it. There are no permissions and no links, and nothing fails but
for the reasons in `FileError`.
-/

namespace RdStubs

/-- The names on the way from the root. -/
abbrev Location := List Text

inductive Entry where
  | file (content : ByteArray)
  | directory

inductive FileError where
  | notFound
  | notADirectory
  | isADirectory
  | nameTooLong
  | nulInPath
  | notText
deriving DecidableEq, Repr

def FileError.message : FileError → Text
  | notFound => "No such file or directory (os error 2)".toList
  | notADirectory => "Not a directory (os error 20)".toList
  | isADirectory => "Is a directory (os error 21)".toList
  | nameTooLong => "File name too long (os error 36)".toList
  | nulInPath => "file name contained an unexpected NUL byte".toList
  | notText => "stream did not contain valid UTF-8".toList

def Entry.isDirectory : Entry → Bool
  | directory => true
  | file _ => false

def Entry.isFile (e : Entry) : Bool := !e.isDirectory

structure FileTree where
  workDir : Location
  entries : List (Location × Entry)

namespace FileTree

/-- What stands at a location; the root is always a directory. -/
def entry? (t : FileTree) (l : Location) : Option Entry :=
  if l = [] then some .directory else t.entries.lookup l

def isDirectoryAt (t : FileTree) (l : Location) : Bool := (t.entry? l).any Entry.isDirectory

def utf8Size (s : Text) : Nat := (s.map Char.utf8Size).foldr (· + ·) 0

/-- The longest name of a directory entry, in bytes. -/
def maxName : Nat := 255

/-- The longest path, in bytes. -/
def maxPath : Nat := 4095

def step (t : FileTree) (here : Location) (segment : Text) : Except FileError Location :=
  if !t.isDirectoryAt here then .error .notADirectory
  else if Path.isIdle segment then .ok here
  else if segment = ['.', '.'] then .ok here.dropLast
  else if maxName < utf8Size segment then .error .nameTooLong
  else if (t.entry? (here ++ [segment])).isNone then .error .notFound
  else .ok (here ++ [segment])

def locate (t : FileTree) (p : Path) : Except FileError Location :=
  if '\x00' ∈ p.text then .error .nulInPath
  else if p.text = [] then .error .notFound
  else if maxPath < utf8Size p.text then .error .nameTooLong
  else p.segments.foldlM t.step (if p.isAbsolute then [] else t.workDir)

def find? (t : FileTree) (p : Path) : Option Entry := (t.locate p).toOption.bind t.entry?

def exists? (t : FileTree) (p : Path) : Bool := (t.find? p).isSome

def isFile (t : FileTree) (p : Path) : Bool := (t.find? p).any Entry.isFile

def isDirectory (t : FileTree) (p : Path) : Bool := (t.find? p).any Entry.isDirectory

def childName? (dir l : Location) : Option Text :=
  match dir.isPrefixOf? l with
  | some [n] => some n
  | _ => none

def childNames (t : FileTree) (p : Path) : List Text :=
  match t.locate p with
  | .ok dir => t.entries.filterMap fun e => childName? dir e.1
  | .error _ => []

def contentAt (t : FileTree) (l : Location) : Except FileError ByteArray :=
  match t.entry? l with
  | some (.file content) => .ok content
  | some .directory => .error .isADirectory
  | none => .error .notFound

def decode (content : ByteArray) : Except FileError Text :=
  match String.fromUTF8? content with
  | some s => .ok s.toList
  | none => .error .notText

def readText (t : FileTree) (p : Path) : Except FileError Text := do
  decode (← t.contentAt (← t.locate p))

def encode (s : Text) : ByteArray := (String.ofList s).toUTF8

def appendAt (t : FileTree) (l : Location) (bytes : ByteArray) : FileTree :=
  { t with entries := t.entries.map fun e =>
      match e with
      | (m, .file content) => (m, .file (if m = l then content ++ bytes else content))
      | (m, .directory) => (m, .directory) }

/-- Appends to a file that is there; nothing is created. -/
def append (t : FileTree) (p : Path) (s : Text) : Except FileError FileTree := do
  let l ← t.locate p
  let _ ← t.contentAt l
  return t.appendAt l (encode s)

def insertAt (t : FileTree) (l : Location) (e : Entry) : FileTree :=
  { t with entries := (l, e) :: t.entries.filter (·.1 ≠ l) }

def eraseAt (t : FileTree) (l : Location) : FileTree :=
  { t with entries := t.entries.filter (·.1 ≠ l) }

def resolve (here : Location) : List Text → Location
  | [] => here
  | segment :: more =>
    if Path.isIdle segment then resolve here more
    else if segment = ['.', '.'] then resolve here.dropLast more
    else resolve (here ++ [segment]) more

def makeDirectories (t : FileTree) (l : Location) : FileTree :=
  (List.range l.length).foldl (fun t n =>
    let dir := l.take (n + 1)
    if (t.entry? dir).isSome then t else t.insertAt dir .directory) t

def put (t : FileTree) (p : Path) (e : Entry) : FileTree :=
  let l := resolve (if p.isAbsolute then [] else t.workDir) p.segments
  (t.makeDirectories l.dropLast).insertAt l e

def remove (t : FileTree) (p : Path) : FileTree :=
  match t.locate p with
  | .ok l => t.eraseAt l
  | .error _ => t

def empty (workDir : Location) : FileTree := makeDirectories ⟨workDir, []⟩ workDir

end FileTree

end RdStubs
