import RdStubs.FileTree
import RdStubs.Glob.Pattern

/-!
# Expansion of glob patterns

A pattern is followed through the file tree part by part. Names in a directory come in the order
of their characters, a directory before what is in it. The working directory is not shown in the
paths that are found.
-/

namespace RdStubs.Glob

def workDir : Path := ⟨['.']⟩

def entryPath (dir : Path) (name : Text) : Path :=
  if dir.SameAs workDir then ⟨name⟩ else dir.join ⟨name⟩

def sortedNames (t : FileTree) (dir : Path) : List Text :=
  (t.childNames dir).mergeSort fun a b => !decide (b < a)

/-- No location in the tree has more names than this. -/
def depth (t : FileTree) : Nat := (t.entries.map fun e => e.1.length).foldl max 0

def below (t : FileTree) : Nat → Path → List (Text × Path)
  | 0, _ => []
  | levels + 1, dir =>
    (sortedNames t dir).flatMap fun name =>
      (name, entryPath dir name) :: below t levels (entryPath dir name)

/-- The directory entries `..` and `.`, which only a part that begins with a dot can mean. -/
def dotEntries (ts : List Token) (dir : Path) : List Path :=
  if ts.head? = some (.char '.') then
    ([['.', '.'], ['.']].filter (isMatch ts)).map fun name => dir.join ⟨name⟩
  else []

/-- What the parts lead to from a path. The part behind any number of directories is matched against
the names below, and a further such part adds nothing. -/
def follow (t : FileTree) : List Part → Path → List Path
  | [], p => [p]
  | .literal name :: parts, dir =>
    let next := entryPath dir name
    let stays := name = ['.'] ∨ name = ['.', '.']
    if if stays then t.isDirectory dir else t.exists? next then follow t parts next else []
  | .wildcard ts :: parts, dir =>
    if t.isDirectory dir then
      (dotEntries ts dir ++ ((sortedNames t dir).filter (isMatch ts)).map (entryPath dir)).flatMap
        (follow t parts)
    else []
  | [.directories], dir => ((below t (depth t) dir).map (·.2)).filter t.isDirectory
  | .directories :: .directories :: parts, dir => follow t (.directories :: parts) dir
  | .directories :: part :: parts, dir =>
    (below t (depth t) dir).flatMap fun (name, p) =>
      if part.accepts name then follow t parts p else []

def expand (t : FileTree) (pattern : Pattern) : List Path :=
  (follow t pattern.parts (if pattern.absolute then ⟨['/']⟩ else workDir)).filter fun p =>
    !pattern.onlyDirectories || t.isDirectory p

end RdStubs.Glob
