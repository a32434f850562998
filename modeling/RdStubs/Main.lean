import RdStubs.CommandLine.Run

/-!
# The command

Copies what the command can look at into a file tree, runs it there, and appends to the files on
disk what was appended in the tree.
-/

namespace RdStubs.Main

def load (tree : FileTree) (p : Path) : IO FileTree := do
  let cwd ← IO.currentDir
  let mut tree := tree
  let mut shown : List Text := []
  for segment in p.segments do
    shown := shown ++ [segment]
    let text := Text.join ['/'] shown
    if text ≠ [] then
      let place := cwd / String.ofList text
      if ← place.isDir then
        tree := tree.put ⟨text⟩ .directory
      else if ← place.pathExists then
        tree := tree.put ⟨text⟩ (.file (← IO.FS.readBinFile place))
  return tree

/-- The names below a directory, down to `levels` levels. The files are not read. -/
def list (tree : FileTree) (dir : Path) : Nat → IO FileTree
  | 0 => return tree
  | levels + 1 => do
    let place := (← IO.currentDir) / String.ofList dir.text
    let mut tree := tree
    if ← place.isDir then
      for entry in ← place.readDir do
        let p := dir.join ⟨entry.fileName.toList⟩
        if ← entry.path.isDir then
          tree ← list (tree.put p .directory) p levels
        else
          tree := tree.put p (.file .empty)
    return tree

/-- Where the wildcards of an argument begin, and how many levels they reach down. -/
def wildcards (argument : Text) : Path × Nat :=
  let segments := Text.split '/' argument
  let literal := segments.takeWhile fun s => !s.any (['?', '*', '['].contains ·)
  let levels := if segments.contains ['*', '*'] then 64 else segments.length - literal.length
  (⟨if literal = [[]] then ['/'] else if literal = [] then ['.'] else Text.join ['/'] literal⟩,
    levels)

def snapshot (files : List Text) : IO FileTree := do
  let cwd := (Text.split '/' (← IO.currentDir).toString.toList).filter (· ≠ [])
  let mut tree := FileTree.empty cwd
  for file in files do
    let (dir, levels) := wildcards file
    tree ← list (← load tree dir) dir levels
  let .ok sources := SourceFiles.ofArguments tree files | return tree
  for source in sources do
    tree ← load tree source
  let .ok methods p := (Source.readFiles tree sources).run { state := {} } | return tree
  for m in methods do
    for page in m.candidates p.state.redirects do
      tree ← load tree page
  return tree

/-- Appends to the files on disk what they have more in the second tree. -/
def save (before after : FileTree) : IO Unit := do
  for (l, entry) in after.entries do
    if let (.file new, some (.file old)) := (entry, before.entry? l) then
      if old.size < new.size then
        let path := String.ofList ('/' :: Text.join ['/'] l)
        let file ← IO.FS.Handle.mk path .append
        file.write (new.extract old.size new.size)

end RdStubs.Main

open RdStubs in
def main (args : List String) : IO UInt32 := do
  let arguments := args.map String.toList
  let files := match Invocation.ofArguments arguments with
    | .ok i => i.files
    | .error _ => []
  let tree ← Main.snapshot files
  let asked? := (← IO.getEnv "RUST_LOG").map String.toList
  let outcome := CommandLine.run tree asked? arguments
  Main.save tree outcome.tree
  IO.eprint (String.ofList outcome.errorText)
  return outcome.code.toUInt32
