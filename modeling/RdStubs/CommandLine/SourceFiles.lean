import RdStubs.CommandLine.Failure
import RdStubs.Glob.Expand

/-!
# Source files

An argument that names a file is that file; any other is a glob pattern and has to match a file.
The order of the arguments is kept.
-/

namespace RdStubs.SourceFiles

def ofArgument (tree : FileTree) (argument : Text) : Except Failure (List Path) :=
  if tree.isFile ⟨argument⟩ then .ok [⟨argument⟩]
  else
    match Glob.Pattern.ofText argument with
    | .error e => .error ⟨"invalid glob pattern: ".toList ++ argument, [e.message]⟩
    | .ok pattern =>
      match (Glob.expand tree pattern).filter tree.isFile with
      | [] => .error { message := "no such file: ".toList ++ argument }
      | files => .ok files

def ofArguments (tree : FileTree) (arguments : List Text) : Except Failure (List Path) :=
  List.flatten <$> arguments.mapM (ofArgument tree)

end RdStubs.SourceFiles
