import RdStubs.CommandLine.Invocation
import RdStubs.CommandLine.SourceFiles
import RdStubs.Log.Filter
import RdStubs.Log.Line

/-!
# Running the command

The command from its arguments to its exit code, on a file tree. All that it says goes to the
standard error stream.
-/

namespace RdStubs.CommandLine

def help : Text :=
  "Append S4 method aliases and usage entries to Rd files

Usage: s4doc [OPTIONS] [FILES]...

Arguments:
  [FILES]...  R source files (glob patterns supported). Order matters for \x60func_\x60 placeholders

Options:
  -q, --quiet  Run quietly
  -h, --help   Print help message and exit

".toList

structure Outcome where
  code : Nat
  errorText : Text
  tree : FileTree

def work (tree : FileTree) (files : List Text) : Except Failure Unit × Progress FileTree :=
  match SourceFiles.ofArguments tree files with
  | .error failure => (.error failure, { state := tree })
  | .ok sources =>
    let (result, progress) := Update.run tree sources
    (result.mapError Failure.ofFault, progress)

/-- Runs the command; `asked?` is the log filter that the environment asks for. -/
def run (tree : FileTree) (asked? : Option Text) (arguments : List Text) : Outcome :=
  match Invocation.ofArguments arguments with
  | .error e => ⟨2, e.message ++ ['\n'], tree⟩
  | .ok i =>
    if .help ∈ i.flags ∨ i.files = [] then ⟨1, help, tree⟩
    else
      let (result, progress) := work tree i.files
      let filter := Log.Filter.choose (.quiet ∈ i.flags) asked?
      let log := (progress.notices.filter filter.shows).flatMap Log.line
      match result with
      | .ok () => ⟨0, log, progress.state⟩
      | .error failure => ⟨1, log ++ failure.report, progress.state⟩

end RdStubs.CommandLine
