import RdStubs.FileTree

/-!
# Errors

The causes that end the work, and the text that each is reported with.
-/

namespace RdStubs

inductive Error where
  | malformedDirective (line : Text)
  | notADefinition (statement : Text)
  /-- A placeholder definition for which no group with a name is left. -/
  | noPlaceholders (statement : Text)
  /-- A method cannot be called by the word that stands for placeholders. -/
  | reservedName (context : Text)
  | noPage (name : Text) (candidates : List Path)
  | file (path : Path) (cause : FileError)
deriving DecidableEq, Repr

def Error.message : Error → Text
  | malformedDirective line => "malformed placeholder directive: ".toList ++ line
  | notADefinition statement => "not an S4 method definition: ".toList ++ statement
  | noPlaceholders statement => "expected placeholders for line: ".toList ++ statement
  | reservedName context => "name cannot be 'func_' (".toList ++ context ++ ")".toList
  | noPage name candidates =>
    "Rd files for method ".toList ++ name ++ " (".toList
      ++ Text.join ", ".toList (candidates.map Path.text) ++ ") do not exist!".toList
  | file path cause => path.text ++ ": ".toList ++ cause.message

end RdStubs
