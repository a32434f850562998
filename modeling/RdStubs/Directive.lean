import RdStubs.Text.Search

/-!
# Directives

A line between two definitions may open a region of placeholder names (`#+`), close it (`#-`),
or redirect a page name to another one (`#=raw page`). Every other line is read as the name that
it would declare inside a region. Blanks around a line never matter.
-/

namespace RdStubs

inductive Directive where
  | opens
  | closes
  | redirect (raw page : Text)
  /-- A redirect that lacks one of its two names. -/
  | incomplete
  | name (n : Text)
deriving DecidableEq, Repr

namespace Directive

def dropComma (s : Text) : Text :=
  if s.getLast? = some ',' then Text.trimEnd s.dropLast else s

/-- The name on a line of a region: one comma at the end and one pair of quotes are not part of
it. -/
def listedName (line : Text) : Text := Text.unwrap '"' (dropComma (Text.trim line))

def ofFields : List Text → Directive
  | raw :: page :: _ => .redirect raw page
  | _ => .incomplete

def ofLine (line : Text) : Directive :=
  match Text.trim line with
  | ['#', '+'] => .opens
  | ['#', '-'] => .closes
  | '#' :: '=' :: spec => ofFields (Text.fields spec)
  | _ => .name (listedName line)

example : ofLine "  #=infix.k\tsubset more".toList = .redirect "infix.k".toList "subset".toList := by
  decide

example : ofLine " \"%in%\" , ".toList = .name "%in%".toList := by decide

end Directive

end RdStubs
