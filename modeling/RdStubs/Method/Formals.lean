import RdStubs.Text.Search

/-!
# Parameter lists

The text behind `function` holds the parameter list, the opening brace of the body and, where a
default reaches into a slot, an access such as `x@slot`. `Formals.clean` leaves the list as it is
shown: without the brace, cut in front of the first slot access, and without blanks at the end.
-/

namespace RdStubs.Formals

def fromLastBreak? : Text → Option Text
  | [] => none
  | c :: s =>
    match fromLastBreak? s with
    | some t => some t
    | none => if c = '\n' then some (c :: s) else none

/-- What is left of a text that begins with a brace when the brace goes. The brace must be the last
character of its line but for blanks; those blanks go with it, to the end of the text or up to
the last line break among them. -/
def afterBodyBrace? : Text → Option Text
  | '\x7b' :: s =>
    let rest := Text.dropBlank s
    if rest = [] then some []
    else (fromLastBreak? (s.takeWhile isBlank)).map (· ++ rest)
  | _ => none

/-- Whether the text begins with a word directly followed by `@`, blanks in front included. -/
def startsSlotAccess (s : Text) : Bool :=
  let word := Text.dropBlank s
  word.head?.any Text.isWordChar && (word.dropWhile Text.isWordChar).head? = some '@'

def clean (s : Text) : Text :=
  Text.trimEnd (Text.cutAt startsSlotAccess (Text.eraseFirst afterBodyBrace? s))

/-- What follows the parameter `value` at the end of a list of several. -/
def afterValue? : Text → Option Text
  | ',' :: s => "value".toList.isPrefixOf? (Text.dropBlank s)
  | _ => none

def dropValue (s : Text) : Text := Text.trimEnd (Text.eraseFirst afterValue? s)

example : clean "(x, y = x@slot) \x7b\n".toList = "(x, y =".toList := by decide

example : dropValue "(x, i, value)".toList = "(x, i)".toList := by decide

end RdStubs.Formals
