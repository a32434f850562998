import RdStubs.Text.Search

/-!
# Page names

A method is documented on a page whose name is the method's own, unless the name would not do for
a file: operators, replacement methods and infix operators have names of their own here.
-/

namespace RdStubs.PageName

def replaced? (name : Text) : Option Text := "<-".toList.isSuffixOf? name

/-- The letters between the percent signs of an infix operator, in double quotes or not. -/
def operatorLetters? (isLetter : Char → Bool) (name : Text) : Option Text :=
  (Text.unwrap? '%' (Text.unwrap '"' name)).filter (·.all isLetter)

def ofName (name : Text) : Text :=
  if name = "[".toList then "bracket".toList
  else if name = "[[".toList then "double.bracket".toList
  else if name = "+".toList then "plus".toList
  else if name = "-".toList then "minus".toList
  else match replaced? name with
  | some base => base ++ ".set".toList
  | none =>
    match operatorLetters? Char.isLower name, operatorLetters? Char.isUpper name with
    | some letters, _ => "infix.".toList ++ letters
    | none, some letters => "infix.large".toList ++ letters.map Char.toLower
    | none, none => name

example : ofName "%in%".toList = "infix.in".toList ∧ ofName "%OR%".toList = "infix.largeor".toList ∧
    ofName "names<-".toList = "names.set".toList ∧ ofName "%in_x%".toList = "%in_x%".toList := by
  decide

end RdStubs.PageName
