import RdStubs.Text.Search

/-!
# Class signatures

A class signature is the list of class names in a class expression, joined by commas: the runs of
word characters and dots, without the function `c` that combines them.
-/

namespace RdStubs.Signature

def isClassChar (c : Char) : Bool := Text.isWordChar c || c = '.'

def classNames (classExpr : Text) : List Text :=
  (Text.runs isClassChar classExpr).filter (· ≠ ['c'])

def ofExpr (classExpr : Text) : Text := Text.join [','] (classNames classExpr)

def primary? (signature : Text) : Option Text := (Text.runs Text.isWordChar signature).head?

example : ofExpr "signature(c(\"A\", \"B.x\"))".toList = "signature,A,B.x".toList := by decide

end RdStubs.Signature
