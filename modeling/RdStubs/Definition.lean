import RdStubs.Text.Runs

/-!
# Method definitions

A definition is what `setMethod` or `setReplaceMethod` is called with: a name slot, a class
expression, and the text from the parameter list on. `readHere?` reads one at the start of a text,
`read?` at the first line start where that succeeds. The class expression runs up to the last
comma that is followed by `function` and a parenthesis, so it may contain commas and even such
words itself.
-/

namespace RdStubs

/-- What a definition gives as its name: a quoted name, or the mark that stands for the names of a
placeholder group. -/
inductive NameSlot where
  | quoted (name : Text)
  | placeholder
deriving DecidableEq, Repr

structure Definition where
  slot : NameSlot
  classExpr : Text
  /-- From the parenthesis of the parameter list to the end of the text. -/
  formals : Text
deriving DecidableEq, Repr

/-- The bare or quoted word that stands for the names of a placeholder group. -/
def placeholderWord : Text := "func_".toList

namespace Definition

def after? (w : String) (s : Text) : Option Text := w.toList.isPrefixOf? s

def slot? (s : Text) : Option (NameSlot × Text) :=
  match after? "\"" s with
  | some s =>
    let name := s.takeWhile (· ≠ '"')
    match s.dropWhile (· ≠ '"') with
    | _ :: rest =>
      if name = [] then none
      else some (if name = placeholderWord then .placeholder else .quoted name, rest)
    | [] => none
  | none => (placeholderWord.isPrefixOf? s).map fun rest => (.placeholder, rest)

def formals? (s : Text) : Option Text := do
  let s ← after? "function" (Text.dropBlank s)
  let s := Text.dropBlank s
  if s.head? = some '(' then some s else none

/-- Cuts at the last comma with a parameter list behind it: what stands before the comma, and the
list. -/
def cutAtFormals? : Text → Option (Text × Text)
  | [] => none
  | c :: s =>
    match cutAtFormals? s with
    | some (before, formals) => some (c :: before, formals)
    | none => if c = ',' then (formals? s).map fun formals => ([], formals) else none

/-- The class expression, which begins with a character that is not blank, and the parameter
list. -/
def classAndFormals? : Text → Option (Text × Text)
  | [] => none
  | c :: s =>
    if isBlank c then none
    else (cutAtFormals? s).map fun (before, formals) => (Text.trimEnd (c :: before), formals)

def afterSignature? (s : Text) : Option Text := do
  let s ← after? "signature" s
  let s ← after? "=" (Text.dropBlank s)
  some (Text.dropBlank s)

/-- Reads a definition at the start of a text. A reading that leaves `signature =` out of the class
expression wins over one that keeps it. -/
def readHere? (s : Text) : Option Definition := do
  let s ← after? "set" (Text.dropBlank s)
  let s ← after? "Method" ((after? "Replace" s).getD s)
  let s ← after? "(" (Text.dropBlank s)
  let (slot, s) ← slot? (Text.dropBlank s)
  let s ← after? "," (Text.dropBlank s)
  let s := Text.dropBlank s
  let (classExpr, formals) ← (afterSignature? s).bind classAndFormals? <|> classAndFormals? s
  some { slot, classExpr, formals }

def laterLines : Text → List Text
  | [] => []
  | c :: s => if c = '\n' then s :: laterLines s else laterLines s

def read? (s : Text) : Option Definition := (s :: laterLines s).findSome? readHere?

/-- Whether a definition begins on this line and reaches its parameter list there. -/
def opensOn (line : Text) : Bool := (read? line).isSome

example : read? "setMethod(\"f\", signature = \"A\", function(x) \x7b".toList =
    some ⟨.quoted "f".toList, "\"A\"".toList, "(x) \x7b".toList⟩ := by decide

example : read? "x\n setReplaceMethod(func_ ,c(A, B) , function (x, value)".toList =
    some ⟨.placeholder, "c(A, B)".toList, "(x, value)".toList⟩ := by decide

end Definition

end RdStubs
