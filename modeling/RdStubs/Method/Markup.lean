import RdStubs.Method.Basic

/-!
# Markup of a method

The lines that a method contributes to its page: aliases, and an entry of the usage block. A
percent sign starts a comment there and is escaped in names.
-/

namespace RdStubs.Method

def braced (command : String) (content : Text) : Text :=
  command.toList ++ '\x7b' :: content ++ ['\x7d']

def doctype : Text := braced "\\docType" "methods".toList

def usageOpening : Text := "\\usage\x7b".toList

def usageClosing : Text := "\x7d".toList

def escapedName (m : Method) : Text := Text.escape '%' '\\' m.name

/-- Whether the path of the page that was found shows the first class of the signature. A method
without a class has nothing to show. -/
def pageMentionsClass (m : Method) (page : Path) : Bool :=
  (Signature.primary? m.signature).all fun word => Text.occursIn word page.text

def familyAlias (name : Text) : Text := braced "\\alias" (name ++ "-methods".toList)

def methodAlias (name signature : Text) : Text :=
  braced "\\alias" (name ++ ',' :: signature ++ "-method".toList)

/-- The alias lines. The first method of a page has the alias of its family in front, unless the
path of the page shows its class; a name that is not plain is given once as page name and once as
it is. -/
def aliasLines (first : Bool) (redirects : Redirects) (m : Method) : Text :=
  let name := if m.hasPlainName then m.name else m.pageName redirects
  let family := first && m.page?.any fun page => !m.pageMentionsClass page
  Text.join ['\n']
    ((if family then [familyAlias name] else [])
      ++ methodAlias name m.signature
      :: if m.hasPlainName then [] else [methodAlias m.escapedName m.signature])

/-- The line of the usage block; a replacement method is shown as an assignment. -/
def usageLine (m : Method) : Text :=
  match PageName.replaced? m.name with
  | some base =>
    braced "  \\S4method" base ++ braced "" m.signature ++ Formals.dropValue m.formals
      ++ " <- value".toList
  | none => braced "  \\S4method" m.escapedName ++ braced "" m.signature ++ m.formals

end RdStubs.Method
