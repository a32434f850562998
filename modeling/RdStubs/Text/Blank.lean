/-!
# Texts and blank characters

A text is the list of its characters. `isBlank` is Unicode's White_Space property; the functions
here drop blanks at the ends of a text, and every module that skips or trims uses them.
-/

namespace RdStubs

abbrev Text := List Char

/-- The 25 characters with Unicode's White_Space property, in code point order. -/
def blanks : List Char :=
  ['\t', '\n', '\x0b', '\x0c', '\r', ' ', '\u0085', '\u00a0', '\u1680',
    '\u2000', '\u2001', '\u2002', '\u2003', '\u2004', '\u2005', '\u2006', '\u2007', '\u2008',
    '\u2009', '\u200a', '\u2028', '\u2029', '\u202f', '\u205f', '\u3000']

/-- Line breaks are blank, so a run of blanks may cross lines. -/
def isBlank (c : Char) : Bool := blanks.contains c

example : blanks.length = 25 := rfl

namespace Text

def dropBlank (s : Text) : Text := s.dropWhile isBlank

def trimEnd (s : Text) : Text := (s.reverse.dropWhile isBlank).reverse

def trim (s : Text) : Text := trimEnd (dropBlank s)

example : trim "\u00a0 a b\r\n".toList = "a b".toList := by decide

end Text

end RdStubs
