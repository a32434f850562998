import RdStubs.Text.Blank

/-!
# Runs of a character class, pieces between separators, lines

`runs p` lists the maximal runs of characters in the class `p`; `fields` are the runs of
characters that are not blank. `split` cuts at a separator and keeps empty pieces. `lines` cuts
at line breaks: a carriage return directly before a break goes with it, and nothing follows the
last break.
-/

namespace RdStubs.Text

/-- Puts a character in front of the first piece, which is started if there is none. -/
def consFirst (c : Char) : List Text → List Text
  | [] => [[c]]
  | piece :: pieces => (c :: piece) :: pieces

def runs (p : Char → Bool) : Text → List Text
  | [] => []
  | c :: s =>
    if p c then
      if s.head?.any p then consFirst c (runs p s) else [c] :: runs p s
    else runs p s

def fields (s : Text) : List Text := runs (fun c => !isBlank c) s

def split (sep : Char) : Text → List Text
  | [] => [[]]
  | c :: s => if c = sep then [] :: split sep s else consFirst c (split sep s)

def lines : Text → List Text
  | [] => []
  | '\n' :: s => [] :: lines s
  | '\r' :: '\n' :: s => [] :: lines s
  | c :: s => consFirst c (lines s)

def join (sep : Text) (pieces : List Text) : Text := sep.intercalate pieces

example : fields " a\tbc \n".toList = ["a".toList, "bc".toList] := by decide

example : split '/' "a//b".toList = ["a".toList, [], "b".toList] := by decide

example : lines "a\r\nb\rc\n\nd".toList = ["a".toList, "b\rc".toList, [], "d".toList] := by decide

end RdStubs.Text
