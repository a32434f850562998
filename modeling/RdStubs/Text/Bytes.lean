import RdStubs.Text.Blank

/-!
# Texts by bytes

Lengths and cuts of a text that are counted in the bytes of its UTF-8 form. A cut has to fall
between two characters.
-/

namespace RdStubs.Text

def byteLength (s : Text) : Nat := (s.map Char.utf8Size).foldr (· + ·) 0

def splitBytes? : Nat → Text → Option (Text × Text)
  | 0, s => some ([], s)
  | _ + 1, [] => none
  | n, c :: s =>
    if c.utf8Size ≤ n then
      (splitBytes? (n - c.utf8Size) s).map fun (taken, rest) => (c :: taken, rest)
    else none

example : splitBytes? 3 "é→".toList = none ∧
    splitBytes? 2 "é→".toList = some ("é".toList, "→".toList) := by decide

end RdStubs.Text
