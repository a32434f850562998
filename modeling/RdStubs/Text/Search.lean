import RdStubs.Text.Runs

/-!
# Finding, cutting and unwrapping

Searches go from left to right and act on the first place that fits: `eraseFirst` removes one
stretch, `cutAt` drops everything from the place on. `unwrap` takes off one pair of enclosing
marks.
-/

namespace RdStubs.Text

def isWordChar (c : Char) : Bool := c.isAlphanum || c = '_'

def occursIn (w : Text) : Text → Bool
  | [] => w.isEmpty
  | c :: s => w.isPrefixOf (c :: s) || occursIn w s

/-- Removes the first stretch that `after?` recognises; `after?` returns what follows the
stretch. -/
def eraseFirst (after? : Text → Option Text) : Text → Text
  | [] => []
  | c :: s => (after? (c :: s)).getD (c :: eraseFirst after? s)

/-- Keeps what stands before the first place where `stop` holds of the remaining text. -/
def cutAt (stop : Text → Bool) : Text → Text
  | [] => []
  | c :: s => if stop (c :: s) then [] else c :: cutAt stop s

def unwrap? (q : Char) : Text → Option Text
  | [] => none
  | c :: s =>
    if c = q ∧ s.getLast? = some q ∧ s.dropLast ≠ [] ∧ q ∉ s.dropLast then some s.dropLast else none

def unwrap (q : Char) (s : Text) : Text := (unwrap? q s).getD s

def escape (c mark : Char) (s : Text) : Text := s.flatMap fun d => if d = c then [mark, d] else [d]

example : occursIn "bc".toList "abcd".toList = true := by decide

example : unwrap '"' "\"a b\"".toList = "a b".toList ∧ unwrap '"' "\"\"".toList = "\"\"".toList := by
  decide

end RdStubs.Text
