import RdStubs.Text.Runs

/-!
# Glob patterns

A pattern is read as a whole first and then part by part between separators; a fault is reported
with the place where it was seen. A part matches the name of a directory entry: `?` stands for
one character, `*` for any number, brackets for one character within or outside the ranges they
list. The part `**` stands for any number of directories.
-/

namespace RdStubs.Glob

inductive Token where
  | char (c : Char)
  | anyChar
  | anyChars
  | anyDirectories
  | within (ranges : List (Char × Char))
  | outside (ranges : List (Char × Char))
deriving DecidableEq, Repr

inductive Fault where
  | range
  | stars
  | recursiveStars
deriving DecidableEq, Repr

structure PatternError where
  position : Nat
  fault : Fault
deriving DecidableEq, Repr

def Fault.message : Fault → Text
  | range => "invalid range pattern".toList
  | stars => "wildcards are either regular \x60*\x60 or recursive \x60**\x60".toList
  | recursiveStars => "recursive wildcards must form a single path component".toList

def PatternError.message (e : PatternError) : Text :=
  "Pattern syntax error near position ".toList ++ (toString e.position).toList ++ ": ".toList
    ++ e.fault.message

def ranges : Text → List (Char × Char)
  | a :: '-' :: b :: s => (a, b) :: ranges s
  | a :: s => (a, a) :: ranges s
  | [] => []

/-- The listed ranges up to the closing bracket and how many characters that took. The first
character is listed even if it is a bracket. -/
def bracketed? (first : Char) (s : Text) : Option (List (Char × Char) × Nat) :=
  (s.idxOf? ']').map fun n => (ranges (first :: s.take n), n + 2)

def bracket? : Text → Option (Token × Nat)
  | '!' :: c :: s => (bracketed? c s).map fun (ranges, n) => (.outside ranges, n + 1)
  | '!' :: _ => none
  | c :: s => (bracketed? c s).map fun (ranges, n) => (.within ranges, n)
  | [] => none

def tokensAt (position : Nat) (before? : Option Char) (s : Text) :
    Except PatternError (List Token) :=
  match s with
  | [] => .ok []
  | '?' :: s => (Token.anyChar :: ·) <$> tokensAt (position + 1) (some '?') s
  | '*' :: '*' :: '*' :: _ => .error ⟨position + 2, .stars⟩
  | '*' :: '*' :: s =>
    if before?.any (· ≠ '/') then .error ⟨position - 1, .recursiveStars⟩
    else
      match s with
      | [] => .ok [.anyDirectories]
      | '/' :: s => (Token.anyDirectories :: ·) <$> tokensAt (position + 3) (some '/') s
      | _ => .error ⟨position + 2, .recursiveStars⟩
  | '*' :: s => (Token.anyChars :: ·) <$> tokensAt (position + 1) (some '*') s
  | '[' :: s =>
    match bracket? s with
    | some (token, n) => (token :: ·) <$> tokensAt (position + 1 + n) (some ']') (s.drop n)
    | none => .error ⟨position, .range⟩
  | c :: s => (Token.char c :: ·) <$> tokensAt (position + 1) (some c) s
termination_by s.length
decreasing_by all_goals simp_all <;> omega

def tokens (s : Text) : Except PatternError (List Token) := tokensAt 0 none s

def Token.accepts (c : Char) : Token → Bool
  | char d => c = d
  | within ranges => ranges.any fun (a, b) => a ≤ c && c ≤ b
  | outside ranges => !ranges.any fun (a, b) => a ≤ c && c ≤ b
  | _ => true

def anySuffix (p : Text → Bool) : Text → Bool
  | [] => p []
  | c :: s => p (c :: s) || anySuffix p s

def isMatch : List Token → Text → Bool
  | [], s => s.isEmpty
  | .anyChars :: ts, s => anySuffix (isMatch ts) s
  | .anyDirectories :: ts, s => anySuffix (isMatch ts) s
  | t :: ts, s =>
    match s with
    | [] => false
    | c :: s => t.accepts c && isMatch ts s

inductive Part where
  | literal (name : Text)
  | wildcard (tokens : List Token)
  | directories
deriving DecidableEq, Repr

def Token.char? : Token → Option Char
  | char c => some c
  | _ => none

def Part.ofTokens (ts : List Token) : Part :=
  if ts = [.anyDirectories] then .directories
  else
    match ts.mapM Token.char? with
    | some name => .literal name
    | none => .wildcard ts

def Part.accepts : Part → Text → Bool
  | literal name, s => s = name
  | wildcard ts, s => isMatch ts s
  | directories, _ => true

structure Pattern where
  absolute : Bool
  parts : List Part
  /-- Whether the pattern ends in a separator and so asks for directories. -/
  onlyDirectories : Bool
deriving DecidableEq, Repr

/-- The pieces between separators; nothing follows a separator at the end. -/
def pieces (s : Text) : List Text :=
  let all := Text.split '/' s
  if 1 < all.length ∧ all.getLast? = some [] then all.dropLast else all

def Pattern.ofText (s : Text) : Except PatternError Pattern := do
  let _ ← tokens s
  let absolute := s.head? = some '/'
  let parts ← (pieces (if absolute then s.drop 1 else s)).mapM tokens
  return { absolute, parts := parts.map Part.ofTokens, onlyDirectories := s.getLast? = some '/' }

end RdStubs.Glob
