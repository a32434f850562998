import RdStubs.Text.Blank

/-!
# Control sequences

Sequences of characters that begin with an escape drive a terminal and are not seen. `plain` is
what is left of a text when they are dropped together with the control characters that are not
blank. Sequences are read byte by byte, so a byte inside a longer character can end one.
-/

namespace RdStubs.Text

inductive Region where
  | outside
  | escape
  /-- Between the marks behind an escape and the character that they belong to. -/
  | marks
  | parameters
  | device
  | deviceParameters
  | deviceMarks
  | string
  | command
deriving DecidableEq, Repr

namespace Region

def within (first last b : Nat) : Bool := first ≤ b && b ≤ last

/-- The region behind the byte `b`. An escape begins anew everywhere. -/
def next (r : Region) (b : Nat) : Region :=
  if b = 0x1b then escape
  else if b = 0x18 ∨ b = 0x1a then outside
  else
    match r with
    | outside => outside
    | escape =>
      if within 0x20 0x2f b then marks
      else if b = '['.toNat then parameters
      else if b = ']'.toNat then command
      else if b = 'P'.toNat then device
      else if b = 'X'.toNat ∨ b = '^'.toNat ∨ b = '_'.toNat then string
      else if within 0x30 0x7e b then outside
      else escape
    | marks => if within 0x30 0x7e b then outside else marks
    | parameters => if within 0x40 0x7e b then outside else parameters
    | device =>
      if within 0x20 0x2f b then deviceMarks
      else if b = ':'.toNat ∨ within 0x40 0x7e b then string
      else if within 0x30 0x3f b then deviceParameters
      else device
    | deviceParameters =>
      if within 0x20 0x2f b then deviceMarks
      else if within 0x30 0x39 b ∨ b = ';'.toNat then deviceParameters
      else if within 0x30 0x7e b then string
      else deviceParameters
    | deviceMarks => if within 0x30 0x7e b then string else deviceMarks
    | string => if b = 0x9c then outside else string
    | command => if b = 0x07 then outside else command

def nextChar (r : Region) (c : Char) : Region :=
  (String.utf8EncodeChar c).foldl (fun r b => r.next b.toNat) r

/-- A blank control character does not disturb a sequence of this part and is seen. -/
def letsBlanksThrough : Region → Bool
  | escape | marks | parameters => true
  | _ => false

end Region

def isBlankControl (c : Char) : Bool := c = '\t' || c = '\n' || c = '\x0c' || c = '\r'

def isControl (c : Char) : Bool := c.toNat < 0x20 || c = '\x7f'

/-- The part of a text that is seen. Once a character is seen, all up to the next control character
are, and only there does a sequence go on that a blank has interrupted. -/
def plainFrom (seen : Bool) (r : Region) : Text → Text
  | [] => []
  | c :: s =>
    if (seen || r = .outside) && !isControl c
        || (seen || r = .outside || r.letsBlanksThrough) && isBlankControl c then
      c :: plainFrom true (if c.toNat < 0x80 then r else .outside) s
    else plainFrom false (r.nextChar c) s

def plain (s : Text) : Text := plainFrom true .outside s

example : plain "a\x1b[1;31mb\x07\tc\x1b]0;d\x07e".toList = "ab\tce".toList := by decide +kernel

end RdStubs.Text
