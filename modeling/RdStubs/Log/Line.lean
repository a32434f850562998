import RdStubs.Task

/-!
# Log lines

A notice is shown as its level, right-aligned, and its message. Control characters that would
drive a terminal are written as escapes; line breaks stay.
-/

namespace RdStubs.Log

def levelColumn : Level → Text
  | .error => "ERROR".toList
  | .warn => " WARN".toList
  | .info => " INFO".toList
  | .debug => "DEBUG".toList
  | .trace => "TRACE".toList

def hexDigits (n : Nat) : Text := [Nat.digitChar (n / 16), Nat.digitChar (n % 16)]

def isTerminalControl (c : Char) : Bool :=
  c = '\x07' || c = '\x08' || c = '\x0c' || c = '\x1b' || c = '\x7f'

def shown (c : Char) : Text :=
  if isTerminalControl c then "\\x".toList ++ hexDigits c.toNat
  else if 0x80 ≤ c.toNat && c.toNat ≤ 0x9f then
    "\\u\x7b".toList ++ hexDigits c.toNat ++ "\x7d".toList
  else [c]

def line (n : Notice) : Text := levelColumn n.level ++ ' ' :: n.message.flatMap shown ++ ['\n']

end RdStubs.Log
