import Scorebook.Text.Invisible

/-!
# Quoted text in messages

A message that repeats a word it was given shows it in double quotes. Quotes, backslashes and
characters that do not show are escaped, so that the message says exactly which word it was.
-/

namespace Scorebook.Quoted

/-- The code of a character in hexadecimal. -/
def hexCode (c : Char) : List Char :=
  Nat.toDigits 16 c.toNat

/-- One character as it stands between the quotes. -/
def escape (c : Char) : List Char :=
  match c with
  | '"' => ['\\', '"']
  | '\\' => ['\\', '\\']
  | '\t' => ['\\', 't']
  | '\n' => ['\\', 'n']
  | '\r' => ['\\', 'r']
  | '\x00' => ['\\', '0']
  | c =>
    if c.toNat < 0x20 || Invisible.contains c.toNat then
      ['\\', 'u', '{'] ++ hexCode c ++ ['}']
    else [c]

/-- The text in quotes. -/
def quote (text : String) : String :=
  String.ofList ('"' :: (text.toList.flatMap escape ++ ['"']))

end Scorebook.Quoted
