import Retarget.Text.Invisible

/-!
# Quoted texts

A text is shown between double quotes. The quote, the backslash and the common control
characters have escapes of their own, and every other invisible character is written as its
hexadecimal code point in braces.
-/

namespace Retarget.Text

/-- The escape of a character by its code point, such as `\u{a0}`. -/
def codePointEscape (c : Char) : List Char :=
  ['\\', 'u', '\x7b'] ++ Nat.toDigits 16 c.toNat ++ ['\x7d']

/-- How one character is written inside quotes. -/
def escapeChar (c : Char) : List Char :=
  if c = '"' || c = '\\' then ['\\', c]
  else if c = '\t' then ['\\', 't']
  else if c = '\n' then ['\\', 'n']
  else if c = '\r' then ['\\', 'r']
  else if c.toNat = 0 then ['\\', '0']
  else if isInvisible c then codePointEscape c
  else [c]

/-- The quoted form of a text. -/
def quote (s : String) : String :=
  String.ofList ('"' :: (s.toList.flatMap escapeChar ++ ['"']))

end Retarget.Text
