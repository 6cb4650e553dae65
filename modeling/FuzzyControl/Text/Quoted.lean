import FuzzyControl.Text.Invisible
import FuzzyControl.Text.Combining

/-!
# Quoted text

A name is quoted in a sentence so that every character of it can be told: between double quotes,
with the double quote and the backslash behind a backslash, the common control characters by a
letter, and each other character that has no visible form, or that would be drawn onto the one
before it, by its code point in hexadecimal digits between braces.
-/

namespace FuzzyControl.Text

/-- A character by its code point: a backslash, `u`, and hexadecimal digits between braces. -/
def codePoint (c : Char) : List Char :=
  '\\' :: 'u' :: '\x7b' :: Nat.toDigits 16 c.toNat ++ ['\x7d']

/-- A character as it stands between quotes. -/
def escape (c : Char) : List Char :=
  if c = '"' ∨ c = '\\' then ['\\', c]
  else if c = '\x00' then ['\\', '0']
  else if c = '\t' then ['\\', 't']
  else if c = '\n' then ['\\', 'n']
  else if c = '\r' then ['\\', 'r']
  else if isCombining c || isInvisible c then codePoint c
  else [c]

/-- A text between quotes. -/
def quoted (s : String) : String :=
  String.ofList ('"' :: s.toList.flatMap escape ++ ['"'])

end FuzzyControl.Text
