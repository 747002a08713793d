import AudioScore.Text.Printable

/-!
# Strings shown in messages

A message shows a string in double quotes. Quotes, backslashes and the usual controls have short
escapes, and a character that would not show is written as its code point.

* `Shown.quoted`: a string as a message shows it.
-/

namespace AudioScore

namespace Shown

/-- A character as it is shown between double quotes. -/
def char (c : Char) : List Char :=
  if c = '"' then ['\\', '"']
  else if c = '\\' then ['\\', '\\']
  else if c = '\x00' then ['\\', '0']
  else if c = '\t' then ['\\', 't']
  else if c = '\n' then ['\\', 'n']
  else if c = '\r' then ['\\', 'r']
  else if Printable.isUnprintable c then
    ['\\', 'u', '\x7b'] ++ Nat.toDigits 16 c.toNat ++ ['\x7d']
  else [c]

/-- A string as a message shows it. -/
def quoted (s : String) : String :=
  "\"" ++ String.ofList (s.toList.flatMap char) ++ "\""

end Shown

end AudioScore
