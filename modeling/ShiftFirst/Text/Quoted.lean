import ShiftFirst.Text.Hidden

namespace ShiftFirst.Text

/-- The digits of a number in base sixteen, in lower case. -/
def hexDigits (n : Nat) : List Char := Nat.toDigits 16 n

/-- How a character is spelled between two quotation marks `mark`: the mark itself and the
backslash behind a backslash, the common controls by a letter, hidden characters by number. -/
def spelling (mark c : Char) : List Char :=
  if c = '\n' then ['\\', 'n']
  else if c = '\r' then ['\\', 'r']
  else if c = '\t' then ['\\', 't']
  else if c = '\x00' then ['\\', '0']
  else if c = '\\' ∨ c = mark then ['\\', c]
  else if isHidden c then "\\u\x7b".toList ++ hexDigits c.toNat ++ ['\x7d']
  else [c]

/-- A text between double quotation marks. -/
def quoted (s : String) : String :=
  String.ofList ('"' :: s.toList.flatMap (spelling '"') ++ ['"'])

/-- A character between single quotation marks. -/
def quotedChar (c : Char) : String :=
  String.ofList ('\'' :: spelling '\'' c ++ ['\''])

/-- The lines of a text, each behind a tab. -/
def indented (s : String) : String :=
  String.ofList ('\t' :: s.toList.flatMap fun c => if c = '\n' then ['\n', '\t'] else [c])

end ShiftFirst.Text
