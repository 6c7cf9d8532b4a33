import VersionStore.Text.Unprintable

namespace VersionStore.Text

/-!
# Quoted text

A text between quotation marks, with marks, backslashes and control characters
escaped and unprintable characters written by their numbers.
-/

/-- A character by its number. -/
def numbered (c : Char) : List Char :=
  "\\u\x7b".toList ++ (Nat.toDigits 16 c.toNat) ++ ['\x7d']

/-- A character as it stands between quotation marks `mark`. -/
def quoteChar (mark : Char) (c : Char) : List Char :=
  if c = mark then ['\\', c]
  else if c = '\\' then ['\\', '\\']
  else if c = '\n' then ['\\', 'n']
  else if c = '\r' then ['\\', 'r']
  else if c = '\t' then ['\\', 't']
  else if c.toNat = 0 then ['\\', '0']
  else if isUnprintable c then numbered c
  else [c]

/-- A text between double quotation marks. -/
def quoted (text : String) : String :=
  String.ofList ('"' :: text.toList.flatMap (quoteChar '"') ++ ['"'])

/-- A character between single quotation marks. -/
def quotedChar (c : Char) : String :=
  String.ofList ('\'' :: quoteChar '\'' c ++ ['\''])

end VersionStore.Text
