import VersionStore.Json.Basic

namespace VersionStore.Json

/-!
# Writing data values

The written form over several lines has two spaces for each level, one item or
field a line, and nothing between the brackets of an empty list or object. The
form on one line has no blanks.
-/

/-- A control character by its four hexadecimal digits. -/
def controlEscape (c : Char) : List Char :=
  let digits := Nat.toDigits 16 c.toNat
  "\\u".toList ++ List.replicate (4 - digits.length) '0' ++ digits

/-- A character as it stands in a written string. -/
def escapeChar (c : Char) : List Char :=
  if c = '"' then ['\\', '"']
  else if c = '\\' then ['\\', '\\']
  else if c = '\n' then ['\\', 'n']
  else if c = '\r' then ['\\', 'r']
  else if c = '\t' then ['\\', 't']
  else if c.toNat = 8 then ['\\', 'b']
  else if c.toNat = 12 then ['\\', 'f']
  else if c.toNat < 32 then controlEscape c
  else [c]

/-- A written string. -/
def renderString (text : String) : String :=
  String.ofList ('"' :: text.toList.flatMap escapeChar ++ ['"'])

/-- A line break with the spaces of a level. -/
def newline (level : Nat) : String :=
  "\n" ++ "".pushn ' ' (2 * level)

/-- Lines between brackets, which stand on lines of their own unless there is
nothing between them. -/
def enclose (open_ close : String) (level : Nat) (lines : List String) : String :=
  if lines.isEmpty then open_ ++ close
  else
    open_ ++ newline (level + 1) ++
      (("," ++ newline (level + 1)).intercalate lines) ++ newline level ++ close

mutual

/-- The written form of a value at a level. -/
def renderAt (level : Nat) : Json → String
  | null => "null"
  | bool value => toString value
  | int value => toString value
  | float negative value => floatText negative value
  | str text => renderString text
  | arr items => enclose "[" "]" level (renderItems (level + 1) items)
  | obj fields => enclose "\x7b" "\x7d" level (renderFields (level + 1) fields)

/-- The written forms of items. -/
def renderItems (level : Nat) : List Json → List String
  | [] => []
  | item :: rest => renderAt level item :: renderItems level rest

/-- The written forms of fields with their names. -/
def renderFields (level : Nat) : List (String × Json) → List String
  | [] => []
  | (name, value) :: rest =>
      (renderString name ++ ": " ++ renderAt level value) :: renderFields level rest

end

/-- The written form of a value over several lines. -/
def pretty (value : Json) : String :=
  renderAt 0 value

/-! ## On one line -/

/-- What stands in front of one of several things. -/
def separator (first : Bool) : String :=
  if first then "" else ","

mutual

/-- A text with the form of a value on one line behind it. -/
def compactOn (written : String) : Json → String
  | arr items => compactItems true (written ++ "[") items ++ "]"
  | obj fields => compactFields true (written ++ "\x7b") fields ++ "\x7d"
  | value => written ++ renderAt 0 value

/-- A text with the forms of items behind it. -/
def compactItems (first : Bool) (written : String) : List Json → String
  | [] => written
  | item :: rest => compactItems false (compactOn (written ++ separator first) item) rest

/-- A text with the forms of fields behind it. -/
def compactFields (first : Bool) (written : String) : List (String × Json) → String
  | [] => written
  | (name, value) :: rest =>
      let named := written ++ separator first ++ renderString name ++ ":"
      compactFields false (compactOn named value) rest

end

/-- The written form of a value on one line. -/
def compact (value : Json) : String :=
  compactOn "" value

end VersionStore.Json
