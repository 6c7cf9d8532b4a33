import VersionStore.Json.Decode

namespace VersionStore.Yaml

/-!
# Places and faults

A place in a YAML document is a line and a column. A complaint about a document
names the place and, where a value was not accepted, the path that leads to it.
-/

/-- True for the characters that end a line. -/
def isBreak (c : Char) : Bool :=
  c == '\n' || c == '\u2028' || c == '\u2029'

/-- A place in a text, counted from zero. -/
structure Mark where
  line : Nat := 0
  column : Nat := 0
  /-- The bytes in front of the place. -/
  offset : Nat := 0
  deriving DecidableEq, Repr, Inhabited

namespace Mark

/-- The place behind a character. -/
def after (mark : Mark) (c : Char) : Mark :=
  let offset := mark.offset + c.utf8Size
  if isBreak c then ⟨mark.line + 1, 0, offset⟩ else ⟨mark.line, mark.column + 1, offset⟩

/-- A place as a complaint names it; the very start goes without saying. -/
def suffix (mark : Mark) : String :=
  if mark.line = 0 ∧ mark.column = 0 then ""
  else " at line " ++ toString (mark.line + 1) ++ " column " ++ toString (mark.column + 1)

end Mark

/-- Why a text is no document of the wanted kind. -/
inductive Fault where
  /-- The text is not well formed. -/
  | malformed (mark : Mark)
  /-- An alias has a name that no node before it was given. -/
  | unknownAnchor (mark : Mark)
  /-- The text holds a second document. -/
  | severalDocuments
  /-- The value at a path was not accepted. -/
  | refused (path : String) (complaint : Json.Fault) (mark : Mark)
  deriving DecidableEq, Repr

namespace Fault

/-- The wording of a fault. -/
def message : Fault → String
  | malformed mark => "did not find expected node content" ++ mark.suffix
  | unknownAnchor mark => "unknown anchor" ++ mark.suffix
  | severalDocuments =>
      "deserializing from YAML containing more than one document is not supported"
  | refused path complaint mark =>
      (if path.isEmpty then "" else path ++ ": ") ++ complaint.message ++ mark.suffix

end Fault

/-- A result that may be a fault. -/
abbrev Parsed (α : Type) : Type :=
  Except Fault α

end VersionStore.Yaml
