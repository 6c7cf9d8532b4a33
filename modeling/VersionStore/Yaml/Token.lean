import VersionStore.Yaml.Cursor

namespace VersionStore.Yaml

/-!
# Tokens

What a document is written with: marks that structure it, names, tags and
scalars, and the ends and beginnings of blocks, which indentation alone shows.
-/

/-- How a scalar is written. -/
inductive Style where
  | plain
  | quoted
  | literal
  | folded
  deriving DecidableEq, Repr, Inhabited

/-- What a token is. -/
inductive TokenKind where
  | textEnd
  | version (major minor : Nat)
  | handle (name text : String)
  | documentStart
  | documentEnd
  | blockSequence
  | blockMapping
  | blockEnd
  | flowSequence
  | flowSequenceEnd
  | flowMapping
  | flowMappingEnd
  | blockEntry
  | flowEntry
  | key
  | value
  | alias (name : String)
  | anchor (name : String)
  | tag (handle suffix : String)
  | scalar (text : String) (style : Style)
  deriving DecidableEq, Repr

/-- A token and the place where it begins. -/
structure Token where
  kind : TokenKind
  mark : Mark
  deriving DecidableEq, Repr

namespace Token

/-- The place behind a token of one character. -/
def stop (token : Token) : Mark :=
  { token.mark with column := token.mark.column + 1, offset := token.mark.offset + 1 }

end Token

end VersionStore.Yaml
