import VersionStore.Yaml.Basic

namespace VersionStore.Yaml

/-!
# Cursors

The characters of a document, and what stands between its words. Every line end
is read as a line feed, but for the line and paragraph separators, which stand
for themselves. A document holds no controls other than tabs and line ends.
-/

/-- True for the characters that a document may hold. -/
def isAllowed (c : Char) : Bool :=
  c == '\t' || c == '\n' || c == '\r' || c == '\u0085' ||
    (' ' ≤ c && c ≤ '~') || ('\u00a0' ≤ c && c ≤ '\ufffd') || 65536 ≤ c.toNat

/-- Characters with each line end as a line feed. -/
def unifyBreaks : List Char → List Char
  | [] => []
  | '\r' :: '\n' :: rest => '\n' :: unifyBreaks rest
  | '\r' :: rest => '\n' :: unifyBreaks rest
  | '\u0085' :: rest => '\n' :: unifyBreaks rest
  | c :: rest => c :: unifyBreaks rest

/-- True for spaces and tabs. -/
def isBlank (c : Char) : Bool :=
  c == ' ' || c == '\t'

/-- True where a word ends: at a blank, a line end, and the end of the text. -/
def endsWord (next : Option Char) : Bool :=
  next.all fun c => isBlank c || isBreak c

/-- True for the characters of names. -/
def isNameChar (c : Char) : Bool :=
  c.isAlphanum || c == '-' || c == '_'

/-- True for the characters that structure flow collections. -/
def isFlowMark (c : Char) : Bool :=
  c == ',' || c == '[' || c == ']' || c == '\x7b' || c == '\x7d'

/-- The text that is left, and the place of its first character. -/
structure Cursor where
  rest : List Char
  mark : Mark := {}
  deriving Repr

namespace Cursor

/-- The next character. -/
def peek? (cursor : Cursor) : Option Char :=
  cursor.rest.head?

/-- The character after the next. -/
def second? (cursor : Cursor) : Option Char :=
  cursor.rest[1]?

/-- The cursor behind its next character. -/
def next (cursor : Cursor) : Cursor :=
  match cursor.rest with
  | [] => cursor
  | c :: rest => ⟨rest, cursor.mark.after c⟩

/-- The cursor behind some of its characters. -/
def skip : Nat → Cursor → Cursor
  | 0, cursor => cursor
  | count + 1, cursor => skip count cursor.next

/-- Refuse the text at a cursor. -/
def refuse (cursor : Cursor) : Parsed α :=
  .error (.malformed cursor.mark)

/-- The characters that fulfil a condition, and the cursor behind them. -/
def span (accept : Char → Bool) (cursor : Cursor) : List Char × Cursor :=
  let taken := cursor.rest.takeWhile accept
  (taken, cursor.skip taken.length)

/-- The cursor behind some blanks. -/
def skipBlanks (cursor : Cursor) : Cursor :=
  (cursor.span isBlank).2

/-- The cursor behind the rest of a line, which may hold a comment only. -/
def skipLine (cursor : Cursor) : Parsed Cursor :=
  let shown := cursor.skipBlanks
  let ending := if shown.peek? == some '#' then (shown.span (!isBreak ·)).2 else shown
  if ending.peek?.all isBreak then .ok ending.next else ending.refuse

/-- True at a line that begins with a mark of three characters. -/
def beginsWith (mark : List Char) (cursor : Cursor) : Bool :=
  cursor.mark.column == 0 && cursor.rest.take 3 == mark && endsWord cursor.rest[3]?

/-- True at the mark that begins a document. -/
def beginsDocument (cursor : Cursor) : Bool :=
  cursor.beginsWith ['-', '-', '-']

/-- True at the mark that ends a document. -/
def endsDocument (cursor : Cursor) : Bool :=
  cursor.beginsWith ['.', '.', '.']

/-- True at either mark. -/
def atDocumentMark (cursor : Cursor) : Bool :=
  cursor.beginsDocument || cursor.endsDocument

end Cursor

/-- What stands between two words of a scalar: the blanks on one line, or the
line ends. -/
structure Gap where
  blanks : List Char := []
  breaks : List Char := []
  /-- True when the words stand on lines that were joined by a backslash. -/
  joined : Bool := false
  deriving Repr

namespace Gap

/-- True when the words stand on lines of their own. -/
def spansLines (gap : Gap) : Bool :=
  gap.joined || !gap.breaks.isEmpty

/-- True when there is nothing between the words. -/
def isEmpty (gap : Gap) : Bool :=
  gap.blanks.isEmpty && !gap.spansLines

/-- A gap with one more blank or line end. Blanks at the ends of lines count for
nothing. -/
def push (gap : Gap) (c : Char) : Gap :=
  if isBreak c then { gap with blanks := [], breaks := gap.breaks ++ [c] }
  else if gap.spansLines then gap
  else { gap with blanks := gap.blanks ++ [c] }

/-- What a gap stands for. A single line feed is a space; of several, the first
counts for nothing. -/
def folded (gap : Gap) : List Char :=
  match gap.breaks with
  | [] => gap.blanks
  | first :: more =>
      if gap.joined || first != '\n' then first :: more
      else if more.isEmpty then [' ']
      else more

end Gap

end VersionStore.Yaml
