import VersionStore.Yaml.Token

namespace VersionStore.Yaml

/-!
# Literal and folded blocks

A block is made of the lines that are indented as far as its first one, or as far
as its header says. A literal block keeps its line ends; a folded block turns a
single line end between lines that begin with no blank into a space. The header
also says what becomes of the line ends behind the last line.
-/

/-- What becomes of the line ends behind a block. -/
inductive Chomp where
  /-- None is kept. -/
  | strip
  /-- The first is kept. -/
  | clip
  /-- All are kept. -/
  | keep
  deriving DecidableEq, Repr

namespace Chomp

/-- The sign that stands for a way to chomp. -/
def ofSign? (c : Char) : Option Chomp :=
  if c == '+' then some keep else if c == '-' then some strip else none

end Chomp

/-- The part of a block that was read. -/
structure Block where
  /-- The characters in reverse. -/
  text : List Char := []
  /-- The end of the last line. -/
  leading : Option Char := none
  /-- The ends of the empty lines behind it. -/
  trailing : List Char := []
  /-- True when the last line begins with a blank. -/
  blank : Bool := false
  deriving Repr

namespace Block

/-- A block with the line ends before a line that begins with a character. -/
def beginLine (folds : Bool) (c : Char) (block : Block) : Block :=
  let joins := folds && block.leading == some '\n' && !block.blank && !isBlank c
  let ending :=
    if !joins then block.leading.toList
    else if block.trailing.isEmpty then [' ']
    else []
  { text := c :: (ending ++ block.trailing).reverse ++ block.text, blank := isBlank c }

/-- The text of a block that has ended. -/
def finish (chomp : Chomp) (block : Block) : String :=
  let kept :=
    match chomp with
    | .strip => []
    | .clip => block.leading.toList
    | .keep => block.leading.toList ++ block.trailing
  String.ofList (block.text.reverse ++ kept)

end Block

/-- The lines of a block that is indented by `margin`. `inside` tells whether a
line has begun. -/
def blockFrom (folds : Bool) (margin : Nat) (inside : Bool) (block : Block) (mark : Mark) :
    List Char → Parsed (Block × Cursor)
  | [] => .ok (block, ⟨[], mark⟩)
  | c :: rest =>
      let here : Cursor := ⟨c :: rest, mark⟩
      if inside then
        if isBreak c then
          blockFrom folds margin false { block with leading := some c } (mark.after c) rest
        else
          blockFrom folds margin true { block with text := c :: block.text } (mark.after c) rest
      else if mark.column < margin && c == ' ' then
        blockFrom folds margin false block (mark.after c) rest
      else if mark.column < margin && c == '\t' then here.refuse
      else if isBreak c then
        blockFrom folds margin false { block with trailing := block.trailing ++ [c] }
          (mark.after c) rest
      else if mark.column == margin then
        blockFrom folds margin true (block.beginLine folds c) (mark.after c) rest
      else .ok (block, here)

/-- The empty lines in front of a block whose indentation is not known: the
greatest number of spaces that a line begins with, the line ends, and the cursor
behind the spaces of the first line that is not empty. -/
def leadingLines (widest : Nat) (breaks : List Char) (mark : Mark) :
    List Char → Parsed (Nat × List Char × Cursor)
  | [] => .ok (max widest mark.column, breaks, ⟨[], mark⟩)
  | c :: rest =>
      let widest := max widest mark.column
      if c == ' ' then leadingLines widest breaks (mark.after c) rest
      else if c == '\t' then Cursor.refuse ⟨c :: rest, mark⟩
      else if isBreak c then leadingLines widest (breaks ++ [c]) (mark.after c) rest
      else .ok (widest, breaks, ⟨c :: rest, mark⟩)

/-- The digit from one to nine at a cursor, if there is a digit. -/
def indentDigit? (cursor : Cursor) : Parsed (Option Nat × Cursor) :=
  match cursor.peek? with
  | some c =>
      if c == '0' then cursor.refuse
      else if c.isDigit then .ok (some (c.toNat - 48), cursor.next)
      else .ok (none, cursor)
  | none => .ok (none, cursor)

/-- The header of a block behind its first character: how it is chomped, and by
how much it is indented. Either may come first. -/
def blockHeader (cursor : Cursor) : Parsed (Chomp × Option Nat × Cursor) := do
  match cursor.peek?.bind Chomp.ofSign? with
  | some chomp =>
      let (indent, behind) ← indentDigit? cursor.next
      return (chomp, indent, ← behind.skipLine)
  | none =>
      let (indent, behind) ← indentDigit? cursor
      match indent, behind.peek?.bind Chomp.ofSign? with
      | some _, some chomp => return (chomp, indent, ← behind.next.skipLine)
      | _, _ => return (.clip, indent, ← behind.skipLine)

/-- Read a block inside another block, whose lines begin at `margin` at least. -/
def Cursor.block (folds : Bool) (margin : Nat) (cursor : Cursor) : Parsed (String × Cursor) := do
  let (chomp, indent, start) ← blockHeader cursor.next
  let (block, behind) ←
    match indent with
    | some width => blockFrom folds (margin - 1 + width) false {} start.mark start.rest
    | none => do
        let (widest, breaks, first) ← leadingLines 0 [] start.mark start.rest
        blockFrom folds (max widest (max margin 1)) false { trailing := breaks }
          first.mark first.rest
  return (block.finish chomp, behind)

end VersionStore.Yaml
