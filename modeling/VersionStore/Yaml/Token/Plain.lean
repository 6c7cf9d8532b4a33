import VersionStore.Yaml.Token

namespace VersionStore.Yaml

/-!
# Plain scalars

A plain scalar goes on over as many lines as are indented further than the block
it stands in. A colon in front of a blank ends it, as does a comment behind a
blank, and inside a flow collection whatever structures the collection.
-/

/-- True for the characters that never begin a plain scalar. -/
def isIndicator (c : Char) : Bool :=
  isFlowMark c || "-?:#&*!|>'\"%@\x60".toList.contains c

/-- True when a plain scalar begins at a character with another behind it. -/
def beginsPlain (flow : Bool) (c : Char) (second : Option Char) : Bool :=
  if c == '-' then !second.any isBlank
  else if c == '?' || c == ':' then !flow && !endsWord second
  else !isBlank c && !isBreak c && !isIndicator c

/-- True when a plain scalar ends in front of a character. -/
def endsPlain (flow : Bool) (c : Char) (second : Option Char) : Bool :=
  (c == ':' && endsWord second) || (flow && isFlowMark c)

/-- True for a colon that a flow collection does not allow in a plain scalar. -/
def strayColon (flow : Bool) (c : Char) (second : Option Char) : Bool :=
  flow && c == ':' && second.any fun next => isFlowMark next || next == '?'

/-- A plain scalar, of which `text` was read in reverse and `gap` stands behind
that. Lines of a block begin at `margin` at least. Also tells whether the scalar
ends with its line. -/
def plainFrom (flow : Bool) (margin : Nat) (text : List Char) (gap : Gap) (mark : Mark) :
    List Char → Parsed (String × Bool × Cursor)
  | [] => .ok (String.ofList text.reverse, gap.spansLines, ⟨[], mark⟩)
  | c :: rest =>
      let here : Cursor := ⟨c :: rest, mark⟩
      let outside := !flow && mark.column < margin
      if isBlank c then
        if gap.spansLines && c == '\t' && mark.column < margin then here.refuse
        else plainFrom flow margin text (gap.push c) (mark.after c) rest
      else if isBreak c then plainFrom flow margin text (gap.push c) (mark.after c) rest
      else if !gap.isEmpty &&
          (c == '#' || here.atDocumentMark || outside) then
        .ok (String.ofList text.reverse, gap.spansLines, here)
      else if strayColon flow c rest.head? then here.refuse
      else if endsPlain flow c rest.head? then
        .ok (String.ofList text.reverse, gap.spansLines, here)
      else
        plainFrom flow margin (c :: gap.folded.reverse ++ text) {} (mark.after c) rest

/-- Read a plain scalar. -/
def Cursor.plain (flow : Bool) (margin : Nat) (cursor : Cursor) :
    Parsed (String × Bool × Cursor) :=
  plainFrom flow margin [] {} cursor.mark cursor.rest

end VersionStore.Yaml
