import VersionStore.Yaml.Token.Block
import VersionStore.Yaml.Token.Plain
import VersionStore.Yaml.Token.Tag

namespace VersionStore.Yaml

/-!
# Tokens of a text

Tokens are read from left to right. That a scalar is a key is known only at the
colon behind it, so the place where a key may have begun is remembered, and the
tokens for the key and for the block that it begins are put in front of it later.
Such a key stands on one line and is no longer than a thousand and twenty-four
bytes. Where the text is not well formed, the tokens that no key could still
change stand.
-/

/-- A place where a key may have begun. -/
structure KeyStart where
  /-- The number of tokens in front. -/
  position : Nat
  /-- True when nothing but a key can stand there. -/
  required : Bool
  mark : Mark
  deriving Repr

namespace KeyStart

/-- The greatest number of bytes between the beginning of a key and its colon. -/
def longest : Nat := 1024

/-- True when no key goes from its beginning to a place. -/
def isPast (start : KeyStart) (mark : Mark) : Bool :=
  start.mark.line < mark.line || start.mark.offset + longest < mark.offset

end KeyStart

/-- A text of which some tokens were read. -/
structure Scan where
  cursor : Cursor
  tokens : Array Token := #[]
  /-- The columns of the blocks that are open, the innermost first. -/
  indents : List Nat := []
  /-- Where a key may have begun in the innermost flow collection or block. -/
  key : Option KeyStart := none
  /-- The same for what the flow collections that are open stand in. -/
  outer : List (Option KeyStart) := []
  /-- True where a key may begin. -/
  keyAllowed : Bool := true
  deriving Repr

namespace Scan

/-- True inside a flow collection. -/
def flow (scan : Scan) : Bool :=
  !scan.outer.isEmpty

/-- The place of the next character. -/
def mark (scan : Scan) : Mark :=
  scan.cursor.mark

/-- The least column of what stands inside the innermost block. -/
def margin (scan : Scan) : Nat :=
  match scan.indents with
  | [] => 0
  | indent :: _ => indent + 1

/-- Add a token. -/
def emit (kind : TokenKind) (mark : Mark) (scan : Scan) : Scan :=
  { scan with tokens := scan.tokens.push ⟨kind, mark⟩ }

/-- Put a token in front of those behind a position. -/
def emitAt (position : Nat) (kind : TokenKind) (mark : Mark) (scan : Scan) : Scan :=
  { scan with tokens := scan.tokens.insertIdxIfInBounds position ⟨kind, mark⟩ }

/-- Go on behind some characters. -/
def goTo (cursor : Cursor) (scan : Scan) : Scan :=
  { scan with cursor }

/-- Add a token of some characters and go on behind them. -/
def take (count : Nat) (kind : TokenKind) (scan : Scan) : Scan :=
  (scan.emit kind scan.mark).goTo (scan.cursor.skip count)

/-- Say whether a key may begin. -/
def allowKey (allowed : Bool) (scan : Scan) : Scan :=
  { scan with keyAllowed := allowed }

/-! ## Keys -/

/-- Give up a place where a key may have begun. -/
def giveUp (scan : Scan) : Option KeyStart → Parsed (Option KeyStart)
  | none => .ok none
  | some start => if start.required then scan.cursor.refuse else .ok none

/-- Give up a place that the text has passed. -/
def giveUpPast (scan : Scan) (start : Option KeyStart) : Parsed (Option KeyStart) :=
  if start.any (·.isPast scan.mark) then scan.giveUp start else .ok start

/-- Give up all the places that the text has passed. -/
def dropPast (scan : Scan) : Parsed Scan := do
  let outer ← scan.outer.reverse.mapM scan.giveUpPast
  return { scan with outer := outer.reverse, key := ← scan.giveUpPast scan.key }

/-- Let no key begin before the next character. -/
def dropKey (scan : Scan) : Parsed Scan := do
  return { scan with key := ← scan.giveUp scan.key }

/-- Let a key begin at the next character, if one may. -/
def saveKey (scan : Scan) : Parsed Scan := do
  if scan.keyAllowed then
    let required := !scan.flow && scan.indents.head? == some scan.mark.column
    let scan ← scan.dropKey
    return { scan with key := some ⟨scan.tokens.size, required, scan.mark⟩ }
  else return scan

/-- The number of tokens that no key can change. -/
def settled (scan : Scan) : Nat :=
  (scan.key :: scan.outer).foldl (fun least start =>
    (start.map KeyStart.position).elim least (min least)) scan.tokens.size

/-! ## Blocks -/

/-- End the blocks that are indented further than a column, or all of them. -/
def unroll (column : Option Nat) (scan : Scan) : Scan :=
  if scan.flow then scan
  else
    let inner := scan.indents.takeWhile fun indent => column.all (· < indent)
    inner.foldl (fun (scan : Scan) _ => scan.emit .blockEnd scan.mark)
      { scan with indents := scan.indents.drop inner.length }

/-- Begin a block at a place, unless one is indented as far; its token goes in front
of those behind `position`. -/
def roll (position : Nat) (kind : TokenKind) (mark : Mark) (scan : Scan) : Scan :=
  if !scan.flow && scan.margin ≤ mark.column then
    { scan with indents := mark.column :: scan.indents }.emitAt position kind mark
  else scan

/-- Begin a block at the next character, where a key has to be allowed. -/
def rollHere (kind : TokenKind) (scan : Scan) : Parsed Scan :=
  if scan.flow then .ok scan
  else if scan.keyAllowed then .ok (scan.roll scan.tokens.size kind scan.mark)
  else scan.cursor.refuse

/-! ## Tokens -/

/-- Skip blanks, line ends and comments. `inside` tells whether a comment has
begun. A tab may not stand where a key of a block may begin. -/
def blankFrom (flow allowed inside : Bool) (mark : Mark) : List Char → Cursor × Bool
  | [] => (⟨[], mark⟩, allowed)
  | c :: rest =>
      if isBreak c then blankFrom flow (allowed || !flow) false (mark.after c) rest
      else if inside || c == ' ' || (c == '\t' && (flow || !allowed)) ||
          (c == '\ufeff' && mark.offset == 0) then
        blankFrom flow allowed inside (mark.after c) rest
      else if c == '#' then blankFrom flow allowed true (mark.after c) rest
      else (⟨c :: rest, mark⟩, allowed)

/-- Go on to the next thing that is written. -/
def toNext (scan : Scan) : Scan :=
  let (cursor, allowed) :=
    blankFrom scan.flow scan.keyAllowed false scan.mark scan.cursor.rest
  { scan with cursor, keyAllowed := allowed }

/-- Read the end of the text, which stands on a line of its own. -/
def fetchEnd (scan : Scan) : Parsed Scan := do
  let mark := scan.mark
  let ending := if mark.column = 0 then mark else ⟨mark.line + 1, 0, mark.offset⟩
  let scan ← ((scan.goTo ⟨[], ending⟩).unroll none).dropKey
  return (scan.emit .textEnd ending).allowKey false

/-- Leave all blocks, in front of a directive or the mark of a document. -/
def leaveBlocks (scan : Scan) : Parsed Scan := do
  return (← (scan.unroll none).dropKey).allowKey false

/-- Read the beginning of a flow collection. -/
def fetchOpening (kind : TokenKind) (scan : Scan) : Parsed Scan := do
  let scan ← scan.saveKey
  let inner : Scan := { scan with outer := scan.key :: scan.outer, key := none }
  return (inner.take 1 kind).allowKey true

/-- Read the end of a flow collection. -/
def fetchClosing (kind : TokenKind) (scan : Scan) : Parsed Scan := do
  let scan ← scan.dropKey
  let outside : Scan :=
    match scan.outer with
    | [] => scan
    | key :: outer => { scan with key, outer }
  return (outside.take 1 kind).allowKey false

/-- Read the comma behind an item of a flow collection. -/
def fetchFlowEntry (scan : Scan) : Parsed Scan := do
  return ((← scan.dropKey).take 1 .flowEntry).allowKey true

/-- Read the dash of an item of a block. -/
def fetchBlockEntry (scan : Scan) : Parsed Scan := do
  let scan ← (← scan.rollHere .blockSequence).dropKey
  return (scan.take 1 .blockEntry).allowKey true

/-- Read the question mark of a key. -/
def fetchKey (scan : Scan) : Parsed Scan := do
  let scan ← (← scan.rollHere .blockMapping).dropKey
  return (scan.take 1 .key).allowKey (!scan.flow)

/-- Read the colon of a value. If a key has begun, its tokens are put in front of
it. -/
def fetchValue (scan : Scan) : Parsed Scan := do
  match scan.key with
  | some start =>
      let scan := { scan with key := none }.emitAt start.position .key start.mark
      let scan := scan.roll start.position .blockMapping start.mark
      return (scan.take 1 .value).allowKey false
  | none =>
      let scan ← scan.rollHere .blockMapping
      return (scan.take 1 .value).allowKey (!scan.flow)

/-- Read a token that a key may begin with. -/
def fetchName (read : Cursor → Parsed (TokenKind × Cursor)) (scan : Scan) : Parsed Scan := do
  let scan ← scan.saveKey
  let (kind, behind) ← read scan.cursor
  return ((scan.emit kind scan.mark).goTo behind).allowKey false

/-- Read a literal or folded block. -/
def fetchBlock (folds : Bool) (scan : Scan) : Parsed Scan := do
  let scan ← scan.dropKey
  let (text, behind) ← scan.cursor.block folds scan.margin
  let kind := TokenKind.scalar text (if folds then .folded else .literal)
  return ((scan.emit kind scan.mark).goTo behind).allowKey true

/-- Read a plain scalar. Behind one that ends with its line, a key may begin. -/
def fetchPlain (scan : Scan) : Parsed Scan := do
  let scan ← scan.saveKey
  let (text, ended, behind) ← scan.cursor.plain scan.flow scan.margin
  return ((scan.emit (.scalar text .plain) scan.mark).goTo behind).allowKey ended

/-- Read what begins with a character. -/
def fetchFrom (c : Char) (scan : Scan) : Parsed Scan := do
  let cursor := scan.cursor
  let ends := endsWord cursor.second?
  if c == '%' && cursor.mark.column == 0 then
    let scan ← scan.leaveBlocks
    let (kind, behind) ← cursor.directive
    return (scan.emit kind scan.mark).goTo behind
  else if cursor.beginsDocument then return (← scan.leaveBlocks).take 3 .documentStart
  else if cursor.endsDocument then return (← scan.leaveBlocks).take 3 .documentEnd
  else if c == '[' then scan.fetchOpening .flowSequence
  else if c == '\x7b' then scan.fetchOpening .flowMapping
  else if c == ']' then scan.fetchClosing .flowSequenceEnd
  else if c == '\x7d' then scan.fetchClosing .flowMappingEnd
  else if c == ',' then scan.fetchFlowEntry
  else if c == '-' && ends then scan.fetchBlockEntry
  else if c == '?' && (scan.flow || ends) then scan.fetchKey
  else if c == ':' && (scan.flow || ends) then scan.fetchValue
  else if c == '*' then
    scan.fetchName fun cursor => do
      let (name, behind) ← cursor.name
      return (.alias name, behind)
  else if c == '&' then
    scan.fetchName fun cursor => do
      let (name, behind) ← cursor.name
      return (.anchor name, behind)
  else if c == '!' then scan.fetchName (·.tag scan.flow)
  else if c == '|' && !scan.flow then scan.fetchBlock false
  else if c == '>' && !scan.flow then scan.fetchBlock true
  else if c == '\'' || c == '"' then
    scan.fetchName fun cursor => do
      let (text, behind) ← cursor.quoted c
      return (.scalar text .quoted, behind)
  else if beginsPlain scan.flow c cursor.second? then scan.fetchPlain
  else cursor.refuse

/-- Read the next token, and tell whether it is the end of the text. -/
def fetch (scan : Scan) : Parsed (Scan × Bool) := do
  let scan ← scan.toNext.dropPast
  let scan := scan.unroll (some scan.mark.column)
  match scan.cursor.rest with
  | [] => return (← (← scan.fetchEnd).dropPast, true)
  | c :: _ => return (← (← scan.fetchFrom c).dropPast, false)

/-- The tokens that stand, and what stopped the reading behind them. Each token has
a character of its own, so `fuel` is not used up. -/
def run : Nat → Scan → List Token × Option Fault
  | 0, scan => (scan.tokens.toList, some (.malformed scan.mark))
  | fuel + 1, scan =>
      match scan.fetch with
      | .error fault => (scan.tokens.toList.take scan.settled, some fault)
      | .ok (next, true) => (next.tokens.toList, none)
      | .ok (next, false) => run fuel next

end Scan

/-- The tokens of a text, and what stopped the reading behind them. -/
def tokensOf (text : String) : List Token × Option Fault :=
  let chars := text.toList
  if chars.all isAllowed then
    let cursor : Cursor := ⟨unifyBreaks chars, {}⟩
    Scan.run (chars.length + 1) { cursor }
  else ([], some (.malformed {}))

end VersionStore.Yaml
