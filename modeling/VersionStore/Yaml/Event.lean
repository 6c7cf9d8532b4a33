import VersionStore.Yaml.Token

namespace VersionStore.Yaml

/-!
# Events

A document as the sequence of what its nodes begin with and end with. Where the
tokens make up no document, the events of what was read stand, since a reader of
settings may have a complaint about those first.
-/

/-- A run of text that stands for a single value. -/
structure Scalar where
  text : String
  style : Style
  tag : Option String := none
  deriving DecidableEq, Repr, Inhabited

/-- What an event says. -/
inductive EventKind where
  | alias (name : String)
  | scalar (value : Scalar)
  | sequence
  | mapping
  /-- The end of a sequence or mapping. -/
  | close
  deriving DecidableEq, Repr

/-- An event, with the name that the node is given and the place where it begins. -/
structure Event where
  kind : EventKind
  anchor : Option String := none
  mark : Mark
  deriving DecidableEq, Repr

/-- Tokens to come, and events so far. -/
structure Feed where
  tokens : List Token
  /-- What stops the reading behind the tokens. -/
  fault : Fault
  /-- The events so far, the last of them first. -/
  events : List Event := []
  /-- What the handles of tags stand for. -/
  handles : List (String × String) := []

/-- A reader of tokens. Events that were given stand when it fails. -/
abbrev Grammar (α : Type) : Type :=
  ExceptT Fault (StateM Feed) α

namespace Grammar

/-- The next token. -/
def peek : Grammar Token := do
  match (← get).tokens with
  | token :: _ => return token
  | [] => throw (← get).fault

/-- Pass the next token. -/
def skip : Grammar Unit :=
  modify fun feed => { feed with tokens := feed.tokens.tail }

/-- Pass the next token if it is of a kind, and tell whether it is. -/
def skipIf (kind : TokenKind) : Grammar Bool := do
  if (← peek).kind = kind then
    skip
    return true
  else return false

/-- Give an event. -/
def emit (kind : EventKind) (mark : Mark) (anchor : Option String) : Grammar Unit :=
  modify fun feed => { feed with events := ⟨kind, anchor, mark⟩ :: feed.events }

/-- Give a scalar for which nothing is written. -/
def emitEmpty (mark : Mark) : Grammar Unit :=
  emit (.scalar ⟨"", .plain, none⟩) mark none

/-- Give the end of a collection. -/
def emitClose (mark : Mark) : Grammar Unit :=
  emit .close mark none

/-- Refuse a token. -/
def refuse (token : Token) : Grammar α :=
  throw (.malformed token.mark)

/-! ## Directives -/

/-- The handles that need no directive. -/
def usualHandles : List (String × String) :=
  [("!", "!"), ("!!", "tag:yaml.org,2002:")]

/-- Read directives, of which there are `fuel` at most. `versioned` tells whether
there was one for the version. -/
def directives (versioned : Bool) : Nat → Grammar Unit
  | 0 => return
  | fuel + 1 => do
      let token ← peek
      match token.kind with
      | .version major minor =>
          if versioned || major != 1 || (minor != 1 && minor != 2) then refuse token
          else
            skip
            directives true fuel
      | .handle name text =>
          if ((← get).handles.lookup name).isSome then refuse token
          else
            modify fun feed => { feed with handles := (name, text) :: feed.handles }
            skip
            directives versioned fuel
      | _ => return

/-! ## Nodes -/

/-- What is written in front of a node. -/
structure Properties where
  anchor : Option String := none
  tag : Option String := none
  mark : Mark

/-- The tag that a handle and a suffix make up. -/
def tagOf (token : Token) (handle suffix : String) : Grammar String := do
  if handle.isEmpty then return suffix
  else
    match ((← get).handles ++ usualHandles).lookup handle with
    | some text => return text ++ suffix
    | none => refuse token

/-- Read an anchor, if there is one. -/
def anchor? : Grammar (Option String) := do
  match (← peek).kind with
  | .anchor name =>
      skip
      return some name
  | _ => return none

/-- Read a tag, if there is one. -/
def tag? : Grammar (Option (Token × String × String)) := do
  let token ← peek
  match token.kind with
  | .tag handle suffix =>
      skip
      return some (token, handle, suffix)
  | _ => return none

/-- Read an anchor and a tag, either of which may come first. -/
def properties : Grammar Properties := do
  let mark := (← peek).mark
  let first ← anchor?
  let tag ← tag?
  let anchor ← if first.isNone && tag.isSome then anchor? else pure first
  let _ ← peek
  match tag with
  | some (token, handle, suffix) => return ⟨anchor, some (← tagOf token handle suffix), mark⟩
  | none => return ⟨anchor, none, mark⟩

/-- The scalar of a token with a tag. The mark alone says nothing more than that the
scalar is tagged, and is left out. -/
def scalarOf (text : String) (style : Style) (tag : Option String) : Scalar :=
  ⟨text, style, if tag == some "!" then none else tag⟩

/-- True for a token in front of which a node of a block is left out. -/
def leavesBlockNode : TokenKind → Bool
  | .key => true
  | .value => true
  | .blockEnd => true
  | _ => false

/-- True for a token in front of which a node of a flow sequence is left out. -/
def leavesFlowItem : TokenKind → Bool
  | .flowEntry => true
  | .flowSequenceEnd => true
  | _ => false

/-- True for a token in front of which a node of a flow mapping is left out. -/
def leavesFlowField : TokenKind → Bool
  | .flowEntry => true
  | .flowMappingEnd => true
  | _ => false

mutual

/-- Read a node. `block` tells whether it may be a block, `bare` whether the items
of a sequence may stand without a block of their own. -/
def node (fuel : Nat) (block bare : Bool) : Grammar Unit := do
  match fuel with
  | 0 => throw (← get).fault
  | fuel + 1 =>
      match (← peek).kind with
      | .alias name =>
          emit (.alias name) (← peek).mark none
          skip
      | _ =>
          let given ← properties
          let token ← peek
          match token.kind with
          | .blockEntry =>
              if bare then
                emit .sequence given.mark given.anchor
                bareItems fuel
              else emptyNode given token
          | .scalar text style =>
              emit (.scalar (scalarOf text style given.tag)) given.mark given.anchor
              skip
          | .flowSequence =>
              emit .sequence given.mark given.anchor
              skip
              flowItems fuel true
          | .flowMapping =>
              emit .mapping given.mark given.anchor
              skip
              flowFields fuel true
          | .blockSequence =>
              if block then
                emit .sequence given.mark given.anchor
                skip
                blockItems fuel
              else emptyNode given token
          | .blockMapping =>
              if block then
                emit .mapping given.mark given.anchor
                skip
                blockFields fuel
              else emptyNode given token
          | _ => emptyNode given token

/-- Give a node of which nothing but its properties is written. -/
def emptyNode (given : Properties) (token : Token) : Grammar Unit := do
  if given.anchor.isSome || given.tag.isSome then
    emit (.scalar ⟨"", .plain, given.tag⟩) given.mark given.anchor
  else refuse token

/-- Read the items of a block. -/
def blockItems (fuel : Nat) : Grammar Unit := do
  match fuel with
  | 0 => throw (← get).fault
  | fuel + 1 =>
      let token ← peek
      match token.kind with
      | .blockEntry =>
          skip
          let kind := (← peek).kind
          if kind = .blockEntry ∨ kind = .blockEnd then emitEmpty token.stop
          else node fuel true false
          blockItems fuel
      | .blockEnd =>
          emitClose token.mark
          skip
      | _ => refuse token

/-- Read the items of a sequence that has no block of its own. -/
def bareItems (fuel : Nat) : Grammar Unit := do
  match fuel with
  | 0 => throw (← get).fault
  | fuel + 1 =>
      let token ← peek
      match token.kind with
      | .blockEntry =>
          skip
          let kind := (← peek).kind
          if kind = .blockEntry ∨ leavesBlockNode kind then emitEmpty token.stop
          else node fuel true false
          bareItems fuel
      | _ => emitClose token.mark

/-- Read the fields of a block. -/
def blockFields (fuel : Nat) : Grammar Unit := do
  match fuel with
  | 0 => throw (← get).fault
  | fuel + 1 =>
      let token ← peek
      match token.kind with
      | .key =>
          skip
          if leavesBlockNode (← peek).kind then emitEmpty token.stop
          else node fuel true true
          blockValue fuel
          blockFields fuel
      | .blockEnd =>
          emitClose token.mark
          skip
      | _ => refuse token

/-- Read the value of a field of a block. -/
def blockValue (fuel : Nat) : Grammar Unit := do
  match fuel with
  | 0 => throw (← get).fault
  | fuel + 1 =>
      let token ← peek
      if token.kind = .value then
        skip
        if leavesBlockNode (← peek).kind then emitEmpty token.stop
        else node fuel true true
      else emitEmpty token.mark

/-- Read the items of a flow sequence. An item that is a field is a mapping of its
own. -/
def flowItems (fuel : Nat) (first : Bool) : Grammar Unit := do
  match fuel with
  | 0 => throw (← get).fault
  | fuel + 1 =>
      let token ← peek
      if token.kind = .flowSequenceEnd then
        emitClose token.mark
        skip
      else
        unless first do
          unless ← skipIf .flowEntry do refuse token
        let token ← peek
        match token.kind with
        | .flowSequenceEnd =>
            emitClose token.mark
            skip
        | .key =>
            emit .mapping token.mark none
            skip
            itemField fuel
            flowItems fuel false
        | _ =>
            node fuel false false
            flowItems fuel false

/-- Read the field that an item of a flow sequence is. Where its key is left out, the
token behind it is passed. -/
def itemField (fuel : Nat) : Grammar Unit := do
  match fuel with
  | 0 => throw (← get).fault
  | fuel + 1 =>
      let token ← peek
      if token.kind = .value ∨ leavesFlowItem token.kind then
        skip
        emitEmpty token.stop
      else node fuel false false
      if ← skipIf .value then
        let token ← peek
        if leavesFlowItem token.kind then emitEmpty token.mark
        else node fuel false false
      else emitEmpty (← peek).mark
      emitClose (← peek).mark

/-- Read the fields of a flow mapping. -/
def flowFields (fuel : Nat) (first : Bool) : Grammar Unit := do
  match fuel with
  | 0 => throw (← get).fault
  | fuel + 1 =>
      let token ← peek
      if token.kind = .flowMappingEnd then
        emitClose token.mark
        skip
      else
        unless first do
          unless ← skipIf .flowEntry do refuse token
        let token ← peek
        match token.kind with
        | .flowMappingEnd =>
            emitClose token.mark
            skip
        | .key =>
            skip
            flowField fuel
            flowFields fuel false
        | _ =>
            node fuel false false
            emitEmpty (← peek).mark
            flowFields fuel false

/-- Read the key and the value of a field of a flow mapping. -/
def flowField (fuel : Nat) : Grammar Unit := do
  match fuel with
  | 0 => throw (← get).fault
  | fuel + 1 =>
      let token ← peek
      if token.kind = .value ∨ leavesFlowField token.kind then emitEmpty token.mark
      else node fuel false false
      if ← skipIf .value then
        let token ← peek
        if leavesFlowField token.kind then emitEmpty token.mark
        else node fuel false false
      else emitEmpty (← peek).mark

end

/-! ## Documents -/

/-- True for the tokens that stand between documents. -/
def isBetweenDocuments : TokenKind → Bool
  | .version _ _ => true
  | .handle _ _ => true
  | .documentStart => true
  | .documentEnd => true
  | .textEnd => true
  | _ => false

/-- Read what follows the mark that begins a document, which may be nothing. -/
def content (fuel : Nat) : Grammar Unit := do
  let token ← peek
  if isBetweenDocuments token.kind then emitEmpty token.mark else node fuel true false

/-- Read the first document of a text, if there is one. -/
def document (fuel : Nat) : Grammar Unit := do
  let token ← peek
  match token.kind with
  | .textEnd => return
  | .version _ _ | .handle _ _ | .documentStart =>
      directives false fuel
      let start ← peek
      if start.kind = .documentStart then
        skip
        content fuel
      else refuse start
  | _ => node fuel true false
  let _ ← peek

end Grammar

/-- The events of the first document of a text. -/
structure Events where
  events : List Event
  /-- What stopped the reading, or else whether the text goes on behind the
  document. -/
  ending : Except Fault Bool

namespace Events

/-- True when nothing but marks that end a document stands in front of the end of the
text. -/
def endsHere (tokens : List Token) : Bool :=
  match tokens.dropWhile (·.kind = .documentEnd) with
  | [token] => token.kind = .textEnd
  | _ => false

/-- The events of tokens, where a fault stands behind the tokens. A token is passed
between any two that ask for more fuel. -/
def ofTokens (tokens : List Token) (fault : Fault) : Events :=
  let start : Feed := { tokens, fault }
  let (outcome, feed) := (Grammar.document (4 * tokens.length + 4)).run start
  { events := feed.events.reverse
    ending := outcome.map fun () => !endsHere feed.tokens }

end Events

end VersionStore.Yaml
