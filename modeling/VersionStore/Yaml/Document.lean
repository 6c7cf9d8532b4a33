import VersionStore.Yaml.Event
import VersionStore.Yaml.Token.Scan

namespace VersionStore.Yaml

/-!
# Documents

A document is a tree of scalars, sequences and mappings. A node may be given a
name, and an alias with that name stands for the node. A document that is not
well formed has the nodes that were read, and `missing` where it breaks off.
-/

/-- A value of a document. -/
inductive Node where
  /-- The text holds no document. -/
  | void
  /-- The text breaks off. -/
  | missing
  /-- The node that a number stands for. -/
  | alias (id : Nat)
  | scalar (mark : Mark) (value : Scalar)
  | sequence (mark : Mark) (items : List Node)
  /-- The items are the keys and values in turn. -/
  | mapping (mark : Mark) (items : List Node)
  deriving Inhabited

namespace Node

/-- The place where a value begins. -/
def mark : Node → Mark
  | scalar mark _ => mark
  | sequence mark _ => mark
  | mapping mark _ => mark
  | _ => {}

/-- True where nothing is written. -/
def isBlank : Node → Bool
  | void => true
  | scalar _ value => value.text.isEmpty && value.style == .plain
  | _ => false

mutual

/-- True when the text does not break off inside a value. -/
def isWhole : Node → Bool
  | missing => false
  | sequence _ items => areWhole items
  | mapping _ items => areWhole items
  | _ => true

/-- True when the text does not break off inside values. -/
def areWhole : List Node → Bool
  | [] => true
  | node :: rest => isWhole node && areWhole rest

end

end Node

/-! ## Names -/

/-- What an event says when names are replaced by numbers. -/
inductive Step where
  | leaf (node : Node)
  | sequence (mark : Mark)
  | mapping (mark : Mark)
  | close

/-- A collection that is not read to its end. -/
structure Frame where
  isMapping : Bool
  mark : Mark
  /-- The items so far in reverse. -/
  items : List Node := []

namespace Frame

/-- A collection with one more item. -/
def push (node : Node) (frame : Frame) : Frame :=
  { frame with items := node :: frame.items }

/-- The collection. -/
def close (frame : Frame) : Node :=
  if frame.isMapping then .mapping frame.mark frame.items.reverse
  else .sequence frame.mark frame.items.reverse

end Frame

namespace Node

/-- The first node of some steps inside collections that are not read to their
ends, the innermost first. -/
def ofSteps (frames : List Frame) : List Step → Node
  | [] => frames.foldl (fun node frame => (frame.push node).close) .missing
  | step :: rest =>
      match step, frames with
      | .leaf node, [] => node
      | .leaf node, frame :: outer => ofSteps (frame.push node :: outer) rest
      | .sequence mark, _ => ofSteps (⟨false, mark, []⟩ :: frames) rest
      | .mapping mark, _ => ofSteps (⟨true, mark, []⟩ :: frames) rest
      | .close, [] => .missing
      | .close, [frame] => frame.close
      | .close, frame :: outer :: rest' => ofSteps (outer.push frame.close :: rest') rest

end Node

/-- The steps so far, with the numbers of names and of the steps they stand for. -/
structure Naming where
  /-- The steps in reverse. -/
  steps : List Step := []
  /-- The numbers of the names, the latest first. -/
  ids : List (String × Nat) := []
  /-- For each number, how many steps stand before its node, the latest first. -/
  targets : List (Nat × Nat) := []

namespace Naming

/-- Give a name to the next step. The number of a name is that of the names that
were known before it, so a name that is given again takes a number that the next
name may be given as well. -/
def name (anchor : Option String) (naming : Naming) : Naming :=
  match anchor with
  | none => naming
  | some name =>
      let id := naming.ids.length
      { naming with
        ids := (name, id) :: naming.ids.filter (·.1 != name)
        targets := (id, naming.steps.length) :: naming.targets }

/-- Add a step. -/
def push (step : Step) (naming : Naming) : Naming :=
  { naming with steps := step :: naming.steps }

/-- The step of an event, unless it is an alias with a name that is not known. -/
def step? (naming : Naming) (event : Event) : Option Step :=
  match event.kind with
  | .alias name => (naming.ids.lookup name).map fun id => .leaf (.alias id)
  | .scalar value => some (.leaf (.scalar event.mark value))
  | .sequence => some (.sequence event.mark)
  | .mapping => some (.mapping event.mark)
  | .close => some .close

/-- Read events up to an alias that stands for nothing, and tell where that is. -/
def read (naming : Naming) : List Event → Naming × Option Mark
  | [] => (naming, none)
  | event :: rest =>
      match naming.step? event with
      | some step => read ((naming.name event.anchor).push step) rest
      | none => (naming, some event.mark)

end Naming

/-! ## Documents -/

/-- The first document of a text. -/
structure Document where
  root : Node
  /-- The nodes that aliases stand for. -/
  targets : List (Nat × Node)
  /-- What is wrong with the text behind what was read, if anything is. -/
  fault : Option Fault

namespace Document

/-- The node that a node stands for. -/
def resolve (document : Document) (node : Node) : Node :=
  match node with
  | .alias id => (document.targets.lookup id).getD .missing
  | node => node

/-- Break off where the text does. -/
def breakOff (document : Document) : Parsed α :=
  .error (document.fault.getD (.malformed {}))

/-- The document of events. -/
def ofEvents (events : Events) : Document :=
  let (naming, unknown) := ({} : Naming).read events.events
  let steps := naming.steps.reverse
  let fault :=
    match unknown, events.ending with
    | some mark, _ => some (.unknownAnchor mark)
    | none, .error fault => some fault
    | none, .ok true => some .severalDocuments
    | none, .ok false => none
  { root := if steps.isEmpty && fault.isNone then .void else .ofSteps [] steps
    targets := naming.targets.map fun (id, before) => (id, .ofSteps [] (steps.drop before))
    fault }

/-- The first document of a text. -/
def ofText (text : String) : Document :=
  let (tokens, fault) := tokensOf text
  ofEvents (.ofTokens tokens (fault.getD (.malformed {})))

end Document

end VersionStore.Yaml
