import VersionStore.Config
import VersionStore.Yaml.Scalar

namespace VersionStore.Yaml

/-!
# Settings as a document

Settings are a mapping, or the sequence of its values in order. A setting that is
left out keeps its default, settings that are not known are passed over, and a
setting that is given twice is refused. A complaint names the path and the place
of the value it is about. Where the text breaks off, what was read may be refused
first.
-/

/-- A node that is read, and how a complaint names it. -/
structure Place where
  document : Document
  path : String
  node : Node

namespace Place

/-- The place of the node that an alias stands for. -/
def resolve (place : Place) : Place :=
  { place with node := place.document.resolve place.node }

/-- Refuse a value. -/
def refuse (complaint : Json.Fault) (place : Place) : Parsed α :=
  .error (.refused place.path complaint place.node.mark)

/-- The complaint about a value of another kind. -/
def mismatch (expected : String) (place : Place) : Parsed α :=
  match place.node with
  | .scalar _ scalar => place.refuse (scalar.complaint expected)
  | .sequence _ _ => place.refuse (.wrongType "sequence" expected)
  | .mapping _ _ => place.refuse (.wrongType "map" expected)
  | _ => place.document.breakOff

/-- Read any scalar as text. -/
def asText (expected : String) (place : Place) : Parsed String :=
  match place.resolve.node with
  | .scalar _ scalar => .ok scalar.text
  | _ => place.resolve.mismatch expected

/-- Read a truth value. -/
def asBool (place : Place) : Parsed Bool :=
  match place.resolve.node with
  | .scalar _ scalar =>
      match (truth? scalar.text).filter fun _ => scalar.isReadable .bool with
      | some truth => .ok truth
      | none => place.resolve.mismatch "a boolean"
  | _ => place.resolve.mismatch "a boolean"

/-- Read a whole number of some bits without a sign, of sixty-four at most. -/
def asNat (bits : Nat) (expected : String) (place : Place) : Parsed Nat :=
  match place.resolve.node with
  | .scalar _ scalar =>
      match (unsigned? scalar.text.toList).filter fun number =>
          scalar.isReadable .int && number < Nat.pow 2 64 with
      | some number =>
          if number < Nat.pow 2 bits then .ok number
          else place.resolve.refuse (.wrongValue (Resolved.whole number).describe expected)
      | none => place.resolve.mismatch expected
  | _ => place.resolve.mismatch expected

/-- The place of an item of a sequence. -/
def item (position : Nat) (node : Node) (place : Place) : Place :=
  { place with path := place.path ++ "[" ++ toString position ++ "]", node }

/-- Read texts, the first of them at a position. -/
def textsFrom (place : Place) (position : Nat) : List Node → Parsed (List String)
  | [] => .ok []
  | node :: rest => do
      let text ← (place.item position node).asText "a string"
      return text :: (← place.textsFrom (position + 1) rest)

/-- Read a sequence of texts; nothing at all is a sequence without items. -/
def asTexts (place : Place) : Parsed (List String) :=
  match place.resolve.node with
  | .sequence _ items => place.textsFrom 0 items
  | node => if node.isBlank then .ok [] else place.resolve.mismatch "a sequence"

/-- Pass over a value. -/
def ignore (place : Place) : Parsed Unit :=
  if place.node.isWhole then .ok () else place.document.breakOff

end Place

end VersionStore.Yaml

namespace VersionStore.Config

open Yaml

/-- Read one setting. -/
def readPlace (config : Config) (setting : String) (place : Place) : Parsed Config :=
  match setting with
  | "path" => do return { config with path := ← place.asText "path string" }
  | "keep_history" => do return { config with keepHistory := ← place.asBool }
  | "roots" => do return { config with roots := ← place.asTexts }
  | "auto_close_ms" => do return { config with autoCloseMs := ← place.asNat 64 "u64" }
  | "close_iterations" => do return { config with closeIterations := ← place.asNat 32 "u32" }
  | "close_tick_ms" => do return { config with closeTickMs := ← place.asNat 64 "u64" }
  | "cache_entries" => do return { config with cacheEntries := ← place.asNat 64 "usize" }
  | _ => do
      place.ignore
      return config

/-- The path to the value of a key. An alias as a key leaves no name. -/
def pathBehind : Node → String
  | .scalar _ key => key.text
  | _ => "?"

/-- Read fields in order, refusing a setting that was seen. -/
def readFields (config : Config) (whole : Place) (seen : List String) :
    List Node → Parsed Config
  | [] => .ok config
  | [key] => do
      let _ ← ({ whole with node := key } : Place).asText "field identifier"
      whole.document.breakOff
  | key :: node :: rest => do
      let name ← ({ whole with node := key } : Place).asText "field identifier"
      if name ∈ seen then whole.refuse (.duplicateField name)
      else
        let known := if settings.contains name then name :: seen else seen
        let place : Place := { whole with path := pathBehind key, node }
        (← config.readPlace name place).readFields whole known rest

/-- Read values in the order of the settings. -/
def readValues (config : Config) (whole : Place) (position : Nat) :
    List (String × Node) → Parsed Config
  | [] => .ok config
  | (name, node) :: rest => do
      let place : Place := { whole with path := "." }
      let read ← config.readPlace name (place.item position node)
      read.readValues whole (position + 1) rest

/-- Read settings from the root of a document. -/
def ofRoot (root : Place) : Parsed Config :=
  match root.node with
  | .mapping _ items => readFields {} root [] items
  | .sequence _ items => do
      let config ← readValues {} root 0 (settings.zip items)
      root.ignore
      if items.length > settings.length then
        root.refuse (.wrongLength items.length
          ("sequence of " ++ toString settings.length ++ " elements"))
      else return config
  | node => if node.isBlank then .ok {} else root.mismatch "struct DbfsConfig"

/-- Read settings from the text of a document, which has to be well formed to its
end. -/
def ofYaml (text : String) : Parsed Config := do
  let document := Document.ofText text
  let config ← ofRoot ⟨document, "", document.root⟩
  match document.fault with
  | some fault => throw fault
  | none => return config

end VersionStore.Config
