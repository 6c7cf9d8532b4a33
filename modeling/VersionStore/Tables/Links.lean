import VersionStore.Tables.Entries
import VersionStore.Tables.Directories

namespace VersionStore.Tables

/-!
# The links tables

Links lead from entries to paths. A path that was linked to once keeps its row
among the targets, whether links to it remain or not.
-/

/-- The id of a link target. -/
def targetId? (tables : Tables) (path : String) : Option Int :=
  (tables.targets.find? (·.path == path)).map (·.id)

/-- The id of a link target, which is added when it is new. -/
def internTarget (tables : Tables) (path : String) : Int × Tables :=
  match tables.targetId? path with
  | some id => (id, tables)
  | none =>
      let id := nextId (tables.targets.map (·.id))
      (id, { tables with targets := tables.targets ++ [{ id, path }] })

/-- Remove all links from an entry. -/
def removeLinks (tables : Tables) (source : Int) : Tables :=
  { tables with links := tables.links.filter (·.source != source) }

/-- The number of links from an entry. -/
def linkCount (tables : Tables) (source : Int) : Nat :=
  tables.links.countP (·.source == source)

/-- Add a link from an entry to a path. -/
def addLink (tables : Tables) (source : Int) (path : String) : Tables :=
  let (target, interned) := tables.internTarget path
  { interned with
    links := interned.links ++ [{ id := nextId (interned.links.map (·.id)), source, target }] }

/-- Put links to the given paths in place of the links from an entry. -/
def setLinks (tables : Tables) (source : Int) (paths : List String) : Tables :=
  paths.foldl (fun (linked : Tables) path => linked.addLink source path)
    (tables.removeLinks source)

/-- The paths that an entry links to, in order, each as often as it is linked. -/
def targetsOf (tables : Tables) (source : Int) : List String :=
  let linked := tables.links.filter (·.source == source)
  let paths := linked.filterMap fun link =>
    (tables.targets.find? (·.id == link.target)).map (·.path)
  paths.mergeSort (fun first second => decide (first ≤ second))

/-- The order of entries by directory and name. -/
def placeLe (first second : TrashEntry) : Bool :=
  if first.directory = second.directory then
    decide (first.entry.name ≤ second.entry.name)
  else
    decide (first.directory ≤ second.directory)

/-- The live entry that a link comes from, with the path of its directory. -/
def linkSource? (tables : Tables) (link : Link) : Option TrashEntry :=
  match tables.entry? link.source with
  | some entry =>
      if entry.isDeleted then none
      else (tables.directoryPath? entry.directoryId).map fun path => ⟨path, entry⟩
  | none => none

/-- Live entries with a link to a path, once for each link. -/
def sourcesOf (tables : Tables) (path : String) : List TrashEntry :=
  let links := tables.links.filter fun link =>
    tables.targets.any fun target => target.id == link.target && target.path == path
  (links.filterMap tables.linkSource?).mergeSort placeLe

end VersionStore.Tables
