import VersionStore.Tables.Entries
import VersionStore.Tables.Directories

namespace VersionStore.Tables

/-!
# Fresh tables

A new store holds the entry that stands for the whole store and one directory
for each root, under the ids that follow it.
-/

/-- Add a directory and its entry under a given id. -/
def seedDirectory
    (tables : Tables)
    (id : Int)
    (name : String)
    (now : Int) :
    Tables :=
  { tables with
    directories := placeDirectory ⟨id, name⟩ tables.directories
    entries := tables.entries ++ [{ freshEntry rootId name true now with id }]
    lastEntryId := max tables.lastEntryId id }

/-- Add directories for names, under consecutive ids. -/
def seedFrom (tables : Tables) (id : Int) (now : Int) : List String → Tables
  | [] => tables
  | name :: rest => (tables.seedDirectory id name now).seedFrom (id + 1) now rest

/-- The tables of a new store with the given roots. -/
def seed (roots : List String) (now : Int) : Tables :=
  empty.seedFrom rootId now ("" :: roots)

end VersionStore.Tables
