import VersionStore.Tables.Trash
import VersionStore.Txn.Content

namespace VersionStore.Txn

/-!
# The trash

Listing the trash, copying versions back out of it, and removing them for good.
A selector says which entries are meant; it may depend on the entries that it
was asked about before. The sweep removes the accepted files, then the rows of
directories that nothing uses, and then trashed directories as long as removing
one makes another unused.
-/

open VersionStore.Action

/-- Accepts entries, knowing those it was asked about before, the latest
first. -/
abbrev Selector : Type :=
  List TrashEntry → TrashEntry → Bool

namespace Selector

/-- Accepts every entry. -/
def all : Selector := fun _ _ => true

/-- The entries accepted when asked in order, after those already asked. -/
def filterFrom (select : Selector) (asked : List TrashEntry) :
    List TrashEntry → List TrashEntry
  | [] => []
  | entry :: rest =>
      let accepted := select.filterFrom (entry :: asked) rest
      if select asked entry then entry :: accepted else accepted

/-- The entries accepted when asked in order. -/
def filter (select : Selector) (entries : List TrashEntry) : List TrashEntry :=
  select.filterFrom [] entries

end Selector

/-! ## Listings -/

/-- The first entry of each path, leaving out paths that were seen. -/
def firstOfEach (seen : List String) : List TrashEntry → List TrashEntry
  | [] => []
  | entry :: rest =>
      if entry.path ∈ seen then firstOfEach seen rest
      else entry :: firstOfEach (entry.path :: seen) rest

/-- Trashed files. With a name, every version of that file in a directory, the
newest deletion first. Without one, the newest version of each trashed file in
the directory or, at the root and when directories are asked for, the
directories below the root that hold trashed files. -/
def history
    (tables : Tables)
    (root directory name : String)
    (directories : Bool)
    (count : Int) :
    List TrashEntry :=
  if !name.isEmpty then tables.versionsOf directory name count
  else
    let entries :=
      if directory == root && directories then tables.trashDirectories root (-1)
      else tables.trashIn directory (-1)
    Tables.limit count (firstOfEach [] entries)

/-- Like `history` without directories, of entries that a selector accepts. At
the root all files below it are searched. -/
def searchHistory
    (tables : Tables)
    (root directory name : String)
    (count : Int)
    (select : Selector) :
    List TrashEntry :=
  let found :=
    if !name.isEmpty then select.filter (tables.versionsOf directory name (-1))
    else if directory == root then
      firstOfEach [] (select.filter (tables.trashUnder root (-1)))
    else firstOfEach [] (select.filter (tables.trashIn directory (-1)))
  Tables.limit count found

/-! ## The sweep -/

/-- Remove a trashed file with its parts and links. -/
def eraseFile (tables : Tables) (id : Int) : Tables :=
  ((tables.removeEntry id).removeParts id).removeLinks id

/-- Remove the row of a directory that nothing uses. -/
def eraseUnused (tables : Tables) (id : Int) : Tables :=
  if tables.usage id = 0 then tables.removeDirectory id else tables

/-- Remove a trashed directory that nothing uses, and its parent's row when that
is unused then. -/
def eraseDirectory? (tables : Tables) (entry : Entry) : Option Tables :=
  if tables.usage entry.id > 0 then none
  else
    let erased := (tables.removeEntry entry.id).removeDirectory entry.id
    some (eraseUnused erased entry.directoryId)

/-- Remove every unused one of some trashed directories, in order. Gives those
that are left and the number removed. -/
def eraseRound (tables : Tables) : List Entry → List Entry × Nat × Tables
  | [] => ([], 0, tables)
  | entry :: rest =>
      match eraseDirectory? tables entry with
      | some erased =>
          let (left, count, final) := eraseRound erased rest
          (left, count + 1, final)
      | none =>
          let (left, count, final) := eraseRound tables rest
          (entry :: left, count, final)

/-- Remove trashed directories round by round until a round removes none, for at
most `rounds` rounds. -/
def eraseRounds (rounds : Nat) (directories : List Entry) (tables : Tables) : Nat × Tables :=
  match rounds with
  | 0 => (0, tables)
  | rounds + 1 =>
      match eraseRound tables directories with
      | (_, 0, final) => (0, final)
      | (left, count, erased) =>
          let (more, final) := eraseRounds rounds left erased
          (count + more, final)

/-- Empty the trash of the files that a selector accepts and of everything that
nothing uses. Gives the numbers of files and of directories removed. Each round
but the last removes a directory, so there are no more rounds than directories
and one. -/
def sweepTables (select? : Option Selector) (tables : Tables) : (Nat × Nat) × Tables :=
  let (directories, files) := tables.trash.partition (·.entry.isDirectory)
  let accepted :=
    match select? with
    | some select => select.filter files
    | none => []
  let emptied := accepted.foldl (fun (left : Tables) file => eraseFile left file.entry.id) tables
  let pruned := emptied.directoryIds.foldl eraseUnused emptied
  let (count, final) :=
    eraseRounds (directories.length + 1) (directories.map (·.entry)) pruned
  ((accepted.length, count), final)

/-- Empty the trash, and give the numbers of files and of directories removed. A
sweep that finds nothing to remove changes nothing. Where the database cannot be
changed everything stays. -/
def sweep (select? : Option Selector) : Action (Nat × Nat) := do
  let (counts, swept) ← query (sweepTables select?)
  let store ← get
  if swept = store.tables then return counts
  if store.refusal?.isSome then return (0, 0)
  update fun _ => swept
  return counts

/-! ## Pruning and recovering versions -/

/-- The trashed files that an entry of a listing stands for: itself, or all
versions at its place. -/
def versionsMeant (tables : Tables) (all : Bool) (info : TrashEntry) : List Entry :=
  let versions :=
    if all then (tables.versionsOf info.directory info.entry.name (-1)).map (·.entry)
    else (tables.trashed? info.entry.id).toList
  versions.filter Entry.isFile

/-- Remove rows for good and count them. -/
def pruneRows : List Entry → Action Nat
  | [] => return 0
  | entry :: rest => do
      let count ← pruneRow entry
      return count + (← pruneRows rest)

/-- Remove the versions that entries stand for, and count them. -/
def pruneVersions (all : Bool) : List TrashEntry → Action Nat
  | [] => return 0
  | info :: rest => do
      if info.entry.isDirectory then pruneVersions all rest
      else
        let versions ← query fun tables => versionsMeant tables all info
        let count ← pruneRows versions
        return count + (← pruneVersions all rest)

/-- Remove versions for good, then the directories that nothing uses. Gives the
numbers of files and of directories removed. -/
def pruneHistory (infos : List TrashEntry) (all : Bool) : Action (Nat × Nat) := do
  let files ← pruneVersions all infos
  let (_, directories) ← sweep none
  return (files, directories)

/-- Copy one trashed version to a path, with the time of its last change. -/
def restore (now : Int) (path : CleanPath) (info : TrashEntry) : Action Entry := do
  let version ← Action.require (.notFound info.path)
    (← query fun tables => tables.trashed? info.entry.id)
  copyEntry now path version (some version.lastModified)

/-- The path that an entry is restored to: the destination itself for a single
entry, and otherwise a path below it. -/
def restoreTarget (target : CleanPath) (single : Bool) (info : TrashEntry) :
    Action CleanPath :=
  if single then return target else ofExcept (target.join info.entry.name)

/-- Restore entries in order, each in a scope of its own. Gives the numbers of
entries restored and failed. -/
def restoreEach (now : Int) (target : CleanPath) (single : Bool) :
    List TrashEntry → Action (Nat × Nat)
  | [] => return (0, 0)
  | info :: rest => do
      let path ← restoreTarget target single info
      let outcome ← attempt (transaction (restore now path info))
      let (restored, failed) ← restoreEach now target single rest
      return if outcome.isOk then (restored + 1, failed) else (restored, failed + 1)

/-- Copy trashed versions back into the live tree. Gives the numbers of entries
restored and failed. -/
def recover (now : Int) (target : String) (infos : List TrashEntry) : Action (Nat × Nat) := do
  restoreEach now (← clean target) (infos.length == 1) infos

end VersionStore.Txn
