import VersionStore.Store.Basic
import VersionStore.Tables.Links
import VersionStore.Tables.Parts

namespace VersionStore.Txn

/-!
# Looking things up

Queries on the live tree, by clean path or by path text. They run inside a gate
or a transaction that someone else has opened.
-/

open VersionStore.Action

/-- The clean form of a path text. -/
def clean (text : String) : Action CleanPath :=
  ofExcept (CleanPath.ofText text)

/-- The live entry at a path. -/
def entryAt? (path : CleanPath) : Action (Option Entry) :=
  query fun tables => tables.lookup? path.directory path.name

/-- The live entry at a path that has to have one. -/
def requireEntry (path : CleanPath) : Action Entry := do
  Action.require (.notFound path.text) (← entryAt? path)

/-- The live file at a path that has to have one. -/
def requireFile (path : CleanPath) : Action Entry := do
  let entry ← requireEntry path
  if entry.isDirectory then throw (.notAFile path.text)
  return entry

/-- The live entries in the directory at a path. -/
def listAt (path : CleanPath) : Action (List Entry) := do
  let entry ← requireEntry path
  if !entry.isDirectory then throw (.notADirectory path.text)
  query fun tables => tables.listing entry.id

/-- The live entry at a path text. -/
def stat (text : String) : Action (Option Entry) := do
  entryAt? (← clean text)

/-- The live entries in the directory at a path text. -/
def list (text : String) : Action (List Entry) := do
  listAt (← clean text)

/-- The paths that the live entry at a path links to. -/
def linksFrom (path : CleanPath) : Action (List String) := do
  match ← entryAt? path with
  | some entry => query fun tables => tables.targetsOf entry.id
  | none => return []

/-- Live entries that link to a path. -/
def linksTo (path : CleanPath) : Action (List TrashEntry) :=
  query (fun tables => tables.sourcesOf path.text) .links

/-- True when an entry's recorded length and checksum are those of the bytes of
its parts. -/
def isIntact (entry : Entry) (contents : List Content) : Bool :=
  let digest := contents.foldl (fun (digest : Sha256.Digest) content =>
    digest.update content.data) Sha256.Digest.empty
  (contents.foldl (fun total content => total + content.size) 0 : Nat) == entry.length &&
    entry.checksum == some (Checksum.finish digest)

/-- Compare the stored bytes of the file at a path with what is recorded. -/
def verifyAt (path : CleanPath) : Action Bool := do
  let entry ← requireFile path
  query fun tables => isIntact entry (tables.contents entry.id)

end VersionStore.Txn
