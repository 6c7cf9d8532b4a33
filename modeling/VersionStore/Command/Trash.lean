import VersionStore.Command.Console
import VersionStore.Host.RootTrash
import VersionStore.Json.Entry
import VersionStore.Json.Printer
import VersionStore.Text.Report

namespace VersionStore.Command

/-!
# Commands on the trash

Listing trashed versions, restoring them, and removing them for good.
-/

open ConsoleAction

/-- The trash at a text below a root. -/
def trashListing (id : StoreId) (root relative : String) (directories : Bool) :
    ConsoleAction (List TrashEntry) := do
  let found ← within (root ++ " is not a root") (onHost (Root.named id root))
  onHost (found.history relative directories)

/-- List the trash at a text below a root, as lines or as data values. -/
def history
    (id : StoreId)
    (root relative : String)
    (directories asValues : Bool) :
    ConsoleAction Unit := do
  let entries ← trashListing id root relative directories
  if asValues then printLine (Json.arr (entries.map TrashEntry.toJson)).pretty
  else printLines (entries.map Text.trashLine)

/-- True for a text that asks about a directory. -/
def asksForDirectory (relative : String) : Bool :=
  relative.isEmpty || Path.endsInSeparator relative

/-- The entries of a listing that are to be restored: one version of a file, or all
of a directory's. -/
def selectVersions (root relative : String) (version : Nat) (entries : List TrashEntry) :
    ConsoleAction (List TrashEntry) := do
  if asksForDirectory relative then return entries
  match entries[version]? with
  | some entry => return [entry]
  | none => fail (root ++ "/" ++ relative ++ ": no deleted version " ++ toString version)

/-- Restore a trashed file, or every file of a trashed directory listing. -/
def recover
    (now : Int)
    (id : StoreId)
    (root relative target : String)
    (version : Nat) :
    ConsoleAction Unit := do
  let entries ← trashListing id root relative false
  let selected ← selectVersions root relative version entries
  if selected.isEmpty then fail ("Nothing to recover in " ++ root ++ "/" ++ relative)
  let (restored, failed) ← onStore id (Store.recover now target selected)
  printLine ("recovered " ++ toString restored ++ ", failed " ++ toString failed)
  if restored = 0 then fail ("Recovery to " ++ target ++ " failed")

/-- What was removed, on one line. -/
def removedLine (verb : String) (counts : Nat × Nat) : String :=
  verb ++ " " ++ toString counts.1 ++ " files, " ++ toString counts.2 ++ " directories"

/-- Remove trashed versions for good: the newest of a file, all of them, or those of
a directory listing. -/
def prune (id : StoreId) (root relative : String) (all : Bool) : ConsoleAction Unit := do
  let entries ← trashListing id root relative false
  let selected := if asksForDirectory relative || all then entries else entries.take 1
  printLine (removedLine "pruned" (← onStore id (Store.pruneHistory selected all)))

/-! ## Cleaning up -/

/-- The milliseconds of a day. -/
def dayMs : Int := 86400000

/-- The longest time span that is reckoned with, in seconds. -/
def longestSpan : Int := 9223372036854775

/-- The time that lies some days back, if there is such a date. -/
def daysBefore? (now days : Int) : Option Int :=
  let cutoff := now - days * dayMs
  if (days * 86400).natAbs ≤ longestSpan.natAbs ∧ Text.hasDate cutoff then some cutoff
  else none

/-- Accepts entries that were deleted before a time. -/
def deletedBefore (cutoff : Int) : Txn.Selector :=
  fun _ trashed => trashed.entry.lastDeleted < cutoff

/-- The entries that a cleanup removes, besides what nothing uses. -/
def cleanupSelector (now : Int) (all : Bool) (days? : Option Int) :
    ConsoleAction (Option Txn.Selector) :=
  match days? with
  | some days =>
      match daysBefore? now days with
      | some cutoff => return some (deletedBefore cutoff)
      | none => fail ("--days " ++ toString days ++ " is out of range")
  | none => return if all then some Txn.Selector.all else none

/-- Empty the trash of all files, of those deleted some days ago, or only of
directories that nothing uses. -/
def cleanup (now : Int) (id : StoreId) (all : Bool) (days? : Option Int) :
    ConsoleAction Unit := do
  let select? ← cleanupSelector now all days?
  printLine (removedLine "removed" (← onStore id (Store.sweep select?)))

end VersionStore.Command
