import VersionStore.Command.Console
import VersionStore.Text.Report

namespace VersionStore.Command

/-!
# Commands that look

Listing a directory, showing an entry, and comparing the stored bytes of files
with their checksums.
-/

open ConsoleAction

/-- The live entry at a path that has to have one. -/
def entryAt (id : StoreId) (path : String) : ConsoleAction Entry := do
  match ← onStore id (Store.stat path) with
  | some entry => return entry
  | none => fail (path ++ ": no such file or directory")

/-- List a directory, or the one entry of a file. -/
def list (id : StoreId) (path : String) : ConsoleAction Unit := do
  let entry ← entryAt id path
  if entry.isDirectory then
    printLines ((← onStore id (Store.list path)).map Text.entryLine)
  else printLine (Text.entryLine entry)

/-- The lines that describe an entry. -/
def entryLines (path : String) (entry : Entry) : List String :=
  ["path:     /" ++ Path.trim path,
    "id:       " ++ toString entry.id,
    "type:     " ++ (if entry.isDirectory then "directory" else "file"),
    "length:   " ++ toString entry.length,
    "modified: " ++ Text.timestamp entry.lastModified,
    "writable: " ++ toString entry.writable] ++
    (entry.checksum.toList.map fun checksum => "sha256:   " ++ checksum.toHex)

/-- Show the details of an entry. -/
def stat (id : StoreId) (path : String) : ConsoleAction Unit := do
  let entry ← entryAt id path
  printLines (entryLines path entry)
  let links ← onStore id (Store.linksFrom path)
  if !links.isEmpty then printLine ("xrefs:    " ++ " ".intercalate links)

/-! ## Verification -/

/-- The numbers of files that were checked and that failed. -/
structure Tally where
  checked : Nat := 0
  failed : Nat := 0
  deriving DecidableEq, Repr

/-- Compare the stored bytes of one file with its checksum. -/
def verifyFile (id : StoreId) (tally : Tally) (path : String) : ConsoleAction Tally := do
  if ← onStore id (Store.verify path) then
    return { tally with checked := tally.checked + 1 }
  else
    printLine ("FAILED /" ++ path)
    return { checked := tally.checked + 1, failed := tally.failed + 1 }

/-- The path of an entry in a directory. -/
def below (path name : String) : String :=
  if path.isEmpty then name else path ++ "/" ++ name

/-- Verify files and what lies below directories, at most `depth` directories
deep. -/
def verifyEach (id : StoreId) (depth : Nat) (tally : Tally) :
    List (String × Entry) → ConsoleAction Tally
  | [] => return tally
  | (path, entry) :: rest => do
      let next ←
        if entry.isDirectory then
          match depth with
          | 0 => pure tally
          | depth + 1 => do
              let entries ← onStore id (Store.listOf entry.id)
              verifyEach id depth tally
                (entries.map fun child => (below path child.name, child))
        else verifyFile id tally path
      verifyEach id depth next rest
termination_by entries => (depth, entries.length)

/-- Verify the file at a path, or every file below a directory. -/
def verify (id : StoreId) (path : String) : ConsoleAction Unit := do
  let entry ← entryAt id path
  let depth := ((← get).host.store id).tables.directories.length + 1
  let tally ← verifyEach id depth {} [(Path.trim path, entry)]
  printLine (toString tally.checked ++ " files checked, " ++ toString tally.failed ++ " failed")
  if tally.failed > 0 then
    fail (toString tally.failed ++ " files failed verification")

end VersionStore.Command
