import VersionStore.Host.FileHandle
import VersionStore.Text.LetterCase

namespace VersionStore

/-!
# Walking a tree

A scan visits the tree below a handle in one go and asks before it descends into
a directory. A walk yields one entry at a time and reads a directory when it
gets there, either before or after what lies below. Both follow the order of
names within a directory.
-/

/-- An entry of a walk: its handle, its path from the start, and its entry. -/
structure Visit where
  file : FileHandle
  relative : String
  entry : Entry
  deriving DecidableEq

/-- Decides whether to descend into a visit, knowing those it was asked about before, the
latest first. -/
abbrev Descent : Type :=
  List Visit → Visit → Bool

namespace FileHandle

/-- The most directories that can lie one below the other: every directory on a
path has a row of its own. -/
def depthBound (file : FileHandle) : HostAction Nat :=
  HostAction.on file.root.store (Action.peek fun tables => tables.directories.length + 1)

/-- Make sure that a live directory is at a handle. -/
def requireDirectory (file : FileHandle) : HostAction Unit := do
  if !(← file.require).isDirectory then throw (.notADirectory file.text)

/-- Visit entries of a directory and what lies below them, at most `depth`
directories deep, after visits that were asked about. -/
def scanEntries
    (descend : Descent)
    (depth : Nat)
    (directory : FileHandle)
    (relative : String)
    (asked : List Visit) :
    List Entry → HostAction (List Visit)
  | [] => return []
  | entry :: rest => do
      let file ← (directory.child entry.name : Except Fault FileHandle)
      let visit : Visit := ⟨file, Path.join relative entry.name, entry⟩
      let below ←
        if descend asked visit && entry.isDirectory then
          match depth with
          | 0 => pure []
          | depth + 1 => do
              scanEntries descend depth file visit.relative (visit :: asked) (← file.list)
        else pure []
      let others ←
        scanEntries descend depth directory relative (below.reverse ++ visit :: asked) rest
      return visit :: below ++ others
termination_by entries => (depth, entries.length)

/-- Visit everything below a directory, its paths put below `relative`. A directory
that is not to be descended into is visited, but not what lies below it. -/
def scanWith (file : FileHandle) (relative : String) (descend : Descent) :
    HostAction (List Visit) := do
  file.requireDirectory
  let depth ← file.depthBound
  scanEntries descend depth file relative [] (← file.list)

/-- A scan that asks about every visit alike, whatever it asked about before. -/
def scan (file : FileHandle) (relative : String) (descend : Visit → Bool) :
    HostAction (List Visit) :=
  file.scanWith relative fun _ => descend

end FileHandle

/-- A directory that a walk is in. -/
structure Frame where
  directory : FileHandle
  relative : String
  /-- Entries that were not looked at yet. -/
  entries : List Entry
  /-- The directory's own visit, if it comes after what lies below. -/
  pending : Option Visit

/-- A walk under way. -/
structure Walk where
  bottomUp : Bool
  /-- The directories the walk is in, the innermost first. -/
  frames : List Frame

namespace Walk

/-- Begin a walk below a directory. -/
def start (file : FileHandle) (bottomUp : Bool) : HostAction Walk := do
  file.requireDirectory
  let entries ← file.list
  return { bottomUp, frames := [⟨file, "", entries, none⟩] }

/-- Go to the next visit, in at most `fuel` steps, with the directories the walk is
in then. -/
def advance (bottomUp : Bool) (fuel : Nat) (frames : List Frame) :
    HostAction (Option Visit × List Frame) :=
  match fuel, frames with
  | 0, _ => return (none, [])
  | _, [] => return (none, [])
  | fuel + 1, frame :: outer =>
      match frame.entries with
      | [] =>
          match frame.pending with
          | some visit => return (some visit, outer)
          | none => advance bottomUp fuel outer
      | entry :: rest => do
          let file ← (frame.directory.child entry.name : Except Fault FileHandle)
          let visit : Visit := ⟨file, Path.join frame.relative entry.name, entry⟩
          let left := { frame with entries := rest } :: outer
          if !entry.isDirectory then return (some visit, left)
          let entries ← file.list
          if bottomUp then
            advance bottomUp fuel (⟨file, visit.relative, entries, some visit⟩ :: left)
          else
            return (some visit, ⟨file, visit.relative, entries, none⟩ :: left)

/-- Steps to the next visit: each leaves a directory or goes one deeper. -/
def stepBound (walk : Walk) : HostAction Nat := do
  match walk.frames with
  | [] => return 0
  | frame :: _ => return 2 * (← frame.directory.depthBound) + walk.frames.length + 1

/-- The next visit of a walk, nothing at its end, and the walk behind it. A failure
ends the walk. -/
def next (walk : Walk) : HostAction (Except Fault (Option Visit) × Walk) := do
  let outcome ← HostAction.attempt (do advance walk.bottomUp (← walk.stepBound) walk.frames)
  match outcome with
  | .ok (visit, frames) => return (.ok visit, { walk with frames })
  | .error fault => return (.error fault, { walk with frames := [] })

/-- The visits that a walk has left, at most `fuel` of them. -/
def collect (fuel : Nat) (walk : Walk) : HostAction (List Visit) :=
  match fuel with
  | 0 => return []
  | fuel + 1 => do
      let (outcome, rest) ← walk.next
      match ← (outcome : Except Fault (Option Visit)) with
      | none => return []
      | some visit => return visit :: (← collect fuel rest)

end Walk

namespace FileHandle

/-- More visits than any walk below a handle can make: on each level of the tree
every entry may be seen below every other. -/
def visitBound (file : FileHandle) : HostAction Nat :=
  HostAction.on file.root.store (Action.peek fun tables =>
    (tables.entries.length + 2).pow (tables.directories.length + 2))

/-- All visits of a walk below a directory. -/
def walkAll (file : FileHandle) (bottomUp : Bool) : HostAction (List Visit) := do
  let walk ← Walk.start file bottomUp
  walk.collect (← file.visitBound)

end FileHandle

namespace Root

/-- Paths from the top of entries below a path whose names contain a pattern, in
whatever case. -/
def find (root : Root) (relative pattern : String) : HostAction (List String) := do
  let wanted := Text.toLower pattern
  let start ← (FileHandle.ofText root relative : Except Fault FileHandle)
  match ← start.stat with
  | none => return []
  | some entry =>
      if !entry.isDirectory then return []
      let visits ← start.walkAll false
      return (visits.filter fun visit =>
        Text.containsText (Text.toLower visit.file.name) wanted).map (·.file.absolute)

end Root

end VersionStore
