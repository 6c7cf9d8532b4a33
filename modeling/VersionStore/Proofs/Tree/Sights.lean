import VersionStore.Proofs.Content.Beside
import VersionStore.Proofs.Tree.Writing

namespace VersionStore

/-!
# What is seen of a tree

At each path users see nothing, a directory, or a version of a file with its attributes and
its bytes. What an edit of the tables comes to is what is seen after it at each path. Most
edits concern one row in which nothing lies: what is seen elsewhere stays.
-/

/-- What is seen of a file. -/
structure Version where
  writable : Bool
  lastModified : Int
  length : Int
  checksum : Option Checksum
  bytes : ByteArray

/-- A new file of some bytes. -/
def Version.ofBytes (modified : Int) (data : ByteArray) : Version where
  writable := true
  lastModified := modified
  length := data.size
  checksum := some (Checksum.ofData data)
  bytes := data

/-- A new copy of a file. -/
def Version.copied (version : Version) (modified : Int) : Version :=
  { version with writable := true, lastModified := modified }

/-- A file that was moved. -/
def Version.moved (version : Version) (modified : Int) : Version :=
  { version with lastModified := modified }

/-- What is seen where something live is. -/
inductive Sight where
  | directory
  | file (version : Version)

/-- What is seen at each path. -/
abbrev Sights : Type :=
  CleanPath → Option Sight

namespace Sights

/-- Something is seen at one path, or nothing, whatever was seen there. -/
def set (sights : Sights) (path : CleanPath) (sight? : Option Sight) : Sights :=
  fun other => if other = path then sight? else sights other

/-- Directories are seen along a path and at its end. -/
def lead (sights : Sights) (path : CleanPath) : Sights :=
  fun other => if other.names <+: path.names then some .directory else sights other

/-- No file is seen along a path, nor at its end. -/
def Leads (sights : Sights) (path : CleanPath) : Prop :=
  ∀ other version, other.names <+: path.names → sights other ≠ some (.file version)

/-- A file is seen at a path, and directories along it. -/
def put (sights : Sights) (path : CleanPath) (version : Version) : Sights :=
  (sights.lead path.dropLast).set path (some (.file version))

variable {sights : Sights} {path other : CleanPath} {sight? : Option Sight}

/-- What was set is seen. -/
@[simp] theorem set_self :
    sights.set path sight? path = sight? :=
  if_pos rfl

/-- What is seen at other paths stays. -/
theorem set_of_ne
    (different : other ≠ path) :
    sights.set path sight? other = sights other :=
  if_neg different

/-- Directories are seen along the names of a path. -/
theorem lead_along
    (along : other.names <+: path.names) :
    sights.lead path other = some .directory :=
  if_pos along

/-- What is seen elsewhere stays. -/
theorem lead_elsewhere
    (away : ¬other.names <+: path.names) :
    sights.lead path other = sights other :=
  if_neg away

/-- A path is no prefix of a shorter one. -/
theorem not_prefix_of_concat
    (names : List Name)
    (name : Name) :
    ¬names ++ [name] <+: names := by
  intro isPrefix
  have shorter := isPrefix.length_le
  simp at shorter

/-- One name further one more directory is seen. -/
theorem lead_concat
    (names : List Name)
    (name : Name) :
    sights.lead ⟨names ++ [name]⟩ =
      (sights.lead ⟨names⟩).set ⟨names ++ [name]⟩ (some .directory) := by
  funext other
  by_cases isEnd : other = ⟨names ++ [name]⟩
  · rw [isEnd, set_self, lead_along (List.prefix_refl _)]
  rw [set_of_ne isEnd]
  by_cases along : other.names <+: names
  · rw [lead_along (along.trans (List.prefix_append _ _)), lead_along along]
  · have away : ¬other.names <+: names ++ [name] := fun further =>
      (List.prefix_concat_iff.mp further).elim (fun same => isEnd (congrArg CleanPath.mk same)) along
    rw [lead_elsewhere away, lead_elsewhere along]

/-- One name further there is one more place for a file to be in the way. -/
theorem leads_concat_iff
    {names : List Name}
    {name : Name} :
    sights.Leads ⟨names ++ [name]⟩ ↔
      sights.Leads ⟨names⟩ ∧ ∀ version, sights ⟨names ++ [name]⟩ ≠ some (.file version) := by
  constructor
  · intro leads
    exact ⟨fun other version along => leads other version (along.trans (List.prefix_append _ _)),
      fun version => leads _ version (List.prefix_refl _)⟩
  · rintro ⟨leads, last⟩ other version along
    rcases List.prefix_concat_iff.mp along with isEnd | within
    · rw [show other = ⟨names ++ [name]⟩ from congrArg CleanPath.mk isEnd]
      exact last version
    · exact leads other version within

/-- What is seen at the end of a path is not in the way to it. -/
theorem leads_set_iff
    (proper : ¬path.isRoot = true) :
    (sights.set path sight?).Leads path.dropLast ↔ sights.Leads path.dropLast := by
  obtain ⟨names, name, whole, above, -⟩ := Txn.exists_names_of_not_isRoot proper
  have away (other : CleanPath) (along : other.names <+: path.dropLast.names) :
      sights.set path sight? other = sights other := by
    refine set_of_ne ?_
    rintro rfl
    rw [whole, above] at along
    exact not_prefix_of_concat names name along
  constructor
  · intro leads other version along
    rw [← away other along]
    exact leads other version along
  · intro leads other version along
    rw [away other along]
    exact leads other version along

/-- What was seen at a path makes no difference to what is put there. -/
theorem put_set
    (version : Version) :
    (sights.set path sight?).put path version = sights.put path version := by
  funext other
  by_cases isPath : other = path
  · rw [isPath, put, put, set_self, set_self]
  · rw [put, put, set_of_ne isPath, set_of_ne isPath, lead, lead, set_of_ne isPath]

/-- It makes no difference which of two paths is set first. -/
theorem set_comm
    {sight?' : Option Sight}
    (different : other ≠ path) :
    (sights.set path sight?).set other sight?' = (sights.set other sight?').set path sight? := by
  funext seen
  by_cases isOther : seen = other
  · subst isOther
    rw [set_self, set_of_ne different, set_self]
  · rw [set_of_ne isOther]
    by_cases isPath : seen = path
    · rw [isPath, set_self, set_self]
    · rw [set_of_ne isPath, set_of_ne isPath, set_of_ne isOther]

/-- A file that is away from the way to a path may go before that way is seen or after it. -/
theorem put_of_moved
    {source target : CleanPath}
    {version : Version}
    (isFile : sights source = some (.file version))
    (leads : sights.Leads target.dropLast)
    (moved : Version) :
    (((sights.set target none).lead target.dropLast).set source none).set target
        (some (.file moved)) =
      (sights.set source none).put target moved := by
  have away : ¬source.names <+: target.dropLast.names := fun along =>
    leads source version along isFile
  funext other
  by_cases isTarget : other = target
  · rw [isTarget, put, set_self, set_self]
  rw [put, set_of_ne isTarget, set_of_ne isTarget]
  by_cases isSource : other = source
  · rw [isSource, set_self, lead_elsewhere away, set_self]
  rw [set_of_ne isSource]
  by_cases along : other.names <+: target.dropLast.names
  · rw [lead_along along, lead_along along]
  · rw [lead_elsewhere along, lead_elsewhere along, set_of_ne isTarget, set_of_ne isSource]

/-- Nothing changes where nothing else is seen. -/
theorem set_eq_self
    (same : sights path = sight?) :
    sights.set path sight? = sights := by
  funext other
  by_cases isPath : other = path
  · rw [isPath, set_self, same]
  · exact set_of_ne isPath

end Sights

namespace Tables

/-- What is seen of the file of a row. -/
def versionOf (tables : Tables) (entry : Entry) : Version where
  writable := entry.writable
  lastModified := entry.lastModified
  length := entry.length
  checksum := entry.checksum
  bytes := bytesOf (tables.pieces entry.id)

/-- What is seen of a row. -/
def sightOf (tables : Tables) (entry : Entry) : Sight :=
  if entry.isDirectory then .directory else .file (tables.versionOf entry)

/-- What is seen of the live tree. -/
def sights (tables : Tables) : Sights :=
  fun path => (tables.lookupAt? path).map tables.sightOf

variable {tables before after : Tables} {path : CleanPath} {entry : Entry} {id : Int}

/-- A directory is seen as one. -/
theorem sightOf_directory
    (isDirectory : entry.isDirectory = true) :
    tables.sightOf entry = .directory :=
  if_pos isDirectory

/-- A file is seen in its version. -/
theorem sightOf_file
    (isFile : entry.isDirectory = false) :
    tables.sightOf entry = .file (tables.versionOf entry) :=
  if_neg (by simp [isFile])

/-- A row is seen as it was while its parts stay. -/
theorem sightOf_congr
    (pieces : after.pieces entry.id = before.pieces entry.id) :
    after.sightOf entry = before.sightOf entry := by
  unfold sightOf versionOf
  rw [pieces]

namespace Coherent

/-- What lies at the end of a path is seen there. -/
theorem sights_of_at
    (coherent : tables.Coherent)
    (here : tables.At path.names entry) :
    tables.sights path = some (tables.sightOf entry) := by
  rw [sights, coherent.lookupAt?_eq_some_iff.mpr here]
  rfl

/-- Where something is seen something lies. -/
theorem exists_at_of_sights
    (coherent : tables.Coherent)
    {sight : Sight}
    (seen : tables.sights path = some sight) :
    ∃ entry, tables.At path.names entry ∧ tables.sightOf entry = sight := by
  obtain ⟨entry, found, isSeen⟩ := Option.map_eq_some_iff.mp seen
  exact ⟨entry, coherent.lookupAt?_eq_some_iff.mp found, isSeen⟩

/-- Where nothing lies nothing is seen. -/
theorem sights_eq_none
    (coherent : tables.Coherent)
    (empty : ∀ entry, ¬tables.At path.names entry) :
    tables.sights path = none := by
  cases seen : tables.sights path with
  | none =>
      rfl
  | some sight =>
      obtain ⟨entry, here, -⟩ := coherent.exists_at_of_sights seen
      exact absurd here (empty entry)

end Coherent

/-! ## Edits of one row -/

/-- Two tables are the same but for the row and the parts of one id, in which nothing live lies. -/
structure SameBut (id : Int) (before after : Tables) : Prop
    extends Beside (· = id) before after where
  proper : id ≠ rootId
  bare : ∀ entry ∈ before.entries, entry.isDeleted = false → entry.directoryId ≠ id
  bareAfter : ∀ entry ∈ after.entries, entry.isDeleted = false → entry.directoryId ≠ id

namespace SameBut

/-- Being the same has no direction. -/
theorem symm
    (same : SameBut id before after) :
    SameBut id after before where
  rows entry other := (same.rows entry other).symm
  pieces other different := (same.pieces other different).symm
  proper := same.proper
  bare := same.bareAfter
  bareAfter := same.bare

/-- Being the same passes on. -/
theorem trans
    {middle : Tables}
    (first : SameBut id before middle)
    (second : SameBut id middle after) :
    SameBut id before after where
  toBeside := first.toBeside.trans second.toBeside
  proper := first.proper
  bare := first.bare
  bareAfter := second.bareAfter

/-- What lies somewhere and is another entry lies there still. -/
theorem at_of_ne
    (same : SameBut id before after)
    {names : List Name}
    (here : before.At names entry)
    (other : entry.id ≠ id) :
    after.At names entry := by
  induction here with
  | top member isRoot =>
      exact .top ((same.rows _ other).mpr member) isRoot
  | child above member proper live held called inductionHypothesis =>
      have holder := same.bare _ member live
      rw [held] at holder
      exact .child (inductionHypothesis holder) ((same.rows _ other).mpr member) proper live
        held called

/-- What is seen at a path where the entry neither was nor is stays. -/
theorem sights_eq
    (same : SameBut id before after)
    (coherent : before.Coherent)
    (coherentAfter : after.Coherent)
    (was : ∀ entry, before.At path.names entry → entry.id ≠ id)
    (is : ∀ entry, after.At path.names entry → entry.id ≠ id) :
    after.sights path = before.sights path := by
  cases seen : before.sights path with
  | some sight =>
      obtain ⟨entry, here, isSeen⟩ := coherent.exists_at_of_sights seen
      have other := was entry here
      rw [coherentAfter.sights_of_at (same.at_of_ne here other),
        sightOf_congr (same.pieces _ other), isSeen]
  | none =>
      refine coherentAfter.sights_eq_none fun entry here => ?_
      have still := same.symm.at_of_ne here (is entry here)
      rw [coherent.sights_of_at still] at seen
      cases seen

/-- An entry is at one path at most. -/
theorem path_unique
    (coherent : tables.Coherent)
    (here : tables.At path.names entry)
    {other : CleanPath}
    {found : Entry}
    (there : tables.At other.names found)
    (isEntry : found.id = entry.id) :
    other = path := by
  obtain ⟨names⟩ := other
  have isSame := coherent.entry_eq there.member here.member isEntry
  rw [isSame] at there
  rw [CleanPath.mk.injEq]
  exact coherent.at_names_unique there here

/-- Where an entry was taken away nothing is seen. -/
theorem sights_taken
    (same : SameBut entry.id before after)
    (coherent : before.Coherent)
    (coherentAfter : after.Coherent)
    (here : before.At path.names entry)
    (taken : ∀ other ∈ after.entries, other.isDeleted = false → other.id ≠ entry.id) :
    after.sights = before.sights.set path none := by
  have away (other : CleanPath) (found : Entry) (there : after.At other.names found) :=
    taken found there.member (coherentAfter.live_of_at there)
  funext other
  by_cases isPath : other = path
  · subst isPath
    rw [Sights.set_self]
    refine coherentAfter.sights_eq_none fun found there => ?_
    have wasThere := same.symm.at_of_ne there (away other found there)
    exact away other found there (congrArg (·.id) (coherent.at_unique wasThere here))
  · rw [Sights.set_of_ne isPath]
    refine same.sights_eq coherent coherentAfter (fun found there isEntry => isPath ?_) (away other)
    exact path_unique coherent here there isEntry

/-- Where an entry was added it is seen. -/
theorem sights_added
    (same : SameBut entry.id before after)
    (coherent : before.Coherent)
    (coherentAfter : after.Coherent)
    (here : after.At path.names entry)
    (isNew : ∀ other ∈ before.entries, other.id ≠ entry.id) :
    after.sights = before.sights.set path (some (after.sightOf entry)) := by
  funext other
  by_cases isPath : other = path
  · subst isPath
    rw [Sights.set_self, coherentAfter.sights_of_at here]
  · rw [Sights.set_of_ne isPath]
    refine same.sights_eq coherent coherentAfter (fun found there => isNew found there.member)
      fun found there isEntry => isPath ?_
    exact path_unique coherentAfter here there isEntry

/-- Where an entry was moved to it is seen, and nothing is seen where it was. -/
theorem sights_moved
    (same : SameBut id before after)
    (coherent : before.Coherent)
    (coherentAfter : after.Coherent)
    {target : CleanPath}
    {moved : Entry}
    (here : before.At path.names entry)
    (isEntry : entry.id = id)
    (there : after.At target.names moved)
    (isMoved : moved.id = id) :
    after.sights = (before.sights.set path none).set target (some (after.sightOf moved)) := by
  funext other
  by_cases isTarget : other = target
  · subst isTarget
    rw [Sights.set_self, coherentAfter.sights_of_at there]
  have away (found : Entry) (lies : after.At other.names found) : found.id ≠ id := by
    rintro isFound
    exact isTarget (path_unique coherentAfter there lies (isFound.trans isMoved.symm))
  rw [Sights.set_of_ne isTarget]
  by_cases isPath : other = path
  · subst isPath
    rw [Sights.set_self]
    refine coherentAfter.sights_eq_none fun found lies => ?_
    have wasThere := same.symm.at_of_ne lies (away found lies)
    exact away found lies ((congrArg (·.id) (coherent.at_unique wasThere here)).trans isEntry)
  · rw [Sights.set_of_ne isPath]
    refine same.sights_eq coherent coherentAfter (fun found lies isFound => isPath ?_) away
    exact path_unique coherent here lies (isFound.trans isEntry.symm)

end SameBut

end Tables

end VersionStore
