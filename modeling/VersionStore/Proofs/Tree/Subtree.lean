import VersionStore.Proofs.Content.Enduring
import VersionStore.Proofs.Tree.Relocated

namespace VersionStore

/-!
# Moving a directory

A directory that is moved takes its whole subtree along, what is in the trash included. The
paths below it are rewritten one after the other, and this comes to an end. No other entry, no
content and no link changes, but the directories that are missing on the way to the new place
are made. A move that is not possible changes nothing.
-/

open Tables

/-! ## Subtrees -/

namespace Tables

/-- A directory was moved from one path to another with everything below it. -/
structure SubtreeMoved
    (before after : Tables)
    (source target : CleanPath)
    (entry moved : Entry)
    (time : Int) :
    Prop where
  /-- The directory itself has another place and time, and is what it was otherwise. -/
  placed :
    ∃ holder,
      after.lookupAt? target.dropLast = some holder ∧
        moved = entry.placed holder.id target.name time
  arrived : after.lookupAt? target = some moved
  /-- Behind the new path is found what was found behind the old one. -/
  followed :
    ∀ rest,
      rest ≠ [] →
      after.lookupAt? ⟨target.names ++ rest⟩ = before.lookupAt? ⟨source.names ++ rest⟩
  /-- Nothing is found at or behind the old path. -/
  left : ∀ rest, after.lookupAt? ⟨source.names ++ rest⟩ = none
  /-- Elsewhere is found what was found there, but on the way to the new path directories are
  made where they are missing. -/
  elsewhere :
    ∀ path : CleanPath,
      ¬source.names <+: path.names →
      ¬target.names <+: path.names →
      after.lookupAt? path = before.lookupAt? path ∨
        path.names <+: target.dropLast.names ∧ before.MadeAt after path
  /-- The rows of the directories below have the paths that follow, in the trash or not. -/
  rows :
    ∀ row ∈ before.directories,
      before.Below entry.id row.id →
      ∃ rest,
        row.path = CleanPath.joinNames (source.names ++ rest) ∧
          ⟨row.id, CleanPath.joinNames (target.names ++ rest)⟩ ∈ after.directories
  /-- All other rows stay. -/
  otherRows :
    ∀ row ∈ before.directories, ¬before.Below entry.id row.id → row ∈ after.directories
  /-- There are no other rows but of directories that were made. -/
  newRows :
    ∀ row ∈ after.directories,
      before.lastEntryId < row.id ∨ ∃ old ∈ before.directories, old.id = row.id
  /-- Versions in the trash of a directory below are listed behind the new path. -/
  listed :
    ∀ version ∈ before.entries,
      isTrashedFile version = true →
      before.Below entry.id version.directoryId →
      ∃ rest,
        before.Lists (CleanPath.joinNames (source.names ++ rest)) version ∧
          after.Lists (CleanPath.joinNames (target.names ++ rest)) version
  /-- Nothing comes to the trash, and what is there stays as it is. -/
  trash : after.entries.filter (·.isDeleted) = before.entries.filter (·.isDeleted)
  parts : after.parts = before.parts
  targets : after.targets = before.targets
  links : after.links = before.links
  /-- The rewriting of the paths began with the rows as they were, and it came to its end. -/
  rewritten :
    ∃ made,
      (∀ row ∈ made, before.lastEntryId < row.id) ∧
        Txn.Rewrites [(entry.id, target.text)]
          { after with directories := before.directories ++ made } after

/-- An entry cannot be moved: it is missing or the top one, or its new path is that of the whole
store, or leads to an entry, or does not leave the old one. -/
def Unmovable (tables : Tables) (source target : CleanPath) : Prop :=
  tables.lookupAt? source = none ∨ source.isRoot = true ∨ target.isRoot = true ∨
    tables.lookupAt? target ≠ none ∨ source.names <+: target.names

variable
  {before tables after : Tables}
  {entry holder : Entry}
  {source target : CleanPath}
  {name : Name}
  {time : Int}

/-- What is in the trash stays as it is when a live entry is moved into live directories that were
made for it. -/
theorem Relocated.filter_trash
    {around names : List Name}
    (relocated : Relocated tables after entry holder source.names around name time)
    (extended : before.Extended names tables) :
    after.entries.filter (·.isDeleted) = before.entries.filter (·.isDeleted) := by
  obtain ⟨made, isMade, areNew⟩ := extended.entries
  have noneMade : made.filter (·.isDeleted) = [] := by
    refine List.filter_eq_nil_iff.mpr fun other member => ?_
    simp [(areNew other member).2.2.1]
  have sameKind (other : Entry) :
      (if other.id = entry.id then other.placed holder.id name.text time else other).isDeleted =
        other.isDeleted := by
    split <;> rfl
  have moved :
      after.entries =
        tables.entries.map fun other =>
          if other.id = entry.id then other.placed holder.id name.text time else other :=
    relocated.entries
  rw [moved, List.filter_map, Function.comp_def]
  simp only [sameKind]
  have unmoved :
      (tables.entries.filter (·.isDeleted)).map (fun other =>
          if other.id = entry.id then other.placed holder.id name.text time else other) =
        tables.entries.filter (·.isDeleted) := by
    refine (List.map_congr_left fun other member => ?_).trans (List.map_id _)
    obtain ⟨inTable, deleted⟩ := List.mem_filter.mp member
    refine if_neg fun same => ?_
    rw [relocated.coherent.entry_eq inTable relocated.movable.member same,
      relocated.movable.live] at deleted
    exact Bool.false_ne_true deleted
  rw [unmoved, isMade, List.filter_append, noneMade, List.append_nil]

/-- Moving an entry leaves what is not below it apart from it. -/
theorem below_of_moveEntry
    (coherent : tables.Coherent)
    (member : entry ∈ tables.entries)
    {directoryId id : Int}
    {text : String}
    (below : (tables.moveEntry entry.id directoryId text time).Below entry.id id) :
    tables.Below entry.id id := by
  induction below with
  | self =>
      exact .self
  | @step other otherMember proper _ inductionHypothesis =>
      rcases (mem_entries_moveEntry coherent member).mp otherMember with ⟨old, -⟩ | rfl
      · exact .step old proper inductionHypothesis
      · exact .self

/-- A version in the trash of a directory below one that was moved is listed behind the old path,
and then behind the new one, when the rows of these directories follow. -/
theorem Relocated.listed
    {around names : List Name}
    (relocated : Relocated tables after entry holder source.names around name time)
    (extended : before.Extended names tables)
    (isCoherent : before.Coherent)
    (here : before.At source.names entry)
    (rowed : tables.Rowed)
    (followed :
      ∀ row ∈ before.directories,
        before.Below entry.id row.id →
        ∃ rest,
          row.path = CleanPath.joinNames (source.names ++ rest) ∧
            ⟨row.id, CleanPath.joinNames (target.names ++ rest)⟩ ∈ after.directories)
    {version : Entry}
    (member : version ∈ before.entries)
    (trashed : isTrashedFile version = true)
    (below : before.Below entry.id version.directoryId) :
    ∃ rest,
      before.Lists (CleanPath.joinNames (source.names ++ rest)) version ∧
        after.Lists (CleanPath.joinNames (target.names ++ rest)) version := by
  obtain ⟨made, isMade, -⟩ := extended.entries
  have grown {other : Entry} (wasThere : other ∈ before.entries) : other ∈ tables.entries :=
    isMade ▸ List.mem_append_left _ wasThere
  have deleted : version.isDeleted = true := by
    simp only [isTrashedFile, Bool.and_eq_true] at trashed
    exact trashed.1
  have different : version.id ≠ entry.id := by
    intro same
    rw [isCoherent.entry_eq member here.member same, isCoherent.live_of_at here] at deleted
    exact Bool.false_ne_true deleted
  obtain ⟨above, aboveMember, isAbove⟩ := below.exists_entry here.member
  obtain ⟨row, rowMember, owns⟩ := rowed version (grown member) above (grown aboveMember) isAbove
  have wasRow : row ∈ before.directories :=
    extended.mem_directories_of_le rowMember (owns ▸ isCoherent.id_le above aboveMember)
  have holds := owns.trans isAbove
  obtain ⟨rest, isPath, newRow⟩ := followed row wasRow (holds ▸ below)
  refine ⟨rest, ?_, ?_⟩
  · rw [← isPath]
    exact isCoherent.lists member trashed wasRow holds
  · exact relocated.isCoherent.lists
      (relocated.mem_entries.mpr (.inl ⟨grown member, different⟩)) trashed newRow holds

/-- A directory was moved with everything below it to where the directories were made that lead
there. -/
theorem Relocated.subtreeMoved
    (relocated : Relocated tables after entry holder source.names target.dropLast.names name time)
    (whole : target.names = target.dropLast.names ++ [name])
    (isName : target.name = name.text)
    (extended : before.Extended target.dropLast.names tables)
    (isCoherent : before.Coherent)
    (found : before.lookupAt? source = some entry)
    (isDirectory : entry.isDirectory = true)
    (rowed : tables.Rowed)
    (renamed :
      after =
        Txn.renameTree (tables.moveEntry entry.id holder.id name.text time) entry.id target.text) :
    before.SubtreeMoved after source target entry (entry.placed holder.id target.name time)
      time := by
  have coherent := relocated.coherent
  have isText : target.text = CleanPath.joinNames (target.dropLast.names ++ [name]) :=
    congrArg CleanPath.joinNames whole
  have pending := relocated.movable.pending coherent isDirectory time
  rw [← isText] at pending
  have rewrites := pending.rewrites_renameTree
  rw [← renamed] at rewrites
  obtain ⟨directories, isRenamed, rowIds⟩ :
      ∃ directories,
        after = { tables.moveEntry entry.id holder.id name.text time with directories } ∧
          directories.map (·.id) = tables.directories.map (·.id) := by
    rw [renamed]
    exact Txn.rewritePaths_eq _ _ _
  have sameIds : after.directories.map (·.id) = tables.directories.map (·.id) := by
    rw [isRenamed]
    exact rowIds
  obtain ⟨made, isMade, -⟩ := extended.entries
  obtain ⟨rows, isRows, areNewRows⟩ := extended.directories
  have kept {row : Directory} (member : row ∈ before.directories) : row ∈ tables.directories :=
    isRows ▸ List.mem_append_left _ member
  have subset : before.entries ⊆ tables.entries :=
    fun _ member => isMade ▸ List.mem_append_left _ member
  have row_followed {row : Directory} (member : row ∈ before.directories)
      (below : before.Below entry.id row.id) :
      ∃ rest,
        row.path = CleanPath.joinNames (source.names ++ rest) ∧
          ⟨row.id, CleanPath.joinNames (target.names ++ rest)⟩ ∈ after.directories := by
    rw [whole]
    exact relocated.exists_row rowed isDirectory sameIds (kept member) (below.mono subset)
  constructor
  case placed =>
    refine ⟨holder, ?_, rfl⟩
    exact relocated.isCoherent.lookupAt?_eq_some_iff.mpr
      (relocated.stays relocated.room relocated.not_prefix)
  case arrived =>
    refine relocated.isCoherent.lookupAt?_eq_some_iff.mpr ?_
    rw [whole, isName]
    exact relocated.arrives
  case followed =>
    intro rest some_
    rw [whole, relocated.lookupAt?_followed some_]
    rcases extended.lookupAt?_eq_or isCoherent coherent ⟨source.names ++ rest⟩ with
      same | ⟨along, -⟩
    · exact same
    · exact (relocated.not_prefix ((List.prefix_append _ _).trans along)).elim
  case left =>
    exact relocated.lookupAt?_left
  case elsewhere =>
    intro path notSource notTarget
    rw [whole] at notTarget
    have same := relocated.lookupAt?_elsewhere notSource notTarget
    rcases extended.lookupAt?_eq_or isCoherent coherent path with was | ⟨along, nothing, isNew⟩
    · exact .inl (same.trans was)
    · rw [← same] at isNew
      exact .inr ⟨along, nothing, isNew⟩
  case rows =>
    exact fun row member => row_followed member
  case otherRows =>
    intro row member apart
    refine rewrites.keeps pending (kept member) fun pair due below => apart ?_
    rw [List.mem_singleton.mp due] at below
    exact extended.below_of_le isCoherent
      (below_of_moveEntry coherent relocated.movable.member below) (isCoherent.rowId_le member)
  case newRows =>
    intro row member
    have listed : row.id ∈ tables.directories.map (·.id) := by
      rw [← sameIds]
      exact List.mem_map_of_mem member
    obtain ⟨old, oldMember, same⟩ := List.mem_map.mp listed
    rw [isRows] at oldMember
    rcases List.mem_append.mp oldMember with was | new
    · exact .inr ⟨old, was, same⟩
    · exact .inl (same ▸ areNewRows old new)
  case listed =>
    intro version member trashed below
    exact relocated.listed extended isCoherent (isCoherent.lookupAt?_eq_some_iff.mp found) rowed
      (fun _ rowMember => row_followed rowMember) member trashed below
  case trash =>
    exact relocated.filter_trash extended
  case parts =>
    rw [isRenamed]
    exact extended.parts
  case targets =>
    rw [isRenamed]
    exact extended.targets
  case links =>
    rw [isRenamed]
    exact extended.links
  case rewritten =>
    refine ⟨rows, areNewRows, ?_⟩
    have start :
        ({ after with directories := before.directories ++ rows } : Tables) =
          tables.moveEntry entry.id holder.id name.text time := by
      rw [isRenamed, ← isRows]
      rfl
    rw [start]
    exact rewrites

end Tables

namespace Txn

open VersionStore.Action

variable
  {setting : Setting}
  {strict : Prop}
  {known : List Entry}

/-- An entry that could be moved was moved, a directory with its subtree. -/
def Relocates
    (before : Tables)
    (targetText sourceText : String)
    (time : Int)
    (moved : Entry)
    (after : Tables) :
    Prop :=
  ∃ source target entry,
    CleanPath.ofText sourceText = .ok source ∧ CleanPath.ofText targetText = .ok target ∧
      before.lookupAt? source = some entry ∧ ¬before.Unmovable source target ∧
        (entry.isDirectory = true → before.SubtreeMoved after source target entry moved time)

/-- An entry is moved to where room was made for it. -/
theorem Reached.relocates
    {before tables : Tables}
    {source target : CleanPath}
    {entry : Entry}
    {parent : Int}
    (sound : before.Sound strict known)
    (reached : Reached strict known before target.dropLast.names parent tables)
    (vacant : tables.Vacant parent target.name)
    (found : before.lookupAt? source = some entry)
    (missing : before.lookupAt? target = none)
    (sourceProper : ¬source.isRoot = true)
    (targetProper : ¬target.isRoot = true)
    (apart : ¬(entry.isDirectory && isBelow target source) = true)
    (time : Int)
    {after : Tables}
    (isAfter :
      after =
        if entry.isDirectory then
          renameTree (tables.moveEntry entry.id parent target.name time) entry.id target.text
        else tables.moveEntry entry.id parent target.name time) :
    ∃ moved,
      after.entry? entry.id = some moved ∧ ¬before.Unmovable source target ∧
        (entry.isDirectory = true → before.SubtreeMoved after source target entry moved time) := by
  have isCoherent := sound.coherent
  have coherent := reached.sound.coherent
  obtain ⟨names, name, whole, directory, isName⟩ := exists_names_of_not_isRoot targetProper
  rw [isName] at vacant
  obtain ⟨holder, rfl, movable⟩ :=
    movable_of_reached isCoherent reached vacant (directory ▸ whole) sourceProper found apart
  have afterSound := reached.sound.moveEntry movable time
  rw [← isName, ← isAfter] at afterSound
  obtain ⟨other, isOther, same, -⟩ := reached.here
  rw [coherent.entry_eq isOther.member movable.target.member same] at isOther
  have isText : target.text = CleanPath.joinNames (target.dropLast.names ++ [name]) := by
    rw [directory, ← whole]
    rfl
  have relocated :
      Relocated tables after entry holder source.names target.dropLast.names name time := by
    refine ⟨coherent, isText ▸ movable, ?_, isOther, ?_, afterSound.coherent⟩
    · exact (isCoherent.lookupAt?_eq_some_iff.mp found).mono reached.subset
    · rw [isAfter, isName]
      split
      · exact entries_renameTree _ _ _
      · rfl
  refine ⟨entry.placed holder.id target.name time, ?_, ?_, fun isDirectory => ?_⟩
  · refine afterSound.coherent.entry?_eq_some_iff.mpr ⟨relocated.mem_entries.mpr (.inr ?_), rfl⟩
    rw [isName]
  · rintro (nothing | isRoot | isRoot | taken | along)
    · rw [found] at nothing
      cases nothing
    · exact sourceProper isRoot
    · exact targetProper isRoot
    · exact taken missing
    · rw [whole, ← directory] at along
      exact relocated.apart along
  · refine relocated.subtreeMoved (directory ▸ whole) isName reached.extended isCoherent found
      isDirectory reached.sound.rowed ?_
    rw [isAfter, if_pos isDirectory, isName]

/-- Moving an entry moves it, or it changes nothing. -/
theorem moveTo_relocates
    (now : Int)
    (targetText sourceText : String)
    (time? : Option Int)
    {before : Tables}
    (sound : before.Sound strict known) :
    Works setting (· = before) (moveTo now targetText sourceText time?)
      (Relocates before targetText sourceText (time?.getD now))
      fun _ tables => tables = before := by
  refine .bind (fun target tables => CleanPath.ofText targetText = .ok target ∧ tables = before)
    (.clean (fun _ isTarget _ same => ⟨isTarget, same⟩) fun _ _ same => same) fun target => ?_
  refine .assuming (CleanPath.ofText targetText = .ok target) (fun _ holds => holds.1)
    fun isTarget => ?_
  refine .bind (fun source tables => CleanPath.ofText sourceText = .ok source ∧ tables = before)
    (.clean (fun _ isSource _ holds => ⟨isSource, holds.2⟩) fun _ _ holds => holds.2)
    fun source => ?_
  refine .assuming (CleanPath.ofText sourceText = .ok source) (fun _ holds => holds.1)
    fun isSource => ?_
  refine .bind
    (fun entry tables => tables = before ∧ before.lookupAt? source = some entry)
    (.bind (fun found tables => tables = before ∧ found = before.lookupAt? source) (.entryAt? ?_)
      fun found => .require ?_ ?_) fun entry => ?_
  · rintro _ ⟨-, rfl⟩
    exact ⟨rfl, rfl⟩
  · rintro entry isFound _ ⟨same, rfl⟩
    exact ⟨same, isFound⟩
  · exact fun _ _ holds => holds.1
  refine .bind
    (fun taken tables =>
      (tables = before ∧ before.lookupAt? source = some entry) ∧
        taken = before.lookupAt? target)
    (.entryAt? ?_) fun taken => ?_
  · rintro _ ⟨rfl, found⟩
    exact ⟨⟨rfl, found⟩, rfl⟩
  simp only [throw_bind]
  refine .ite (fun _ => .throw fun _ holds => holds.1.1) fun open_ => ?_
  refine .ite (fun _ => .throw fun _ holds => holds.1.1) fun apart =>
    .locked (fun _ => ?_) fun _ holds => holds.1.1
  simp only [Bool.or_eq_true, not_or, Option.isSome_iff_ne_none, ne_eq, not_not] at open_
  obtain ⟨⟨sourceProper, targetProper⟩, missing⟩ := open_
  refine .assuming (before.lookupAt? source = some entry ∧ before.lookupAt? target = none)
    (fun _ holds => ⟨holds.1.2, holds.2 ▸ missing⟩) fun found => ?_
  refine .bind _ ((makeRoom_works now targetProper sound found.2).asking
    fun _ holds => holds.1.1) fun parent => ?_
  refine .bind
    (fun _ after =>
      ∃ moved,
        after.entry? entry.id = some moved ∧ ¬before.Unmovable source target ∧
          (entry.isDirectory = true →
            before.SubtreeMoved after source target entry moved (time?.getD now)))
    (.update fun tables ⟨reached, vacant⟩ => ?_) fun _ => ?_
  · exact reached.relocates sound vacant found.1 found.2 sourceProper targetProper apart
      (time?.getD now) rfl
  · refine .bind
      (fun row after =>
        ∃ moved,
          row = some moved ∧ ¬before.Unmovable source target ∧
            (entry.isDirectory = true →
              before.SubtreeMoved after source target entry moved (time?.getD now)))
      (.query fun after ⟨moved, isRow, rest⟩ => ⟨moved, isRow, rest⟩) fun row => ?_
    refine .require (fun moved isRow after ⟨row, same, movable, isMoved⟩ => ?_)
      fun isRow after ⟨row, same, _⟩ => ?_
    · rw [isRow] at same
      cases same
      exact ⟨source, target, entry, isSource, isTarget, found.1, movable, isMoved⟩
    · rw [isRow] at same
      cases same

end Txn

end VersionStore
