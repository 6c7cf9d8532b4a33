import VersionStore.Proofs.Tree.Making

namespace VersionStore

/-!
# Directories for snapshots

A snapshot is put under the path of a directory, be the directory live or in the trash. Where a
live one has the path it is taken, and otherwise one in the trash, which is made when there is
none. Directories that are made for snapshots are in the trash from the start, and whatever is
added there is not seen in the tree.
-/

open Tables

namespace Tables

variable {before after : Tables} {path : CleanPath} {names : List Name} {entry : Entry} {id : Int}

/-! ## What is added to the trash -/

/-- Rows were added behind those that were there, all of them in the trash. -/
def TrashAdded (before after : Tables) : Prop :=
  ∃ made, after.entries = before.entries ++ made ∧ ∀ entry ∈ made, entry.isDeleted = true

namespace TrashAdded

/-- What is live was there before. -/
theorem mem_iff_of_live
    (added : TrashAdded before after)
    (live : entry.isDeleted = false) :
    entry ∈ after.entries ↔ entry ∈ before.entries := by
  obtain ⟨made, isAfter, areTrashed⟩ := added
  rw [isAfter, List.mem_append]
  refine or_iff_left fun member => ?_
  rw [areTrashed entry member] at live
  cases live

/-- The tree is what it was. -/
theorem at_iff
    (added : TrashAdded before after)
    (coherentAfter : after.Coherent) :
    after.At names entry ↔ before.At names entry := by
  constructor
  · intro here
    have live := coherentAfter.live_of_at here
    induction here with
    | top member isRoot =>
        exact .top ((added.mem_iff_of_live live).mp member) isRoot
    | child above member proper live held called inductionHypothesis =>
        exact .child (inductionHypothesis (coherentAfter.live_of_at above))
          ((added.mem_iff_of_live live).mp member) proper live held called
  · intro here
    refine here.mono fun other member => ?_
    obtain ⟨made, isAfter, -⟩ := added
    rw [isAfter]
    exact List.mem_append_left _ member

/-- What lies at a path is what was there. -/
theorem lookupAt?_eq
    (added : TrashAdded before after)
    (coherent : before.Coherent)
    (coherentAfter : after.Coherent)
    (path : CleanPath) :
    after.lookupAt? path = before.lookupAt? path := by
  ext entry
  rw [coherentAfter.lookupAt?_eq_some_iff, coherent.lookupAt?_eq_some_iff]
  exact added.at_iff coherentAfter

/-- Directories list what they listed. -/
theorem listing_eq
    (added : TrashAdded before after)
    (id : Int) :
    after.listing id = before.listing id := by
  obtain ⟨made, isAfter, areTrashed⟩ := added
  have none_ :
      (made.filter fun entry =>
        entry.directoryId == id && !entry.isDeleted && entry.id != rootId) = [] := by
    refine List.filter_eq_nil_iff.mpr fun entry member => ?_
    simp [areTrashed entry member]
  rw [listing, listing, liveIn, liveIn, isAfter, List.filter_append, none_, List.append_nil]

end TrashAdded

/-! ## Directories by their path -/

/-- A live directory is at a path. -/
def LiveDirectoryAt (tables : Tables) (path : CleanPath) (id : Int) : Prop :=
  ∃ holder, tables.lookupAt? path = some holder ∧ holder.isDirectory = true ∧ holder.id = id

/-- A directory is in the trash. -/
def TrashedDirectory (tables : Tables) (id : Int) : Prop :=
  ∃ holder ∈ tables.entries,
    holder.id = id ∧ holder.isDirectory = true ∧ holder.isDeleted = true

/-- The row of a live directory has its path. -/
theorem Coherent.row_of_liveDirectoryAt
    (coherent : before.Coherent)
    (here : before.LiveDirectoryAt path id) :
    ∃ row ∈ before.directories,
      row.id = id ∧ row.path = path.text ∧ before.isLiveDirectory row = true := by
  obtain ⟨holder, found, isDirectory, rfl⟩ := here
  have isHere := coherent.lookupAt?_eq_some_iff.mp found
  obtain ⟨row, member, owns, isPath⟩ := coherent.path_of_at isHere isDirectory
  refine ⟨row, member, owns, isPath, List.any_eq_true.mpr ⟨holder, isHere.member, ?_⟩⟩
  simp [owns, coherent.live_of_at isHere]

/-- A live directory is at the path of its row. -/
theorem Coherent.liveDirectoryAt_of_row
    (coherent : before.Coherent)
    {row : Directory}
    (member : row ∈ before.directories)
    (isPath : row.path = path.text)
    (isLive : before.isLiveDirectory row = true) :
    before.LiveDirectoryAt path row.id := by
  obtain ⟨entry, entryMember, holds⟩ := List.any_eq_true.mp isLive
  simp only [Bool.and_eq_true, beq_iff_eq, Bool.not_eq_true'] at holds
  obtain ⟨owns, live⟩ := holds
  obtain ⟨owner, ownerMember, isOwner, isDirectory⟩ := coherent.owned row member
  rw [coherent.entry_eq ownerMember entryMember (isOwner.trans owns.symm)] at isDirectory
  obtain ⟨names, here⟩ := coherent.exists_at entryMember live
  obtain ⟨other, otherMember, isOther, otherPath⟩ := coherent.path_of_at here isDirectory
  rw [coherent.row_eq otherMember member (isOther.trans owns), isPath] at otherPath
  rw [← CleanPath.joinNames_injective otherPath] at here
  exact ⟨entry, coherent.lookupAt?_eq_some_iff.mpr here, isDirectory, owns⟩

/-- By a path one finds the live directory there, and one in the trash where none is live. -/
theorem Coherent.directoryId?_cases
    (coherent : before.Coherent)
    (found : before.directoryId? path.text = some id) :
    before.LiveDirectoryAt path id ∨
      (∀ other, ¬before.LiveDirectoryAt path other) ∧ before.TrashedDirectory id := by
  unfold directoryId? at found
  dsimp only at found
  split at found
  case h_1 live isLast =>
    obtain ⟨member, isLive⟩ := List.mem_filter.mp (List.mem_of_getLast? isLast)
    obtain ⟨rowMember, isPath⟩ := List.mem_filter.mp member
    rw [← Option.some.inj found]
    exact .inl (coherent.liveDirectoryAt_of_row rowMember (beq_iff_eq.mp isPath) isLive)
  case h_2 noLive =>
    obtain ⟨row, isLast, rfl⟩ := Option.map_eq_some_iff.mp found
    have listed := List.mem_of_getLast? isLast
    have unlisted := List.filter_eq_nil_iff.mp (List.getLast?_eq_none_iff.mp noLive)
    obtain ⟨owner, member, isOwner, isDirectory⟩ :=
      coherent.owned row (List.mem_filter.mp listed).1
    refine .inr ⟨fun other here => ?_, owner, member, isOwner, isDirectory, ?_⟩
    · obtain ⟨liveRow, liveMember, -, isPath, isLive⟩ := coherent.row_of_liveDirectoryAt here
      exact unlisted liveRow (List.mem_filter.mpr ⟨liveMember, beq_iff_eq.mpr isPath⟩) isLive
    · refine Bool.eq_true_of_not_eq_false fun live => unlisted row listed ?_
      exact List.any_eq_true.mpr ⟨owner, member, by simp [isOwner, live]⟩

/-- A directory for a snapshot has the path of some names. It is the live one there if there is
one, and otherwise one in the trash. Nothing but directories in the trash was added for it. -/
structure Shelters (before : Tables) (path : CleanPath) (id : Int) (tables : Tables) : Prop where
  entries :
    ∃ made,
      tables.entries = before.entries ++ made ∧
        ∀ entry ∈ made,
          before.lastEntryId < entry.id ∧ entry.isDirectory = true ∧ entry.isDeleted = true
  row : ∃ row ∈ tables.directories, row.id = id ∧ row.path = path.text
  holder :
    before.LiveDirectoryAt path id ∨
      (∀ other, ¬before.LiveDirectoryAt path other) ∧ tables.TrashedDirectory id
  lastEntryId_le : before.lastEntryId ≤ tables.lastEntryId
  parts : tables.parts = before.parts
  targets : tables.targets = before.targets
  links : tables.links = before.links

/-- A directory that is found shelters. -/
theorem Coherent.shelters
    (coherent : before.Coherent)
    (found : before.directoryId? path.text = some id) :
    Shelters before path id before where
  entries := ⟨[], (List.append_nil _).symm, fun _ member => absurd member List.not_mem_nil⟩
  row := Txn.exists_of_directoryId? found
  holder := coherent.directoryId?_cases found
  lastEntryId_le := le_rfl
  parts := rfl
  targets := rfl
  links := rfl

/-- A directory that is made in the trash shelters where none was found. -/
theorem Shelters.added
    {above : CleanPath}
    {parent : Int}
    {tables : Tables}
    (shelters : Shelters before above parent tables)
    (coherent : before.Coherent)
    (missing : before.directoryId? path.text = none)
    (isDirectory : entry.isDirectory = true)
    (isDeleted : entry.isDeleted = true)
    (added : Added tables after entry path.text) :
    Shelters before path (tables.lastEntryId + 1) after where
  entries := by
    obtain ⟨made, isMade, areNew⟩ := shelters.entries
    have given := shelters.lastEntryId_le
    refine ⟨made ++ [{ entry with id := tables.lastEntryId + 1 }], ?_, fun other member => ?_⟩
    · rw [added.entries, isMade, List.append_assoc]
    · rcases List.mem_append.mp member with old | new
      · exact areNew other old
      · rw [List.mem_singleton.mp new]
        exact ⟨Int.lt_add_one_of_le given, isDirectory, isDeleted⟩
  row := ⟨_, added.mem_directories.mpr (.inr ⟨isDirectory, rfl⟩), rfl, rfl⟩
  holder := by
    refine .inr ⟨fun other here => ?_, _, added.mem_entries.mpr (.inr rfl), rfl, isDirectory,
      isDeleted⟩
    obtain ⟨row, member, -, isPath, -⟩ := coherent.row_of_liveDirectoryAt here
    exact Txn.directoryId?_ne_none member (isPath ▸ missing)
  lastEntryId_le := by
    have given := shelters.lastEntryId_le
    rw [added.lastEntryId]
    omega
  parts := added.parts.trans shelters.parts
  targets := added.targets.trans shelters.targets
  links := added.links.trans shelters.links

end Tables

namespace Txn

open VersionStore.Action

/-- A directory for a snapshot is found or made. The search for one ends at the root, which always
has a row. -/
theorem snapshotDirectory_shelters
    {setting : Setting}
    {strict : Prop}
    {known : List Entry}
    {before : Tables}
    (now : Int)
    (sound : before.Sound strict known)
    (names : List Name) :
    Works setting (· = before) (snapshotDirectory now names)
      (fun id tables => Shelters before ⟨names.reverse⟩ id tables ∧ tables.Sound strict known)
      fun _ _ => False := by
  suffices shelters :
      Works setting (· = before) (snapshotDirectory now names)
        (Shelters before ⟨names.reverse⟩) fun _ _ => True by
    refine (shelters.both (snapshotDirectory_works now names)).weaken ?_
      (fun _ _ ⟨shelters, sound, _⟩ => ⟨shelters, sound⟩) fun _ _ failed => failed.2
    rintro _ rfl
    exact ⟨rfl, sound⟩
  have coherent := sound.coherent
  induction names with
  | nil =>
      rw [snapshotDirectory]
      refine .bind (fun found tables => found = before.directoryId? "" ∧ tables = before)
        (.query ?_) fun found => ?_
      · rintro _ rfl
        exact ⟨rfl, rfl⟩
      cases found with
      | none =>
          exact .throw fun _ _ => trivial
      | some id =>
          refine .pure ?_
          rintro _ ⟨found, rfl⟩
          exact coherent.shelters found.symm
  | cons name above inductionHypothesis =>
      rw [snapshotDirectory]
      refine .bind
        (fun found tables =>
          found = before.directoryId? (CleanPath.joinNames (name :: above).reverse) ∧
            tables = before)
        (.query ?_) fun found => ?_
      · rintro _ rfl
        exact ⟨rfl, rfl⟩
      cases found with
      | some id =>
          refine .pure ?_
          rintro _ ⟨found, rfl⟩
          exact coherent.shelters found.symm
      | none =>
          refine .assuming _ (fun _ queried => queried.1) fun missing => ?_
          refine .bind _ ((inductionHypothesis.both (snapshotDirectory_works now above)).weaken
            (fun _ queried => ⟨queried.2, queried.2 ▸ sound⟩) (fun _ _ done => done)
              fun _ _ _ => trivial) fun parent => ?_
          refine .directory { freshEntry parent name.text true now with
              length := 0
              isDeleted := true
              lastDeleted := now
              checksum := none }
            (fun _ holds => holds.2.1.coherent) rfl ?_
          rintro tables after ⟨shelters, -⟩ added
          exact shelters.added coherent missing.symm rfl rfl added

end Txn

end VersionStore
