import VersionStore.Proofs.Content.Retiring

namespace VersionStore

/-!
# Files that take the place of others

A file that is written or copied to a path gets a row of its own behind all others, and parts and
links of its own. With what made way for it and the directories that lead to it this is all that
there is to a replacement: it is found at its path, what was there is in the trash or gone, and
every other path leads where it led.
-/

namespace Tables

variable
  {tables before room after : Tables}
  {strict : Prop}
  {known : List Entry}
  {history : Bool}
  {held : Int → Prop}
  {now : Int}
  {path : CleanPath}
  {row entry : Entry}

/-! ## A row of its own -/

/-- A file got a row behind all others, and nothing that belongs to others was touched. -/
structure Entered (room : Tables) (row : Entry) (after : Tables) : Prop where
  isNew : row.id = room.lastEntryId + 1
  entries : after.entries = room.entries ++ [row]
  directories : after.directories = room.directories
  untouched : ∀ id, id ≠ row.id → Untouched id room after
  targets : room.targets <+: after.targets

/-- Targets are only added. -/
theorem targets_setLinks
    (tables : Tables)
    (source : Int)
    (paths : List String) :
    tables.targets <+: (tables.setLinks source paths).targets := by
  have added (tables : Tables) :
      tables.targets <+:
        (paths.foldl (fun (linked : Tables) path => linked.addLink source path)
          tables).targets := by
    induction paths generalizing tables with
    | nil =>
        exact List.prefix_rfl
    | cons path rest inductionHypothesis =>
        refine List.IsPrefix.trans ?_ (inductionHypothesis (tables.addLink source path))
        change tables.targets <+: (tables.internTarget path).2.targets
        unfold internTarget
        split
        · exact List.prefix_rfl
        · exact List.prefix_append _ _
  exact added (tables.removeLinks source)

namespace Entered

/-- A row that is added is the last one. -/
theorem of_addEntry
    (room : Tables)
    (entry : Entry) :
    Entered room { entry with id := room.lastEntryId + 1 } (room.addEntry entry).2 where
  isNew := rfl
  entries := rfl
  directories := rfl
  untouched _ _ := ⟨rfl, rfl⟩
  targets := List.prefix_rfl

/-- Parts of the file are added. -/
theorem addPart
    (tables : Tables)
    (place : Int)
    (data : ByteArray)
    (entered : Entered room row tables) :
    Entered room row (tables.addPart row.id place data).2 where
  isNew := entered.isNew
  entries := entered.entries
  directories := entered.directories
  untouched id other := by
    let part : Part := ⟨tables.lastPartId + 1, row.id, place, data.size, data⟩
    have beside := beside_addPart tables row.id part rfl part.id
    exact (entered.untouched id other).trans ⟨beside.pieces id other, rfl⟩
  targets := entered.targets

/-- Copies of parts are added to the file. -/
theorem copyParts
    (entered : Entered room row after)
    (source : Int) :
    Entered room row (after.copyParts row.id source) := by
  have beside := beside_addCopies row.id (after.partsOf source) after
  obtain ⟨parts, lastPartId, copied⟩ := addCopies_eq row.id (after.partsOf source) after
  rw [Tables.copyParts]
  rw [copied] at beside ⊢
  exact ⟨entered.isNew, entered.entries, entered.directories,
    fun id other => (entered.untouched id other).trans ⟨beside.pieces id other, rfl⟩,
    entered.targets⟩

/-- What the content came to is recorded in the row. -/
theorem recordContent
    (entered : Entered room row after)
    (coherent : room.Coherent)
    (length modified : Int)
    (checksum : Option Checksum) :
    Entered room { row with length, lastModified := modified, checksum }
      (after.recordContent row.id length modified checksum) where
  isNew := entered.isNew
  entries := by
    unfold Tables.recordContent modifyEntry
    dsimp only
    rw [entered.entries, List.map_append, List.map_singleton, if_pos rfl]
    refine congrArg (· ++ _) ?_
    refine (List.map_congr_left fun other member => ?_).trans (List.map_id _)
    refine if_neg fun same => ?_
    exact coherent.id_ne_next member (same.trans entered.isNew)
  directories := entered.directories
  untouched id other := (entered.untouched id other).trans ⟨rfl, rfl⟩
  targets := entered.targets

/-- The file is linked. -/
theorem setLinks
    (entered : Entered room row after)
    (paths : List String) :
    Entered room row (after.setLinks row.id paths) where
  isNew := entered.isNew
  entries := by
    obtain ⟨targets, links, same⟩ := setLinks_eq row.id paths after
    rw [same]
    exact entered.entries
  directories := by
    obtain ⟨targets, links, same⟩ := setLinks_eq row.id paths after
    rw [same]
    exact entered.directories
  untouched id other := by
    refine (entered.untouched id other).trans ⟨?_, filter_links_setLinks after other paths⟩
    obtain ⟨targets, links, same⟩ := setLinks_eq row.id paths after
    rw [same]
    rfl
  targets := entered.targets.trans (targets_setLinks after row.id paths)

/-- The file has its row. -/
theorem member
    (entered : Entered room row after) :
    row ∈ after.entries := by
  rw [entered.entries]
  exact List.mem_append_right _ (List.mem_singleton_self row)

/-- Rows that were there are there. -/
theorem subset
    (entered : Entered room row after) :
    room.entries ⊆ after.entries := by
  rw [entered.entries]
  exact List.subset_append_left _ _

/-- A row is the new one or was there. -/
theorem mem_or_eq
    (entered : Entered room row after)
    (member : entry ∈ after.entries) :
    entry ∈ room.entries ∨ entry = row := by
  rw [entered.entries] at member
  exact (List.mem_append.mp member).imp_right List.mem_singleton.mp

/-- The row is told by its id. -/
theorem eq_row
    (entered : Entered room row after)
    (coherent : room.Coherent)
    (member : entry ∈ after.entries)
    (same : entry.id = row.id) :
    entry = row :=
  (entered.mem_or_eq member).resolve_left fun old =>
    coherent.id_ne_next old (same.trans entered.isNew)

/-- The row is found by its id. -/
theorem found
    (entered : Entered room row after)
    (coherent : room.Coherent) :
    after.entry? row.id = some row := by
  have none_ : room.entries.find? (·.id == row.id) = none :=
    List.find?_eq_none.mpr fun other member =>
      mt eq_of_beq (entered.isNew ▸ coherent.id_ne_next member)
  unfold entry?
  rw [entered.entries, List.find?_append, none_, Option.none_or, List.find?_singleton,
    if_pos (beq_self_eq_true _)]

/-- Only the new row makes a difference. -/
theorem sameBut
    (entered : Entered room row after)
    (coherent : room.Coherent)
    (held : row.directoryId ≤ room.lastEntryId) :
    SameBut row.id room after := by
  have beside : Beside (· = row.id) room after := by
    refine ⟨fun other different => ⟨fun member => ?_, fun old => entered.subset old⟩,
      fun id other => (entered.untouched id other).pieces⟩
    refine (entered.mem_or_eq member).resolve_right ?_
    rintro rfl
    exact different rfl
  have isNew := entered.isNew
  rw [isNew] at beside ⊢
  refine coherent.sameBut_added beside fun other member isNext => ?_
  rw [entered.eq_row coherent member (isNext.trans isNew.symm)]
  exact held

end Entered

/-! ## A replacement -/

/-- A file took the place of what was at a path: it is found there and by its id, directories lead
to it, what was there is retired, and every other path leads where it led. No other rows are there
than those that were, that of the file, those of directories that were made, and that of the
version that was retired. -/
structure Replaced (history : Bool) (held : Int → Prop) (now : Int) (before : Tables)
    (path : CleanPath) (row : Entry) (after : Tables) : Prop
    extends Retired history now before path after where
  proper : ¬path.isRoot = true
  free : ¬before.Occupied held path
  placed : after.lookupAt? path = some row
  found : after.entry? row.id = some row
  isNew : before.lastEntryId < row.id
  isFile : row.isDirectory = false
  writable : row.writable = true
  leads :
    ∀ names,
      names <+: path.dropLast.names →
      ∃ holder, after.lookupAt? ⟨names⟩ = some holder ∧ holder.isDirectory = true
  elsewhere :
    ∀ other,
      other ≠ path →
      after.lookupAt? other = before.lookupAt? other ∨
        other.names <+: path.dropLast.names ∧ before.MadeAt after other
  origin :
    ∀ entry ∈ after.entries,
      entry ∈ before.entries ∨ entry = row ∨
        before.lastEntryId < entry.id ∧ entry.isDirectory = true ∧ entry.isDeleted = false ∨
          history = true ∧ ∃ old, before.lookupAt? path = some old ∧ entry = old.trashed now
  targets : before.targets <+: after.targets

/-- A place is not occupied when what is there is a file that may be written to and that no one has
open. -/
theorem not_occupied_iff :
    ¬before.Occupied held path ↔
      ∀ old,
        before.lookupAt? path = some old →
        old.isDirectory = false ∧ old.writable = true ∧ ¬held old.id := by
  constructor
  · intro free old found
    refine ⟨Bool.eq_false_iff.mpr fun isDirectory => free ⟨old, found, .inl isDirectory⟩,
      Bool.eq_true_of_not_eq_false fun readOnly => free ⟨old, found, .inr (.inl readOnly)⟩,
      fun isHeld => free ⟨old, found, .inr (.inr isHeld)⟩⟩
  · rintro makesWay ⟨old, found, reason⟩
    obtain ⟨isFile, writable, free⟩ := makesWay old found
    rcases reason with isDirectory | readOnly | isHeld
    · exact Bool.false_ne_true (isFile.symm.trans isDirectory)
    · exact Bool.false_ne_true (readOnly.symm.trans writable)
    · exact free isHeld

/-- A file whose place is not occupied may be replaced. -/
theorem isFile_of_free
    (free : ¬before.Occupied held path)
    (found : before.lookupAt? path = some entry) :
    entry.isDirectory = false :=
  (not_occupied_iff.mp free entry found).1

end Tables

namespace Txn.Readied

open Tables

variable
  {setting : Setting}
  {strict : Prop}
  {known : List Entry}
  {now : Int}
  {before room after : Tables}
  {path : CleanPath}
  {directory : Int}
  {row : Entry}

/-- What was at a path made way for a new file. -/
theorem vacates
    (ready : Readied setting strict known now before path directory room)
    (sound : before.Sound strict known) :
    Vacates strict known setting.history now before path
      (before.vacated setting.history now path) :=
  vacates_vacated sound (fun _ found => isFile_of_free ready.free found) setting.history now

/-- A file that is entered in the directory of a path that is ready takes its place. -/
theorem replaced
    (ready : Readied setting strict known now before path directory room)
    (sound : before.Sound strict known)
    (entered : Entered room row after)
    (soundAfter : after.Sound strict known)
    (lies : row.directoryId = directory)
    (called : row.name = path.name)
    (live : row.isDeleted = false)
    (isFile : row.isDirectory = false)
    (writable : row.writable = true) :
    before.Replaced setting.history setting.held now path row after := by
  have vacates := ready.vacates sound
  have coherentRoom := ready.sound.coherent
  have coherentAfter := soundAfter.coherent
  obtain ⟨holder, here, isHolder, isDirectory⟩ := ready.here
  obtain ⟨made, isMade, areNew⟩ := ready.extended.entries
  have later : before.lastEntryId ≤ room.lastEntryId :=
    vacates.lastEntryId ▸ ready.lastEntryId_le
  have isNew : before.lastEntryId < row.id := by
    rw [entered.isNew]
    omega
  have same : SameBut row.id room after := by
    refine entered.sameBut coherentRoom ?_
    rw [lies, ← isHolder]
    exact coherentRoom.id_le holder here.member
  have placed : after.At path.names row := by
    obtain ⟨names, name, whole, above, isName⟩ := exists_names_of_not_isRoot ready.proper
    rw [whole, ← above]
    exact .child (here.mono entered.subset) entered.member same.proper live
      (lies.trans isHolder.symm) (called.trans isName)
  have subset : (before.vacated setting.history now path).entries ⊆ after.entries :=
    fun _ member => entered.subset (ready.subset member)
  refine ⟨vacates.toRetired.followed sound.coherent subset ?newer ?untouched, ready.proper,
    ready.free, coherentAfter.lookupAt?_eq_some_iff.mpr placed,
    coherentAfter.entry?_eq_some_iff.mpr ⟨entered.member, rfl⟩, isNew, isFile, writable, ?leads,
    ?elsewhere, ?origin, ?targets⟩
  case newer =>
    intro entry member
    rcases entered.mem_or_eq member with old | rfl
    · rw [isMade] at old
      refine (List.mem_append.mp old).imp_right fun new => ?_
      exact vacates.lastEntryId ▸ (areNew entry new).1
    · exact .inr isNew
  case untouched =>
    intro id given
    have other : id ≠ row.id := by
      rintro rfl
      omega
    have kept : Untouched id (before.vacated setting.history now path) room :=
      ⟨by unfold pieces; rw [ready.extended.parts], by rw [ready.extended.links]⟩
    exact kept.trans (entered.untouched id other)
  case leads =>
    rintro names ⟨rest, isRest⟩
    rw [← isRest] at here
    obtain ⟨upper, there⟩ := here.of_append
    refine ⟨upper, coherentAfter.lookupAt?_eq_some_iff.mpr (there.mono entered.subset), ?_⟩
    exact isDirectory_along coherentRoom (List.prefix_append _ _) there here isDirectory
  case elsewhere =>
    intro other elsewhere
    have seen : after.lookupAt? other = room.lookupAt? other := by
      refine same.lookupAt?_eq coherentRoom coherentAfter (fun entry there isRow => ?_)
        fun entry there isRow => ?_
      · exact coherentRoom.id_ne_next there.member (isRow.trans entered.isNew)
      · exact elsewhere (SameBut.path_unique coherentAfter placed there isRow)
    have wasThere := vacates.elsewhere other elsewhere
    rcases ready.extended.lookupAt?_eq_or vacates.sound.coherent coherentRoom other with
      stays | ⟨along, missing, new, found, newIsDirectory, newer⟩
    · exact .inl (seen.trans (stays.trans wasThere))
    · exact .inr ⟨along, wasThere.symm.trans missing, new, seen.trans found, newIsDirectory,
        vacates.lastEntryId ▸ newer⟩
  case origin =>
    intro entry member
    rcases entered.mem_or_eq member with old | isRow
    · rw [isMade] at old
      rcases List.mem_append.mp old with wasThere | new
      · rcases vacates.origin entry wasThere with isOld | isTrash
        · exact .inl isOld
        · exact .inr (.inr (.inr isTrash))
      · obtain ⟨newer, newIsDirectory, newIsLive, -⟩ := areNew entry new
        exact .inr (.inr (.inl ⟨vacates.lastEntryId ▸ newer, newIsDirectory, newIsLive⟩))
    · exact .inr (.inl isRow)
  case targets =>
    rw [← vacates.targets, ← ready.extended.targets]
    exact entered.targets

end Txn.Readied

end VersionStore
