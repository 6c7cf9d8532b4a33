import VersionStore.Proofs.Tree.Versions

namespace VersionStore

/-!
# Directories with trash

A listing of directories shows each as its own entry, below the path of the directory that holds
it, while a search shows files with the path of their directory's row. Both come to the same path
because the path of a row follows from the one above it, for directories in the trash too.
-/

open Tables

namespace Tables

variable {tables : Tables} {root path : String} {info : TrashEntry}

/-- A directory of this path, in the trash or not, holds a trashed file. -/
def HoldsVersions (tables : Tables) (path : String) : Prop :=
  ∃ directory ∈ tables.entries,
    directory.isDirectory = true ∧
      tables.directoryPath? directory.id = some path ∧
        ∃ file ∈ tables.entries, isTrashedFile file = true ∧ file.directoryId = directory.id

/-- Where a version is listed a directory holds it. -/
theorem Coherent.holdsVersions_iff
    (coherent : tables.Coherent) :
    tables.HoldsVersions path ↔ ∃ info, tables.IsVersion info ∧ info.directory = path := by
  constructor
  · rintro ⟨directory, -, -, isPath, file, member, isTrashed, held⟩
    exact ⟨⟨path, file⟩, ⟨member, isTrashed, held ▸ isPath⟩, rfl⟩
  · rintro ⟨info, ⟨member, isTrashed, isPath⟩, rfl⟩
    obtain ⟨row, found, -⟩ := Option.map_eq_some_iff.mp isPath
    obtain ⟨rowMember, owns⟩ := coherent.directory?_eq_some_iff.mp found
    obtain ⟨directory, directoryMember, same, isDirectory⟩ := coherent.owned row rowMember
    have holds := same.trans owns
    exact ⟨directory, directoryMember, isDirectory, holds ▸ isPath, info.entry, member, isTrashed,
      holds.symm⟩

/-- A directory lies below the path of the one that holds it, and the top one at the empty path. -/
theorem Coherent.path_eq_join
    (coherent : tables.Coherent)
    {directory : Entry}
    (member : directory ∈ tables.entries)
    {above : String}
    (isPath : tables.directoryPath? directory.id = some path)
    (isAbove : tables.directoryPath? directory.directoryId = some above) :
    path = Path.join above directory.name := by
  obtain ⟨row, found, rfl⟩ := Option.map_eq_some_iff.mp isPath
  obtain ⟨higher, foundHigher, rfl⟩ := Option.map_eq_some_iff.mp isAbove
  obtain ⟨rowMember, owns⟩ := coherent.directory?_eq_some_iff.mp found
  obtain ⟨higherMember, holds⟩ := coherent.directory?_eq_some_iff.mp foundHigher
  by_cases isRoot : directory.id = rootId
  · have isTop := coherent.isTop member isRoot
    have isTopRow := coherent.row_eq rowMember coherent.topRow (owns.trans isRoot)
    have isHigher := coherent.row_eq higherMember coherent.topRow (holds.trans isTop.directoryId)
    rw [isTopRow, isHigher, isTop.name]
    rfl
  · exact coherent.paths directory member isRoot row rowMember owns higher higherMember holds

/-- A directory is listed as its own entry, with the path of the one that holds it. -/
theorem mem_trashDirectories_iff :
    info ∈ tables.trashDirectories root (-1) ↔
      info.entry ∈ tables.entries ∧ info.entry.isDirectory = true ∧
        (∃ file ∈ tables.entries,
            isTrashedFile file = true ∧ file.directoryId = info.entry.id) ∧
          isPlacedUnder root (tables.directoryPath? info.entry.id) = true ∧
            tables.directoryPath? info.entry.directoryId = some info.directory := by
  simp only [trashDirectories, mem_trashListing_iff, List.mem_map, List.mem_filter, place,
    Placed.mk.injEq, Bool.and_eq_true, holdsTrash, List.any_eq_true, beq_iff_eq]
  constructor
  · rintro ⟨directory, ⟨member, ⟨isDirectory, holds⟩, under⟩, isAbove, rfl⟩
    exact ⟨member, isDirectory, holds, under, isAbove⟩
  · rintro ⟨member, isDirectory, holds, under, isAbove⟩
    exact ⟨info.entry, ⟨member, ⟨isDirectory, holds⟩, under⟩, isAbove, rfl⟩

/-- Where every entry lies in a directory with a row, the directories that are listed are those
under the root that hold trashed files. -/
theorem Coherent.exists_mem_trashDirectories_iff
    (coherent : tables.Coherent)
    (integral : tables.Integral) :
    (∃ info ∈ tables.trashDirectories root (-1), info.path = path) ↔
      isUnder root path = true ∧ tables.HoldsVersions path := by
  constructor
  · rintro ⟨info, listed, rfl⟩
    obtain ⟨member, isDirectory, ⟨file, isFile, isTrashed, held⟩, under, isAbove⟩ :=
      mem_trashDirectories_iff.mp listed
    obtain ⟨row, rowMember, owns⟩ := integral file isFile
    have isPath : tables.directoryPath? info.entry.id = some row.path := by
      rw [← owns.trans held, coherent.directoryPath?_eq_some rowMember]
    have follows : row.path = info.path :=
      coherent.path_eq_join member isPath isAbove
    rw [isPath] at under
    rw [← follows]
    exact ⟨under, info.entry, member, isDirectory, isPath, file, isFile, isTrashed, held⟩
  · rintro ⟨under, directory, member, isDirectory, isPath, holds⟩
    obtain ⟨above, aboveMember, owns⟩ := integral directory member
    have isAbove : tables.directoryPath? directory.directoryId = some above.path := by
      rw [← owns, coherent.directoryPath?_eq_some aboveMember]
    have isUnder : isPlacedUnder root (tables.directoryPath? directory.id) = true := by
      rw [isPath]
      exact under
    exact ⟨⟨above.path, directory⟩,
      mem_trashDirectories_iff.mpr ⟨member, isDirectory, holds, isUnder, isAbove⟩,
      (coherent.path_eq_join member isPath isAbove).symm⟩

end Tables

namespace Txn

variable {tables : Tables} {root path : String}

/-- A listing of directories shows those under the root that hold trashed files. -/
theorem mem_history_directories_iff
    (coherent : tables.Coherent)
    (integral : tables.Integral) :
    path ∈ (history tables root root "" true (-1)).map (·.path) ↔
      isUnder root path = true ∧ tables.HoldsVersions path := by
  rw [history, if_neg (by decide), if_pos (by simp), limit_of_neg (by decide),
    ← coherent.exists_mem_trashDirectories_iff integral, List.mem_map]
  constructor
  · rintro ⟨info, member, isPath⟩
    exact ⟨info, (firstOfEach_sublist [] _).subset member, isPath⟩
  · rintro ⟨info, member, rfl⟩
    exact exists_mem_firstOfEach member List.not_mem_nil

/-- A search for everything below a root finds something in the directories under the root that
hold trashed files. -/
theorem exists_mem_searchHistory_iff
    (coherent : tables.Coherent) :
    (∃ info ∈ searchHistory tables root root "" (-1) fun _ _ => true, info.directory = path) ↔
      isUnder root path = true ∧ tables.HoldsVersions path := by
  rw [searchHistory, if_neg (by decide), if_pos (by simp), limit_of_neg (by decide),
    Selector.filter_pure, List.filter_true, coherent.holdsVersions_iff]
  constructor
  · rintro ⟨info, member, rfl⟩
    obtain ⟨isVersion, under⟩ :=
      mem_trashUnder_iff.mp ((firstOfEach_sublist [] _).subset member)
    exact ⟨under, info, isVersion, rfl⟩
  · rintro ⟨under, info, isVersion, rfl⟩
    obtain ⟨shown, isShown, samePath⟩ :=
      exists_mem_firstOfEach (mem_trashUnder_iff.mpr ⟨isVersion, under⟩) List.not_mem_nil
    have isShownVersion :=
      (mem_trashUnder_iff.mp ((firstOfEach_sublist [] _).subset isShown)).1
    exact ⟨shown, isShown, (coherent.eq_of_path_eq isShownVersion isVersion samePath).1⟩

/-- A directory that holds trashed files has a history. -/
theorem history_ne_nil
    (coherent : tables.Coherent)
    (holds : tables.HoldsVersions path)
    (root : String) :
    history tables root path "" false (-1) ≠ [] := by
  obtain ⟨info, isVersion, isDirectory⟩ := coherent.holdsVersions_iff.mp holds
  rw [history, if_neg (by decide), if_neg (by simp), limit_of_neg (by decide)]
  obtain ⟨shown, isShown, -⟩ :=
    exists_mem_firstOfEach (coherent.mem_trashIn_iff.mpr ⟨isVersion, isDirectory⟩)
      List.not_mem_nil
  exact List.ne_nil_of_mem isShown

/-! ## What listings show -/

variable {directory name : String} {count : Int} {info : TrashEntry}

/-- A history shows versions of a file, versions in a directory, or directories below the root. -/
theorem listed_of_mem_history
    {directories : Bool}
    (listed : info ∈ history tables root directory name directories count) :
    (name ≠ "" ∧ info ∈ tables.versionsOf directory name (-1)) ∨
      (name = "" ∧
        (info ∈ tables.trashIn directory (-1) ∨
          (directory = root ∧ info ∈ tables.trashDirectories root (-1)))) := by
  rw [history_limit] at listed
  have listed := (limit_sublist count _).subset listed
  rw [history] at listed
  split at listed
  · next named =>
      exact .inl ⟨by simpa using named, listed⟩
  · next unnamed =>
      rw [limit_of_neg (by decide)] at listed
      have isListed := (firstOfEach_sublist [] _).subset listed
      refine .inr ⟨by simpa using unnamed, ?_⟩
      split at isListed
      · next atRoot =>
          exact .inr ⟨by simpa using (Bool.and_eq_true_iff.mp atRoot).1, isListed⟩
      · exact .inl isListed

/-- A search shows versions of a file, in a directory, or below the root. -/
theorem listed_of_mem_searchHistory
    {select : Selector}
    (listed : info ∈ searchHistory tables root directory name count select) :
    (name ≠ "" ∧ info ∈ tables.versionsOf directory name (-1)) ∨
      (name = "" ∧
        (info ∈ tables.trashIn directory (-1) ∨
          (directory = root ∧ info ∈ tables.trashUnder root (-1)))) := by
  have among (infos : List TrashEntry) : (select.filter infos).Sublist infos :=
    select.filterFrom_sublist [] infos
  have listed := (limit_sublist count _).subset listed
  split at listed
  · next named =>
      exact .inl ⟨by simpa using named, (among _).subset listed⟩
  · next unnamed =>
      refine .inr ⟨by simpa using unnamed, ?_⟩
      split at listed
      · next atRoot =>
          exact .inr ⟨by simpa using atRoot,
            (among _).subset ((firstOfEach_sublist [] _).subset listed)⟩
      · exact .inl ((among _).subset ((firstOfEach_sublist [] _).subset listed))

/-- What a history shows is an entry that there is. -/
theorem mem_entries_of_history
    (coherent : tables.Coherent)
    {directories : Bool}
    (listed : info ∈ history tables root directory name directories count) :
    info.entry ∈ tables.entries := by
  rcases listed_of_mem_history listed with ⟨-, version⟩ | ⟨-, within | ⟨-, holding⟩⟩
  · exact (mem_versionsOf_iff.mp version).1.member
  · exact (coherent.mem_trashIn_iff.mp within).1.member
  · exact (mem_trashDirectories_iff.mp holding).1

/-- What a search shows is an entry that there is. -/
theorem mem_entries_of_searchHistory
    (coherent : tables.Coherent)
    {select : Selector}
    (listed : info ∈ searchHistory tables root directory name count select) :
    info.entry ∈ tables.entries := by
  rcases listed_of_mem_searchHistory listed with ⟨-, version⟩ | ⟨-, within | ⟨-, below⟩⟩
  · exact (mem_versionsOf_iff.mp version).1.member
  · exact (coherent.mem_trashIn_iff.mp within).1.member
  · exact (mem_trashUnder_iff.mp below).1.member

end Txn

end VersionStore
