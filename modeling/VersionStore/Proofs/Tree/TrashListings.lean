import VersionStore.Proofs.Tree.Coherent
import VersionStore.Txn.Trash

namespace VersionStore

/-!
# What listings of the trash hold

A listing of the trash holds versions, which are files in the trash with the paths of the
directories that hold them. Which versions it holds depends on their directories and names, and
where each path is listed once, no path is left out.
-/

open Tables

/-! ## Versions -/

namespace Tables

variable {tables : Tables} {info : TrashEntry} {rows : List Placed} {directory name : String}

/-- The trash entry of a row tells its directory and its entry. -/
theorem Placed.trashEntry?_eq_some_iff
    {placed : Placed} :
    Placed.trashEntry? placed = some info ↔
      placed.directory = some info.directory ∧ placed.entry = info.entry := by
  obtain ⟨directory, entry⟩ := placed
  obtain ⟨path, version⟩ := info
  cases directory <;> simp [Placed.trashEntry?]

/-- What is in the trash by its id is a row there. -/
theorem mem_of_trashed?
    {id : Int}
    {version : Entry}
    (found : tables.trashed? id = some version) :
    version ∈ tables.entries ∧ version.id = id ∧ version.isDeleted = true := by
  have isFound := List.find?_some found
  simp only [Bool.and_eq_true, beq_iff_eq] at isFound
  exact ⟨List.mem_of_find?_eq_some found, isFound⟩

/-- A row in the trash is found there by its id. -/
theorem Coherent.trashed?_eq_some
    (coherent : tables.Coherent)
    {version : Entry}
    (member : version ∈ tables.entries)
    (isDeleted : version.isDeleted = true) :
    tables.trashed? version.id = some version := by
  cases found : tables.trashed? version.id with
  | none =>
      have missing := List.find?_eq_none.mp found version member
      simp [isDeleted] at missing
  | some other =>
      obtain ⟨otherMember, same, -⟩ := mem_of_trashed? found
      rw [coherent.entry_eq otherMember member same]

/-- A count only takes something away from the end. -/
theorem limit_sublist
    (count : Int)
    (rows : List α) :
    (limit count rows).Sublist rows := by
  unfold limit
  split
  · exact .refl rows
  · exact List.take_sublist _ rows

/-- What is listed comes from a row with a directory. -/
theorem mem_trashListing_iff :
    info ∈ trashListing (-1) rows ↔ ⟨some info.directory, info.entry⟩ ∈ rows := by
  rw [trashListing, limit_of_neg (by decide), List.mem_filterMap]
  constructor
  · rintro ⟨placed, member, isInfo⟩
    obtain ⟨isDirectory, isEntry⟩ := Placed.trashEntry?_eq_some_iff.mp isInfo
    rw [← isDirectory, ← isEntry]
    exact List.mem_mergeSort.mp member
  · exact fun member => ⟨_, List.mem_mergeSort.mpr member, rfl⟩

/-- A trashed file, with the path of the directory that holds it. -/
structure IsVersion (tables : Tables) (info : TrashEntry) : Prop where
  member : info.entry ∈ tables.entries
  isTrashed : isTrashedFile info.entry = true
  directory : tables.directoryPath? info.entry.directoryId = some info.directory

/-- A version has a name, as only the top directory has none. -/
theorem IsVersion.named
    (isVersion : tables.IsVersion info)
    (coherent : tables.Coherent) :
    IsName info.entry.name := by
  refine coherent.named _ isVersion.member fun isRoot => ?_
  have isTop := coherent.isTop isVersion.member isRoot
  have isTrashed := isVersion.isTrashed
  simp [isTrashedFile, isTop.live] at isTrashed

/-- The rows of trashed files are those of versions. -/
theorem mem_trashedFiles_iff :
    ⟨some info.directory, info.entry⟩ ∈ tables.trashedFiles ↔ tables.IsVersion info := by
  simp only [trashedFiles, List.mem_map, List.mem_filter, place, Placed.mk.injEq]
  constructor
  · rintro ⟨entry, ⟨member, isTrashed⟩, isPath, rfl⟩
    exact ⟨member, isTrashed, isPath⟩
  · rintro ⟨member, isTrashed, isPath⟩
    exact ⟨info.entry, ⟨member, isTrashed⟩, isPath, rfl⟩

theorem mem_trashUnder_iff
    {root : String} :
    info ∈ tables.trashUnder root (-1) ↔
      tables.IsVersion info ∧ isUnder root info.directory = true := by
  rw [trashUnder, mem_trashListing_iff, List.mem_filter, mem_trashedFiles_iff]
  rfl

theorem Coherent.mem_trashIn_iff
    (coherent : tables.Coherent) :
    info ∈ tables.trashIn directory (-1) ↔
      tables.IsVersion info ∧ info.directory = directory := by
  simp only [trashIn, mem_trashListing_iff, List.mem_flatMap, List.mem_filter, mem_trashedFiles_iff,
    beq_iff_eq]
  constructor
  · rintro ⟨row, ⟨member, rfl⟩, isVersion, owns⟩
    have isPath := isVersion.directory
    rw [owns, coherent.directoryPath?_eq_some member] at isPath
    exact ⟨isVersion, (Option.some.inj isPath).symm⟩
  · rintro ⟨isVersion, rfl⟩
    obtain ⟨row, found, isPath⟩ := Option.map_eq_some_iff.mp isVersion.directory
    obtain ⟨member, owns⟩ := coherent.directory?_eq_some_iff.mp found
    exact ⟨row, ⟨member, isPath⟩, isVersion, owns.symm⟩

theorem mem_versionsOf_iff :
    info ∈ tables.versionsOf directory name (-1) ↔
      tables.IsVersion info ∧ info.directory = directory ∧ info.entry.name = name := by
  rw [versionsOf, mem_trashListing_iff, List.mem_filter, mem_trashedFiles_iff]
  simp only [Bool.and_eq_true, beq_iff_eq, Option.some.injEq, and_comm]

end Tables

/-! ## What a history lists -/

namespace Txn

/-- Each path is listed once. -/
theorem exists_mem_firstOfEach
    {seen : List String}
    {infos : List TrashEntry}
    {info : TrashEntry}
    (member : info ∈ infos)
    (unseen : info.path ∉ seen) :
    ∃ first ∈ firstOfEach seen infos, first.path = info.path := by
  induction infos generalizing seen with
  | nil =>
      cases member
  | cons next rest inductionHypothesis =>
      rw [firstOfEach]
      by_cases wasSeen : next.path ∈ seen
      · rw [if_pos wasSeen]
        rcases List.mem_cons.mp member with rfl | later
        · exact (unseen wasSeen).elim
        · exact inductionHypothesis later unseen
      · rw [if_neg wasSeen]
        by_cases same : next.path = info.path
        · exact ⟨next, List.mem_cons_self, same⟩
        · rcases List.mem_cons.mp member with rfl | later
          · exact (same rfl).elim
          · have stillUnseen : info.path ∉ next.path :: seen := by
              simp [unseen, Ne.symm same]
            obtain ⟨first, isFirst, isPath⟩ := inductionHypothesis later stillUnseen
            exact ⟨first, List.mem_cons_of_mem _ isFirst, isPath⟩

end Txn

/-- A history lists a version of a file in a directory: all versions of the file if it is asked
for, and the newest if the directory is. -/
structure Tables.Lists (tables : Tables) (directory : String) (version : Entry) : Prop where
  versions :
    ∀ root directories,
      ⟨directory, version⟩ ∈ Txn.history tables root directory version.name directories (-1)
  names :
    ∀ root,
      ∃ info ∈ Txn.history tables root directory "" false (-1),
        info.path = (TrashEntry.mk directory version).path

/-- A trashed file is listed in the directory that holds it. -/
theorem Tables.Coherent.lists
    {tables : Tables}
    (coherent : tables.Coherent)
    {version : Entry}
    (member : version ∈ tables.entries)
    (trashed : isTrashedFile version = true)
    {row : Directory}
    (rowMember : row ∈ tables.directories)
    (owns : row.id = version.directoryId) :
    tables.Lists row.path version := by
  have isPath : tables.directoryPath? version.directoryId = some row.path := by
    rw [← owns, coherent.directoryPath?_eq_some rowMember]
  have isVersion : tables.IsVersion ⟨row.path, version⟩ :=
    ⟨member, trashed, isPath⟩
  have named : version.name.isEmpty = false := by
    rw [← Bool.not_eq_true, String.isEmpty_iff]
    exact (isVersion.named coherent).1
  constructor
  case versions =>
    intro root directories
    rw [Txn.history, if_pos (by simp [named])]
    exact mem_versionsOf_iff.mpr ⟨isVersion, rfl, rfl⟩
  case names =>
    intro root
    rw [Txn.history, if_neg (by decide), if_neg (by simp), limit_of_neg (by decide)]
    exact Txn.exists_mem_firstOfEach (coherent.mem_trashIn_iff.mpr ⟨isVersion, rfl⟩)
      List.not_mem_nil

end VersionStore
