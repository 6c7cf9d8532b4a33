import VersionStore.Proofs.Text.Order
import VersionStore.Proofs.Tree.Garbage
import VersionStore.Proofs.Tree.TrashListings

namespace VersionStore

/-!
# Listings of versions

A listing is in the order of directories and names, and within one name the newest deletion
comes first. What is left of it when each path is listed once is therefore the newest version of
every file, and that it was filtered before changes nothing about this. Directories that share a
path are one place in a listing: a name has no separator, so that the path of a version tells the
directory and the name.

A count takes the first entries of what is listed without one.
-/

open Tables

/-! ## The order of a listing -/

namespace TrashEntry

/-- The order of listings: by directory, then by name, then the newest deletion first. -/
def Precedes (first second : TrashEntry) : Prop :=
  first.directory < second.directory ∨
    first.directory = second.directory ∧
      (first.entry.name < second.entry.name ∨
        first.entry.name = second.entry.name ∧
          second.entry.lastDeleted ≤ first.entry.lastDeleted)

end TrashEntry

namespace Tables

theorem directoryLe_total
    (first second : Option String) :
    (directoryLe first second || directoryLe second first) = true := by
  cases first <;> cases second <;> simp [directoryLe, le_total]

theorem directoryLe_trans
    {first second third : Option String}
    (lower : directoryLe first second = true)
    (upper : directoryLe second third = true) :
    directoryLe first third = true := by
  cases first <;> cases second <;> cases third <;> simp_all [directoryLe]
  exact le_trans lower upper

theorem directoryLe_antisymm
    {first second : Option String}
    (lower : directoryLe first second = true)
    (upper : directoryLe second first = true) :
    first = second := by
  cases first <;> cases second <;> simp_all [directoryLe]
  exact le_antisymm lower upper

theorem trashLe_total
    (first second : Placed) :
    (trashLe first second || trashLe second first) = true := by
  have directories := directoryLe_total first.directory second.directory
  unfold trashLe
  grind

theorem trashLe_trans
    (first second third : Placed)
    (lower : trashLe first second = true)
    (upper : trashLe second third = true) :
    trashLe first third = true := by
  have passes := @directoryLe_trans first.directory second.directory third.directory
  have meets := @directoryLe_antisymm first.directory second.directory
  unfold trashLe at *
  grind

variable {tables : Tables} {info : TrashEntry} {rows : List Placed} {directory name : String}

/-- A listing is in order. -/
theorem pairwise_trashListing
    (rows : List Placed) :
    (trashListing (-1) rows).Pairwise TrashEntry.Precedes := by
  rw [trashListing, limit_of_neg (by decide)]
  refine (List.pairwise_mergeSort trashLe_trans trashLe_total rows).filterMap _ ?_
  intro first second inOrder one isOne other isOther
  obtain ⟨firstDirectory, firstEntry⟩ := Placed.trashEntry?_eq_some_iff.mp isOne
  obtain ⟨secondDirectory, secondEntry⟩ := Placed.trashEntry?_eq_some_iff.mp isOther
  rw [trashLe, firstDirectory, secondDirectory, firstEntry, secondEntry] at inOrder
  simp only [directoryLe, Option.some.injEq] at inOrder
  unfold TrashEntry.Precedes
  grind

/-- No version of a file is listed twice. -/
theorem Coherent.nodup_versionsOf
    (coherent : tables.Coherent) :
    (tables.versionsOf directory name (-1)).Nodup := by
  have different : tables.trashedFiles.Nodup := by
    refine List.Nodup.map (fun first second same => congrArg Placed.entry same) ?_
    exact List.Nodup.filter _ (.of_map _ (coherent.ids.imp Int.ne_of_lt))
  rw [versionsOf, trashListing, limit_of_neg (by decide)]
  refine List.Nodup.filterMap ?_ ((List.mergeSort_perm _ _).nodup_iff.mpr (different.filter _))
  intro first second shown isFirst isSecond
  obtain ⟨firstDirectory, firstEntry⟩ := Placed.trashEntry?_eq_some_iff.mp isFirst
  obtain ⟨secondDirectory, secondEntry⟩ := Placed.trashEntry?_eq_some_iff.mp isSecond
  cases first
  cases second
  exact Placed.mk.injEq .. ▸ ⟨firstDirectory.trans secondDirectory.symm,
    firstEntry.trans secondEntry.symm⟩

/-- Every version of a file has a directory, so that a count takes from versions what it takes from
rows. -/
theorem versionsOf_limit
    (tables : Tables)
    (directory name : String)
    (count : Int) :
    tables.versionsOf directory name count =
      limit count (tables.versionsOf directory name (-1)) := by
  rw [versionsOf, versionsOf, trashListing, trashListing, limit_of_neg (by decide : (-1 : Int) < 0)]
  generalize isSorted :
    (tables.trashedFiles.filter fun placed =>
      placed.entry.name == name && placed.directory == some directory).mergeSort trashLe = rows
  have placed : ∀ row ∈ rows, Placed.trashEntry? row = some ⟨directory, row.entry⟩ := by
    intro row member
    rw [← isSorted, List.mem_mergeSort, List.mem_filter, Bool.and_eq_true, beq_iff_eq,
      beq_iff_eq] at member
    exact Placed.trashEntry?_eq_some_iff.mpr ⟨member.2.2, rfl⟩
  unfold limit
  split
  · rfl
  · have first : ∀ row ∈ rows.take count.toNat, Placed.trashEntry? row = some ⟨directory, row.entry⟩ :=
      fun row member => placed row (List.mem_of_mem_take member)
    rw [List.filterMap_congr placed, List.filterMap_congr first]
    simp

/-- The directory of a version is written from names, and the version adds its own to them. -/
theorem IsVersion.written
    (isVersion : tables.IsVersion info)
    (coherent : tables.Coherent) :
    ∃ names, ∃ name : Name,
      info.directory = CleanPath.joinNames names ∧ info.entry.name = name.text ∧
        info.path = CleanPath.joinNames (names ++ [name]) := by
  obtain ⟨row, found, isRow⟩ := Option.map_eq_some_iff.mp isVersion.directory
  obtain ⟨names, isWritten⟩ := coherent.written row (List.mem_of_find?_eq_some found)
  obtain ⟨name, isName⟩ : ∃ name : Name, name.text = info.entry.name :=
    ⟨⟨_, isVersion.named coherent⟩, rfl⟩
  refine ⟨names, name, isRow.symm.trans isWritten, isName.symm, ?_⟩
  rw [TrashEntry.path, ← isRow, isWritten, ← isName, CleanPath.join_joinNames]

/-- The path of a version tells its directory and its name. -/
theorem Coherent.eq_of_path_eq
    (coherent : tables.Coherent)
    {other : TrashEntry}
    (isVersion : tables.IsVersion info)
    (isOther : tables.IsVersion other)
    (same : info.path = other.path) :
    info.directory = other.directory ∧ info.entry.name = other.entry.name := by
  obtain ⟨names, name, isDirectory, isName, isPath⟩ := isVersion.written coherent
  obtain ⟨otherNames, otherName, otherDirectory, isOtherName, otherPath⟩ := isOther.written coherent
  rw [isPath, otherPath] at same
  obtain ⟨rfl, sameName⟩ := List.append_inj' (CleanPath.joinNames_injective same) rfl
  cases sameName
  exact ⟨isDirectory.trans otherDirectory.symm, isName.trans isOtherName.symm⟩

end Tables

/-! ## The first of each path -/

namespace Txn

variable {seen : List String} {infos : List TrashEntry} {info : TrashEntry}

theorem firstOfEach_sublist
    (seen : List String)
    (infos : List TrashEntry) :
    (firstOfEach seen infos).Sublist infos := by
  induction infos generalizing seen with
  | nil =>
      exact .slnil
  | cons next rest inductionHypothesis =>
      rw [firstOfEach]
      split
      · exact (inductionHypothesis seen).cons next
      · exact (inductionHypothesis (next.path :: seen)).cons_cons next

theorem unseen_of_mem_firstOfEach
    (member : info ∈ firstOfEach seen infos) :
    info.path ∉ seen := by
  induction infos generalizing seen with
  | nil =>
      cases member
  | cons next rest inductionHypothesis =>
      rw [firstOfEach] at member
      split at member
      · exact inductionHypothesis member
      · next unseen =>
          rcases List.mem_cons.mp member with rfl | later
          · exact unseen
          · exact fun wasSeen => inductionHypothesis later (List.mem_cons_of_mem _ wasSeen)

/-- No path is listed twice. -/
theorem nodup_path_firstOfEach
    (seen : List String)
    (infos : List TrashEntry) :
    ((firstOfEach seen infos).map (·.path)).Nodup := by
  induction infos generalizing seen with
  | nil =>
      exact .nil
  | cons next rest inductionHypothesis =>
      rw [firstOfEach]
      split
      · exact inductionHypothesis seen
      · refine List.nodup_cons.mpr ⟨fun again => ?_, inductionHypothesis _⟩
        obtain ⟨info, member, same⟩ := List.mem_map.mp again
        exact unseen_of_mem_firstOfEach member (same ▸ List.mem_cons_self)

/-- In an order of its own, what is listed comes before everything else of its path. -/
theorem first_of_mem_firstOfEach
    {before : TrashEntry → TrashEntry → Prop}
    (ordered : infos.Pairwise before)
    (member : info ∈ firstOfEach seen infos)
    {other : TrashEntry}
    (otherMember : other ∈ infos)
    (same : other.path = info.path) :
    other = info ∨ before info other := by
  induction infos generalizing seen with
  | nil =>
      cases member
  | cons next rest inductionHypothesis =>
      obtain ⟨first, ordered⟩ := List.pairwise_cons.mp ordered
      rw [firstOfEach] at member
      split at member
      · next wasSeen =>
          rcases List.mem_cons.mp otherMember with rfl | later
          · exact (unseen_of_mem_firstOfEach member (same ▸ wasSeen)).elim
          · exact inductionHypothesis ordered member later
      · rcases List.mem_cons.mp member with rfl | memberLater
        · rcases List.mem_cons.mp otherMember with rfl | later
          · exact .inl rfl
          · exact .inr (first other later)
        · rcases List.mem_cons.mp otherMember with rfl | later
          · exact (unseen_of_mem_firstOfEach memberLater (same ▸ List.mem_cons_self)).elim
          · exact inductionHypothesis ordered memberLater later

/-! ## Searching -/

/-- A listing of the newest version of every file that has one among some. -/
structure Newest (among : TrashEntry → Prop) (listing : List TrashEntry) : Prop where
  /-- Directories and names are in the order of their bytes, and no file is listed twice. -/
  sorted :
    listing.Pairwise fun first second =>
      first.directory.toUTF8.data.toList < second.directory.toUTF8.data.toList ∨
        first.directory = second.directory ∧
          first.entry.name.toUTF8.data.toList < second.entry.name.toUTF8.data.toList
  listed : ∀ info ∈ listing, among info
  newest :
    ∀ info ∈ listing,
      ∀ other,
        among other →
        other.directory = info.directory →
        other.entry.name = info.entry.name →
        other.entry.lastDeleted ≤ info.entry.lastDeleted
  complete :
    ∀ info,
      among info →
      ∃ shown ∈ listing,
        shown.directory = info.directory ∧ shown.entry.name = info.entry.name

/-- A listing of all versions among some, the newest deletion first. -/
structure AllVersions (among : TrashEntry → Prop) (listing : List TrashEntry) : Prop where
  sorted :
    listing.Pairwise fun first second => second.entry.lastDeleted ≤ first.entry.lastDeleted
  once : listing.Nodup
  mem_iff : ∀ info, info ∈ listing ↔ among info

/-- A search below a root looks at the root and at what lies below it, and everything lies below no
path. Any other search looks at one directory. -/
def Searches (root directory path : String) : Prop :=
  if directory = root then
    root = "" ∨ path = root ∨ (root ++ "/").toList <+: path.toList
  else path = directory

/-- What lies under a root is told by its text, unless the root holds a null character. -/
theorem isUnder_iff_searches
    {root path : String}
    (plain : '\x00' ∉ root.toList) :
    isUnder root path = true ↔ Searches root root path := by
  simp [isUnder, Searches, plain, or_assoc]

variable
  {tables : Tables}
  {among : TrashEntry → Prop}
  {root directory name : String}
  {accepts : TrashEntry → Bool}

/-- The first version of each path is the newest one of its file. -/
theorem newest_firstOfEach
    (coherent : tables.Coherent)
    (ordered : infos.Pairwise TrashEntry.Precedes)
    (mem_iff : ∀ info, info ∈ infos ↔ tables.IsVersion info ∧ among info) :
    Newest (fun info => tables.IsVersion info ∧ among info) (firstOfEach [] infos) where
  sorted := by
    have inOrder := ordered.sublist (firstOfEach_sublist [] infos)
    have apart := List.pairwise_map.mp (nodup_path_firstOfEach [] infos)
    refine (inOrder.and apart).imp ?_
    rintro first second ⟨before, different⟩
    rw [Text.toUTF8_lt_iff, Text.toUTF8_lt_iff]
    rcases before with lower | ⟨sameDirectory, lower | ⟨sameName, -⟩⟩
    · exact .inl lower
    · exact .inr ⟨sameDirectory, lower⟩
    · exact (different (by rw [TrashEntry.path, TrashEntry.path, sameDirectory, sameName])).elim
  listed info member := (mem_iff info).mp ((firstOfEach_sublist [] infos).subset member)
  newest info member other isAmong sameDirectory sameName := by
    have samePath : other.path = info.path := by
      rw [TrashEntry.path, TrashEntry.path, sameDirectory, sameName]
    rcases first_of_mem_firstOfEach ordered member ((mem_iff other).mpr isAmong) samePath with
      rfl | before
    · exact le_rfl
    · rcases before with lower | ⟨-, lower | ⟨-, newer⟩⟩
      · exact (lt_irrefl _ (sameDirectory ▸ lower)).elim
      · exact (lt_irrefl _ (sameName ▸ lower)).elim
      · exact newer
  complete info isAmong := by
    obtain ⟨shown, isShown, samePath⟩ :=
      exists_mem_firstOfEach ((mem_iff info).mpr isAmong) List.not_mem_nil
    have isVersion := ((mem_iff shown).mp ((firstOfEach_sublist [] infos).subset isShown)).1
    exact ⟨shown, isShown, coherent.eq_of_path_eq isVersion isAmong.1 samePath⟩

/-- A search without a name finds the newest accepted version of every file where it looks. -/
theorem newest_searchHistory
    (coherent : tables.Coherent)
    (plain : directory = root → '\x00' ∉ root.toList) :
    Newest
      (fun info =>
        tables.IsVersion info ∧ Searches root directory info.directory ∧ accepts info = true)
      (searchHistory tables root directory "" (-1) fun _ info => accepts info) := by
  rw [searchHistory, if_neg (by decide), limit_of_neg (by decide), Selector.filter_pure,
    Selector.filter_pure]
  by_cases isRoot : directory = root
  · subst isRoot
    rw [if_pos (by simp)]
    refine newest_firstOfEach coherent ((pairwise_trashListing _).filter _) fun info => ?_
    rw [List.mem_filter, mem_trashUnder_iff, isUnder_iff_searches (plain rfl), and_assoc]
  · rw [if_neg (by simpa using isRoot)]
    refine newest_firstOfEach coherent ((pairwise_trashListing _).filter _) fun info => ?_
    rw [List.mem_filter, coherent.mem_trashIn_iff, Searches, if_neg isRoot, and_assoc]

/-- A search with a name finds all accepted versions of the file. -/
theorem allVersions_searchHistory
    (coherent : tables.Coherent)
    (named : name ≠ "") :
    AllVersions
      (fun info =>
        tables.IsVersion info ∧ info.directory = directory ∧ info.entry.name = name ∧
          accepts info = true)
      (searchHistory tables root directory name (-1) fun _ info => accepts info) := by
  rw [searchHistory, if_pos (by simpa using named), limit_of_neg (by decide), Selector.filter_pure]
  have mem_iff (info : TrashEntry) :
      info ∈ (tables.versionsOf directory name (-1)).filter accepts ↔
        tables.IsVersion info ∧ info.directory = directory ∧ info.entry.name = name ∧
          accepts info = true := by
    rw [List.mem_filter, mem_versionsOf_iff, and_assoc, and_assoc]
  refine ⟨?_, coherent.nodup_versionsOf.filter _, mem_iff⟩
  refine ((pairwise_trashListing _).filter _).imp_of_mem fun isFirst isSecond before => ?_
  obtain ⟨-, firstDirectory, firstName, -⟩ := (mem_iff _).mp isFirst
  obtain ⟨-, secondDirectory, secondName, -⟩ := (mem_iff _).mp isSecond
  rcases before with lower | ⟨-, lower | ⟨-, newer⟩⟩
  · rw [firstDirectory, secondDirectory] at lower
    exact (lt_irrefl _ lower).elim
  · rw [firstName, secondName] at lower
    exact (lt_irrefl _ lower).elim
  · exact newer

/-- A count takes the first entries of what a search finds. -/
theorem searchHistory_limit
    (tables : Tables)
    (root directory name : String)
    (count : Int)
    (select : Selector) :
    searchHistory tables root directory name count select =
      limit count (searchHistory tables root directory name (-1) select) := by
  simp only [searchHistory, limit_of_neg (by decide : (-1 : Int) < 0)]

/-- A count takes the first entries of what a history lists. -/
theorem history_limit
    (tables : Tables)
    (root directory name : String)
    (directories : Bool)
    (count : Int) :
    history tables root directory name directories count =
      limit count (history tables root directory name directories (-1)) := by
  unfold history
  split
  · exact versionsOf_limit tables directory name count
  · rw [limit_of_neg (by decide : (-1 : Int) < 0)]

/-- A history without directories lists what a search for everything finds, but not at a root. -/
theorem history_eq_searchHistory
    (tables : Tables)
    {root directory name : String}
    (below : directory ≠ root ∨ name ≠ "")
    (count : Int) :
    history tables root directory name false count =
      searchHistory tables root directory name count fun _ _ => true := by
  rw [history_limit, searchHistory_limit]
  congr 1
  unfold history searchHistory
  rw [limit_of_neg (by decide), limit_of_neg (by decide), Selector.filter_pure,
    Selector.filter_pure, Selector.filter_pure, List.filter_true, List.filter_true]
  split
  · rfl
  · next unnamed =>
      have elsewhere : directory ≠ root :=
        below.resolve_right (by simpa using unnamed)
      simp [elsewhere]

end Txn

end VersionStore
