import Mathlib.Data.List.Perm.Basic
import VersionStore.Proofs.Tree.Edits
import VersionStore.Txn.Trash

namespace VersionStore.Txn

/-!
# What a sweep erases

A sweep erases the files that were accepted and, round by round, trashed directories that
nothing uses. `Erased` is what holds of the tables after every step: a row of a directory
is there exactly as long as something uses it, and nothing is left of what lay in a
directory that is gone. The rounds go on until every directory that is left is used.
-/

open Tables

variable {before tables : Tables} {files gone : List Int}

/-- Filters that agree on all rows leave the same ones. -/
private theorem filter_eq_of_iff
    {rows : List α}
    {first second : α → Bool}
    (agree : ∀ row ∈ rows, first row = true ↔ second row = true) :
    rows.filter first = rows.filter second :=
  List.filter_congr fun row member => Bool.eq_iff_iff.mpr (agree row member)

/-! ## Uses of a directory -/

/-- A directory is used by what lies in it, and by itself while it is live. -/
theorem usage_ne_zero_iff
    {id : Int} :
    tables.usage id ≠ 0 ↔
      ∃ entry ∈ tables.entries,
        entry.directoryId = id ∨ (entry.id = id ∧ entry.isDeleted = false) := by
  rw [usage, ne_eq, List.countP_eq_zero]
  simp [or_iff_not_imp_left]

/-- Where an entry lies in a directory, the directory is used. -/
theorem usage_ne_zero_of_mem
    {entry : Entry}
    (member : entry ∈ tables.entries) :
    tables.usage entry.directoryId ≠ 0 :=
  usage_ne_zero_iff.mpr ⟨entry, member, .inl rfl⟩

/-! ## The first two phases -/

/-- Tables without some files, their parts and their links. -/
def withoutFiles (tables : Tables) (ids : List Int) : Tables :=
  { tables with
    entries := tables.entries.filter fun entry => entry.id ∉ ids
    parts := tables.parts.filter fun part => part.fileId ∉ ids
    links := tables.links.filter fun link => link.source ∉ ids }

/-- Nothing is taken away without an id. -/
@[simp] theorem withoutFiles_nil
    (tables : Tables) :
    withoutFiles tables [] = tables := by
  simp [withoutFiles]

/-- Erasing a file takes away what has its id. -/
theorem eraseFile_eq
    (tables : Tables)
    (id : Int) :
    eraseFile tables id = withoutFiles tables [id] := by
  simp only [withoutFiles, eraseFile, removeEntry, removeParts, removeLinks, List.mem_singleton]
  congr 1 <;>
    exact filter_eq_of_iff fun row _ => by simp

/-- What is taken away in two steps is taken away at once. -/
theorem withoutFiles_append
    (tables : Tables)
    (first second : List Int) :
    withoutFiles (withoutFiles tables first) second = withoutFiles tables (first ++ second) := by
  simp only [withoutFiles, List.filter_filter, List.mem_append, not_or]
  congr 1 <;>
    exact filter_eq_of_iff fun row _ => by simp [and_comm]

/-- The order of what is taken away does not matter. -/
theorem withoutFiles_congr
    (tables : Tables)
    {first second : List Int}
    (same : ∀ id, id ∈ first ↔ id ∈ second) :
    withoutFiles tables first = withoutFiles tables second := by
  simp only [withoutFiles, same]

/-- Erasing files one after the other takes all of them away. -/
theorem foldl_eraseFile
    (accepted : List TrashEntry)
    (tables : Tables) :
    accepted.foldl (fun (left : Tables) file => eraseFile left file.entry.id) tables =
      withoutFiles tables (accepted.map (·.entry.id)) := by
  induction accepted generalizing tables with
  | nil =>
      exact (withoutFiles_nil tables).symm
  | cons file rest inductionHypothesis =>
      rw [List.foldl_cons, inductionHypothesis, eraseFile_eq, withoutFiles_append]
      rfl

/-- Pruning unused rows one after the other leaves those that are used or not asked about. -/
theorem foldl_eraseUnused
    (ids : List Int)
    (tables : Tables) :
    ids.foldl eraseUnused tables =
      { tables with
        directories := tables.directories.filter fun row =>
          row.id ∉ ids ∨ tables.usage row.id ≠ 0 } := by
  induction ids generalizing tables with
  | nil =>
      simp
  | cons id rest inductionHypothesis =>
      rw [List.foldl_cons, inductionHypothesis]
      have shape :
          eraseUnused tables id =
            { tables with
              directories := tables.directories.filter fun row =>
                row.id ≠ id ∨ tables.usage row.id ≠ 0 } := by
        unfold eraseUnused
        split
        · rename_i unused
          rw [removeDirectory]
          congr 1
          apply List.filter_congr
          intro row _
          by_cases same : row.id = id <;> simp [same, unused]
        · rename_i used
          have all :
              (tables.directories.filter fun row => row.id ≠ id ∨ tables.usage row.id ≠ 0) =
                tables.directories := by
            rw [List.filter_eq_self]
            intro row _
            by_cases same : row.id = id <;> simp [same, used]
          rw [all]
      rw [shape]
      simp only [List.filter_filter]
      congr 1
      refine filter_eq_of_iff fun row _ => ?_
      have sameUsage :
          Tables.usage { tables with
            directories := tables.directories.filter fun row =>
              row.id ≠ id ∨ tables.usage row.id ≠ 0 } row.id = tables.usage row.id :=
        rfl
      rw [sameUsage, Bool.and_eq_true, decide_eq_true_eq, decide_eq_true_eq, decide_eq_true_eq,
        List.mem_cons, not_or]
      tauto

/-! ## Directory by directory -/

/-- Files and directories were erased: nothing is left of what lay in a directory that is
gone, and the rows of directories are those that something uses. -/
structure Erased (before : Tables) (files gone : List Int) (after : Tables) : Prop where
  entries :
    after.entries = before.entries.filter fun entry => entry.id ∉ files ∧ entry.id ∉ gone
  directories :
    after.directories = before.directories.filter fun row => after.usage row.id ≠ 0
  parts : after.parts = before.parts.filter fun part => part.fileId ∉ files
  targets : after.targets = before.targets
  links : after.links = before.links.filter fun link => link.source ∉ files
  lastEntryId : after.lastEntryId = before.lastEntryId
  lastPartId : after.lastPartId = before.lastPartId
  closed :
    ∀ entry ∈ before.entries,
      entry.directoryId ∈ gone →
      entry.id ∈ files ∨ entry.id ∈ gone

namespace Erased

/-- What is left is what was not erased. -/
theorem mem_entries
    (erased : Erased before files gone tables)
    {entry : Entry} :
    entry ∈ tables.entries ↔ entry ∈ before.entries ∧ entry.id ∉ files ∧ entry.id ∉ gone := by
  rw [erased.entries, List.mem_filter, decide_eq_true_eq]

/-- The rows that are left are those that something uses. -/
theorem mem_directories
    (erased : Erased before files gone tables)
    {row : Directory} :
    row ∈ tables.directories ↔ row ∈ before.directories ∧ tables.usage row.id ≠ 0 := by
  rw [erased.directories, List.mem_filter, decide_eq_true_eq]

/-- The first two phases erase files and unused rows. -/
theorem pruned
    (before : Tables)
    (files : List Int) :
    Erased before files []
      ((withoutFiles before files).directoryIds.foldl eraseUnused (withoutFiles before files)) := by
  rw [foldl_eraseUnused]
  refine ⟨?_, ?_, rfl, rfl, rfl, rfl, rfl, ?_⟩
  · simp [withoutFiles]
  · apply List.filter_congr
    intro row member
    have listed : row.id ∈ (withoutFiles before files).directoryIds :=
      List.mem_map_of_mem member
    simp only [listed, not_true_eq_false, false_or]
    rfl
  · intro entry _ absurd
    cases absurd

/-- Erasing a directory that nothing uses is one more step. -/
theorem eraseDirectory
    (ids : (before.entries.map (·.id)).Pairwise (· < ·))
    (erased : Erased before files gone tables)
    {entry : Entry}
    (member : entry ∈ before.entries)
    {after : Tables}
    (isErased : eraseDirectory? tables entry = some after) :
    Erased before files (entry.id :: gone) after := by
  unfold eraseDirectory? at isErased
  split at isErased
  · cases isErased
  rename_i notUsed
  have unused : tables.usage entry.id = 0 := by
    omega
  obtain rfl := Option.some.inj isErased
  generalize around : (tables.removeEntry entry.id).removeDirectory entry.id = removed
  have removedEntries : removed.entries = tables.entries.filter (·.id != entry.id) := by
    rw [← around]
    rfl
  have removedDirectories :
      removed.directories = tables.directories.filter (·.id != entry.id) := by
    rw [← around]
    rfl
  have sameUsage : ∀ id, (eraseUnused removed entry.directoryId).usage id = removed.usage id := by
    intro id
    unfold eraseUnused
    split <;> rfl
  -- Only the directory that held the erased one may have lost its last use.
  have stillUsed :
      ∀ id,
        removed.usage id ≠ 0 ↔
          tables.usage id ≠ 0 ∧ id ≠ entry.id ∧
            ¬(removed.usage entry.directoryId = 0 ∧ id = entry.directoryId) := by
    intro id
    constructor
    · intro used
      obtain ⟨user, userMember, uses⟩ := usage_ne_zero_iff.mp used
      rw [removedEntries, List.mem_filter] at userMember
      refine ⟨usage_ne_zero_iff.mpr ⟨user, userMember.1, uses⟩, ?_, ?_⟩
      · rintro rfl
        exact usage_ne_zero_iff.mpr ⟨user, userMember.1, uses⟩ unused
      · rintro ⟨last, rfl⟩
        exact used last
    · rintro ⟨used, other, notLast⟩
      by_cases isHolder : id = entry.directoryId
      · intro last
        exact notLast ⟨isHolder ▸ last, isHolder⟩
      · obtain ⟨user, userMember, uses⟩ := usage_ne_zero_iff.mp used
        refine usage_ne_zero_iff.mpr ⟨user, ?_, uses⟩
        rw [removedEntries, List.mem_filter]
        refine ⟨userMember, ?_⟩
        have different : user.id ≠ entry.id := by
          intro same
          have isEntry := Coherent.eq_of_pairwise_lt ids (erased.mem_entries.mp userMember).1
            member same
          subst isEntry
          rcases uses with held | ⟨own, -⟩
          · exact isHolder held.symm
          · exact other own.symm
        simpa using different
  have directoriesAfter :
      (eraseUnused removed entry.directoryId).directories =
        removed.directories.filter fun row =>
          ¬(removed.usage entry.directoryId = 0 ∧ row.id = entry.directoryId) := by
    unfold eraseUnused
    split
    · rename_i last
      rw [removeDirectory]
      apply List.filter_congr
      intro row _
      by_cases same : row.id = entry.directoryId <;> simp [same, last]
    · rename_i notLast
      symm
      rw [List.filter_eq_self]
      intro row _
      simp [notLast]
  have rest :
      (eraseUnused removed entry.directoryId).parts = tables.parts ∧
        (eraseUnused removed entry.directoryId).targets = tables.targets ∧
          (eraseUnused removed entry.directoryId).links = tables.links ∧
            (eraseUnused removed entry.directoryId).lastEntryId = tables.lastEntryId ∧
              (eraseUnused removed entry.directoryId).lastPartId = tables.lastPartId ∧
                (eraseUnused removed entry.directoryId).entries = removed.entries := by
    rw [← around]
    unfold eraseUnused
    split <;> exact ⟨rfl, rfl, rfl, rfl, rfl, rfl⟩
  obtain ⟨parts, targets, links, lastEntryId, lastPartId, entriesAfter⟩ := rest
  refine ⟨?_, ?_, parts.trans erased.parts, targets.trans erased.targets,
    links.trans erased.links, lastEntryId.trans erased.lastEntryId,
    lastPartId.trans erased.lastPartId, ?_⟩
  · rw [entriesAfter, removedEntries, erased.entries, List.filter_filter]
    refine filter_eq_of_iff fun other _ => ?_
    rw [Bool.and_eq_true, decide_eq_true_eq, decide_eq_true_eq, bne_iff_ne, List.mem_cons, not_or]
    tauto
  · rw [directoriesAfter, removedDirectories, erased.directories, List.filter_filter,
      List.filter_filter]
    refine filter_eq_of_iff fun row _ => ?_
    have used := stillUsed row.id
    rw [Bool.and_eq_true, Bool.and_eq_true, decide_eq_true_eq, decide_eq_true_eq,
      decide_eq_true_eq, bne_iff_ne, sameUsage]
    tauto
  · intro other otherMember held
    rcases List.mem_cons.mp held with isEntry | alreadyGone
    · by_contra left
      have stays : other ∈ tables.entries := by
        refine erased.mem_entries.mpr ⟨otherMember, ?_, ?_⟩
        · exact fun isFile => left (.inl isFile)
        · exact fun isGone => left (.inr (List.mem_cons_of_mem _ isGone))
      exact usage_ne_zero_of_mem stays (isEntry ▸ unused)
    · rcases erased.closed other otherMember alreadyGone with isFile | isGone
      · exact .inl isFile
      · exact .inr (List.mem_cons_of_mem _ isGone)

/-! ## Round by round -/

/-- One round erases some of the directories and leaves the others. A round that erases none
has found all of them used. -/
theorem eraseRound
    (ids : (before.entries.map (·.id)).Pairwise (· < ·))
    (erased : Erased before files gone tables)
    {directories : List Entry}
    (members : ∀ entry ∈ directories, entry ∈ before.entries) :
    ∃ new,
      Erased before files (new ++ gone) (Txn.eraseRound tables directories).2.2 ∧
        (Txn.eraseRound tables directories).2.1 = new.length ∧
          (new ++ (Txn.eraseRound tables directories).1.map (·.id)).Perm
            (directories.map (·.id)) ∧
          (Txn.eraseRound tables directories).1.Sublist directories ∧
            (new = [] →
              (Txn.eraseRound tables directories).2.2 = tables ∧
                ∀ entry ∈ directories, tables.usage entry.id ≠ 0) := by
  induction directories generalizing tables gone with
  | nil =>
      exact ⟨[], erased, rfl, .refl _, .refl _, fun _ => ⟨rfl, by simp⟩⟩
  | cons entry rest inductionHypothesis =>
      have restMembers : ∀ other ∈ rest, other ∈ before.entries :=
        fun other member => members other (List.mem_cons_of_mem _ member)
      rw [Txn.eraseRound]
      cases step : eraseDirectory? tables entry with
      | some after =>
          obtain ⟨new, isErased, count, perm, sublist, -⟩ :=
            inductionHypothesis (erased.eraseDirectory ids (members entry (by simp)) step)
              restMembers
          refine ⟨new ++ [entry.id], ?_, ?_, ?_, sublist.cons _, ?_⟩
          · rw [List.append_assoc]
            exact isErased
          · simp [count]
          · rw [List.append_assoc, List.map_cons]
            exact List.perm_middle.trans (perm.cons _)
          · simp
      | none =>
          obtain ⟨new, isErased, count, perm, sublist, unchanged⟩ :=
            inductionHypothesis erased restMembers
          refine ⟨new, isErased, count, ?_, sublist.cons_cons _, ?_⟩
          · rw [List.map_cons, List.map_cons]
            exact List.perm_middle.trans (perm.cons _)
          · intro none
            obtain ⟨same, used⟩ := unchanged none
            refine ⟨same, fun other member => ?_⟩
            rcases List.mem_cons.mp member with rfl | later
            · intro unused
              simp [eraseDirectory?, unused] at step
            · exact used other later

/-- With more rounds than directories, all that is left in the end is used. -/
theorem eraseRounds
    (ids : (before.entries.map (·.id)).Pairwise (· < ·))
    {rounds : Nat}
    {directories : List Entry}
    (erased : Erased before files gone tables)
    (members : ∀ entry ∈ directories, entry ∈ before.entries)
    (enough : directories.length < rounds) :
    ∃ new left,
      Erased before files (new ++ gone) (Txn.eraseRounds rounds directories tables).2 ∧
        (Txn.eraseRounds rounds directories tables).1 = new.length ∧
          (new ++ left).Perm (directories.map (·.id)) ∧
            ∀ id ∈ left, (Txn.eraseRounds rounds directories tables).2.usage id ≠ 0 := by
  induction rounds generalizing directories tables gone with
  | zero =>
      omega
  | succ rounds inductionHypothesis =>
      obtain ⟨new, isErased, count, perm, sublist, unchanged⟩ := erased.eraseRound ids members
      rw [Txn.eraseRounds]
      rcases round : Txn.eraseRound tables directories with ⟨remaining, number, final⟩
      rw [round] at isErased count perm sublist unchanged
      dsimp only at isErased count perm sublist unchanged
      cases number with
      | zero =>
          obtain rfl := List.eq_nil_of_length_eq_zero count.symm
          obtain ⟨rfl, used⟩ := unchanged rfl
          refine ⟨[], directories.map (·.id), isErased, rfl, .refl _, ?_⟩
          intro id member
          obtain ⟨entry, entryMember, rfl⟩ := List.mem_map.mp member
          exact used entry entryMember
      | succ number =>
          have fewer : remaining.length < rounds := by
            have lengths := perm.length_eq
            simp only [List.length_append, List.length_map] at lengths
            omega
          obtain ⟨more, left, isErasedAfter, countAfter, permAfter, used⟩ :=
            inductionHypothesis isErased
              (fun entry member => members entry (sublist.subset member)) fewer
          refine ⟨more ++ new, left, ?_, ?_, ?_, used⟩
          · rw [List.append_assoc]
            exact isErasedAfter
          · simp only [List.length_append]
            omega
          · refine .trans ?_ perm
            rw [List.append_assoc]
            refine List.perm_append_comm_assoc more new left |>.trans ?_
            exact permAfter.append_left new

end Erased

/-! ## The whole sweep -/

/-- Asking in order picks some of the entries. -/
theorem Selector.filterFrom_sublist
    (select : Selector)
    (asked entries : List TrashEntry) :
    (select.filterFrom asked entries).Sublist entries := by
  induction entries generalizing asked with
  | nil =>
      exact .refl _
  | cons entry rest inductionHypothesis =>
      rw [Selector.filterFrom]
      split
      · exact (inductionHypothesis _).cons_cons _
      · exact (inductionHypothesis _).cons _

/-- The trashed files, which a sweep asks about in this order. -/
def asked (tables : Tables) : List TrashEntry :=
  tables.trash.filter fun trashed => !trashed.entry.isDirectory

/-- The trashed files that a sweep removes. -/
def accepted (select? : Option Selector) (tables : Tables) : List TrashEntry :=
  match select? with
  | some select => select.filter (asked tables)
  | none => []

/-- The trashed directories, which a sweep removes as far as nothing uses them. -/
def trashedDirectories (tables : Tables) : List Entry :=
  (tables.trash.filter fun trashed => trashed.entry.isDirectory).map (·.entry)

/-- What is listed in the trash is a trashed entry with the path of its directory. -/
theorem mem_trash_iff
    {trashed : TrashEntry} :
    trashed ∈ tables.trash ↔
      trashed.entry ∈ tables.entries ∧ trashed.entry.isDeleted = true ∧
        tables.directoryPath? trashed.entry.directoryId = some trashed.directory := by
  obtain ⟨directory, entry⟩ := trashed
  simp only [trash, List.mem_filterMap, List.mem_map, List.mem_filter, exists_exists_and_eq_and]
  constructor
  · rintro ⟨other, ⟨member, deleted⟩, isPlaced⟩
    simp only [Placed.trashEntry?, place, Option.map_eq_some_iff] at isPlaced
    obtain ⟨path, isPath, same⟩ := isPlaced
    cases same
    exact ⟨member, deleted, isPath⟩
  · rintro ⟨member, deleted, isPath⟩
    exact ⟨entry, ⟨member, deleted⟩, by simp [Placed.trashEntry?, place, isPath]⟩

/-- The listed entries are in the order of the table. -/
theorem map_entry_trash_sublist
    (tables : Tables) :
    (tables.trash.map (·.entry)).Sublist tables.entries := by
  have shape :
      ∀ rows : List Entry,
        (((rows.map tables.place).filterMap Placed.trashEntry?).map (·.entry)).Sublist rows := by
    intro rows
    induction rows with
    | nil =>
        exact .refl _
    | cons entry rest inductionHypothesis =>
        cases isPath : tables.directoryPath? entry.directoryId with
        | none =>
            simp only [List.map_cons, List.filterMap_cons, Placed.trashEntry?, place, isPath,
              Option.map_none]
            exact inductionHypothesis.cons _
        | some path =>
            simp only [List.map_cons, List.filterMap_cons, Placed.trashEntry?, place, isPath,
              Option.map_some]
            exact inductionHypothesis.cons_cons _
  exact (shape _).trans List.filter_sublist

/-- The trash is listed by ascending id. -/
theorem pairwise_trash
    (coherent : tables.Coherent) :
    (tables.trash.map (·.entry.id)).Pairwise (· < ·) := by
  have sublist := (map_entry_trash_sublist tables).map (·.id)
  rw [List.map_map] at sublist
  exact coherent.ids.sublist sublist

/-- A sweep asks by ascending id. -/
theorem pairwise_asked
    (coherent : tables.Coherent) :
    ((asked tables).map (·.entry.id)).Pairwise (· < ·) :=
  (pairwise_trash coherent).sublist (List.filter_sublist.map _)

/-- What is taken away is no longer listed. -/
theorem trash_withoutFiles
    (tables : Tables)
    (ids : List Int) :
    (withoutFiles tables ids).trash =
      tables.trash.filter fun trashed => trashed.entry.id ∉ ids := by
  have listed (entry : Entry) :
      (if decide (entry.id ∉ ids) = true then Placed.trashEntry? (tables.place entry) else none) =
        Option.filter (fun trashed => trashed.entry.id ∉ ids)
          (Placed.trashEntry? (tables.place entry)) := by
    rw [Placed.trashEntry?, place]
    cases tables.directoryPath? entry.directoryId <;> by_cases taken : entry.id ∈ ids <;>
      simp [taken, Option.filter]
  rw [trash, trash, List.filter_filterMap, List.filterMap_map, List.filterMap_map, withoutFiles,
    List.filter_filter, List.filter_congr fun entry _ => Bool.and_comm _ _, ← List.filter_filter,
    List.filterMap_filter]
  exact List.filterMap_congr fun entry _ => listed entry

/-- What is accepted is among what was asked about. -/
theorem accepted_sublist
    (select? : Option Selector)
    (tables : Tables) :
    (accepted select? tables).Sublist (asked tables) := by
  cases select? with
  | none =>
      exact List.nil_sublist _
  | some select =>
      exact select.filterFrom_sublist [] _

/-- A file that is accepted is a trashed one. -/
theorem of_mem_accepted
    {select? : Option Selector}
    {trashed : TrashEntry}
    (member : trashed ∈ accepted select? tables) :
    trashed.entry ∈ tables.entries ∧ trashed.entry.isDeleted = true ∧
      trashed.entry.isDirectory = false := by
  have listed := (accepted_sublist select? tables).subset member
  obtain ⟨inTrash, isFile⟩ := List.mem_filter.mp listed
  obtain ⟨entryMember, deleted, -⟩ := mem_trash_iff.mp inTrash
  exact ⟨entryMember, deleted, by simpa using isFile⟩

/-- A directory that may be removed is a trashed one. -/
theorem of_mem_trashedDirectories
    {entry : Entry}
    (member : entry ∈ trashedDirectories tables) :
    entry ∈ tables.entries ∧ entry.isDeleted = true ∧ entry.isDirectory = true := by
  obtain ⟨trashed, listed, rfl⟩ := List.mem_map.mp member
  obtain ⟨inTrash, isDirectory⟩ := List.mem_filter.mp listed
  obtain ⟨entryMember, deleted, -⟩ := mem_trash_iff.mp inTrash
  exact ⟨entryMember, deleted, isDirectory⟩

/-- What comes of a sweep: the accepted files are erased, and of the trashed directories those
that are unused in the end. -/
structure Collected (before : Tables) (files gone : List Int) (after : Tables) : Prop
    extends Erased before files gone after where
  isFile :
    ∀ id ∈ files,
      ∃ entry ∈ before.entries,
        entry.id = id ∧ entry.isDeleted = true ∧ entry.isDirectory = false
  isDirectory :
    ∀ id ∈ gone,
      ∃ entry ∈ before.entries,
        entry.id = id ∧ entry.isDeleted = true ∧ entry.isDirectory = true
  used :
    ∀ entry ∈ trashedDirectories before,
      entry.id ∉ gone →
      after.usage entry.id ≠ 0
  filesNodup : files.Nodup
  goneNodup : gone.Nodup

/-- The tables after the first two phases of a sweep. -/
def pruned (select? : Option Selector) (tables : Tables) : Tables :=
  let emptied := withoutFiles tables ((accepted select? tables).map (·.entry.id))
  emptied.directoryIds.foldl eraseUnused emptied

/-- A sweep is its first two phases and then the rounds. -/
theorem sweepTables_eq
    (select? : Option Selector)
    (tables : Tables) :
    sweepTables select? tables =
      (((accepted select? tables).length,
        (Txn.eraseRounds ((trashedDirectories tables).length + 1) (trashedDirectories tables)
          (pruned select? tables)).1),
        (Txn.eraseRounds ((trashedDirectories tables).length + 1) (trashedDirectories tables)
          (pruned select? tables)).2) := by
  unfold sweepTables pruned
  rw [List.partition_eq_filter_filter]
  dsimp only
  rw [← foldl_eraseFile, trashedDirectories, List.length_map]
  cases select? <;> rfl

/-- A sweep comes to its end and counts what it erased. -/
theorem sweepTables_collected
    (coherent : before.Coherent)
    (select? : Option Selector) :
    ∃ gone,
      Collected before ((accepted select? before).map (·.entry.id)) gone
          (sweepTables select? before).2 ∧
        (sweepTables select? before).1 = ((accepted select? before).length, gone.length) := by
  have ordered := pairwise_trash coherent
  have members : ∀ entry ∈ trashedDirectories before, entry ∈ before.entries :=
    fun entry member => (of_mem_trashedDirectories member).1
  obtain ⟨gone, left, erased, count, perm, used⟩ :=
    (Erased.pruned before ((accepted select? before).map (·.entry.id))).eraseRounds coherent.ids
      members (Nat.lt_succ_self _)
  have distinct : (gone ++ left).Nodup := by
    rw [perm.nodup_iff, trashedDirectories, List.map_map]
    exact (ordered.sublist (List.filter_sublist.map _)).imp Int.ne_of_lt
  rw [List.append_nil] at erased
  rw [sweepTables_eq]
  refine ⟨gone, ⟨erased, ?_, ?_, ?_, ?_, (List.nodup_append.mp distinct).1⟩,
    congrArg (Prod.mk _) count⟩
  · intro id member
    obtain ⟨trashed, isAccepted, rfl⟩ := List.mem_map.mp member
    obtain ⟨entryMember, deleted, isFile⟩ := of_mem_accepted isAccepted
    exact ⟨_, entryMember, rfl, deleted, isFile⟩
  · intro id member
    have listed := perm.subset (List.mem_append_left left member)
    obtain ⟨entry, entryMember, rfl⟩ := List.mem_map.mp listed
    obtain ⟨entryMember, deleted, isDirectory⟩ := of_mem_trashedDirectories entryMember
    exact ⟨entry, entryMember, rfl, deleted, isDirectory⟩
  · intro entry member notGone
    have listed := perm.symm.subset (List.mem_map_of_mem (f := (·.id)) member)
    rcases List.mem_append.mp listed with isGone | isLeft
    · exact (notGone isGone).elim
    · exact used _ isLeft
  · have sublist := (accepted_sublist select? before).trans List.filter_sublist
    exact (ordered.sublist (sublist.map _)).imp Int.ne_of_lt

namespace Collected

variable {after : Tables}

/-- A live entry is left. -/
theorem live_mem
    (collected : Collected before files gone after)
    (coherent : before.Coherent)
    {entry : Entry}
    (member : entry ∈ before.entries)
    (live : entry.isDeleted = false) :
    entry ∈ after.entries := by
  refine collected.mem_entries.mpr ⟨member, fun isFile => ?_, fun isGone => ?_⟩
  · obtain ⟨other, otherMember, same, deleted, -⟩ := collected.isFile _ isFile
    rw [coherent.entry_eq otherMember member same, live] at deleted
    exact Bool.false_ne_true deleted
  · obtain ⟨other, otherMember, same, deleted, -⟩ := collected.isDirectory _ isGone
    rw [coherent.entry_eq otherMember member same, live] at deleted
    exact Bool.false_ne_true deleted

/-- No directory is erased as a file. -/
theorem notMem_files
    (collected : Collected before files gone after)
    (coherent : before.Coherent)
    {entry : Entry}
    (member : entry ∈ before.entries)
    (isDirectory : entry.isDirectory = true) :
    entry.id ∉ files := by
  intro isFile
  obtain ⟨other, otherMember, same, -, kind⟩ := collected.isFile _ isFile
  rw [coherent.entry_eq otherMember member same, isDirectory] at kind
  exact Bool.false_ne_true kind.symm

/-- No file is erased as a directory. -/
theorem notMem_gone
    (collected : Collected before files gone after)
    (coherent : before.Coherent)
    {entry : Entry}
    (member : entry ∈ before.entries)
    (isFile : entry.isDirectory = false) :
    entry.id ∉ gone := by
  intro isGone
  obtain ⟨other, otherMember, same, -, kind⟩ := collected.isDirectory _ isGone
  rw [coherent.entry_eq otherMember member same, isFile] at kind
  exact Bool.false_ne_true kind

/-- The directory that a row belongs to is left as long as the row is. -/
theorem owner_mem
    (collected : Collected before files gone after)
    (coherent : before.Coherent)
    {entry : Entry}
    (member : entry ∈ before.entries)
    (isDirectory : entry.isDirectory = true)
    (used : after.usage entry.id ≠ 0) :
    entry ∈ after.entries := by
  refine collected.mem_entries.mpr
    ⟨member, collected.notMem_files coherent member isDirectory, fun isGone => ?_⟩
  obtain ⟨user, userMember, uses⟩ := usage_ne_zero_iff.mp used
  obtain ⟨userBefore, notFile, notGone⟩ := collected.mem_entries.mp userMember
  rcases uses with held | ⟨own, -⟩
  · rcases collected.closed user userBefore (held ▸ isGone) with isFile | userGone
    · exact notFile isFile
    · exact notGone userGone
  · exact notGone (own ▸ isGone)

/-- A row is left as long as something lies in its directory. -/
theorem row_mem
    (collected : Collected before files gone after)
    {entry : Entry}
    (member : entry ∈ after.entries)
    {row : Directory}
    (rowMember : row ∈ before.directories)
    (holds : row.id = entry.directoryId) :
    row ∈ after.directories :=
  collected.mem_directories.mpr ⟨rowMember, holds ▸ usage_ne_zero_of_mem member⟩

/-- A sweep takes nothing away that the tree needs. -/
theorem thinned
    (collected : Collected before files gone after)
    (coherent : before.Coherent) :
    Thinned before after where
  entries := by
    rw [collected.entries]
    exact List.filter_sublist
  directories := by
    rw [collected.directories]
    exact List.filter_sublist
  lastEntryId := collected.lastEntryId
  top entry member isRoot :=
    collected.live_mem coherent member (coherent.isTop member isRoot).live
  owned row rowMember entry member same := by
    obtain ⟨rowBefore, used⟩ := collected.mem_directories.mp rowMember
    obtain ⟨owner, ownerMember, owns, isDirectory⟩ := coherent.owned row rowBefore
    rw [coherent.entry_eq member ownerMember (same.trans owns.symm)]
    exact collected.owner_mem coherent ownerMember isDirectory (owns ▸ used)
  housed entry live row rowMember owns := by
    refine collected.mem_directories.mpr ⟨rowMember, ?_⟩
    exact usage_ne_zero_iff.mpr ⟨entry, live.member, .inr ⟨owns.symm, live.live⟩⟩
  placed _ _ _ _ isLive _ :=
    collected.live_mem coherent isLive.member isLive.live
  rowed _ member _ _ held _ rowMember owns :=
    collected.row_mem member rowMember (owns.trans held)

end Collected

end VersionStore.Txn

namespace VersionStore.Tables

/-- A sweep keeps sound tables sound. -/
theorem Sound.sweepTables
    {tables : Tables}
    {strict : Prop}
    {known : List Entry}
    (sound : tables.Sound strict known)
    (select? : Option Txn.Selector) :
    (Txn.sweepTables select? tables).2.Sound strict known := by
  obtain ⟨gone, collected, -⟩ := Txn.sweepTables_collected sound.coherent select?
  exact sound.thinned (collected.thinned sound.coherent)
    fun _ entry member row rowMember holds => collected.row_mem member rowMember holds

end VersionStore.Tables
