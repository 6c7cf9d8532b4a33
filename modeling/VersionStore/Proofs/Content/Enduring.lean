import VersionStore.Proofs.Content.Carried
import VersionStore.Proofs.Tree.Writing

namespace VersionStore

/-!
# Conditions that endure

Calls change tables by a few kinds of edits. A condition endures them when no edit breaks it
that touches only rows and contents which may be touched. Whatever calls are made then, and
whether they succeed or not, the condition goes on to hold.
-/

namespace Tables

variable {rows contents : Int → Prop} {holds : Tables → Prop}

/-- A condition endures the edits that put files and directories into the trash and remove them,
where they touch no other rows and contents than these. -/
structure EnduresRemoving (rows contents : Int → Prop) (holds : Tables → Prop) : Prop where
  /-- What is live may be touched, and so may directories. -/
  touchable :
    ∀ tables,
      holds tables →
      ∀ entry ∈ tables.entries,
        entry.isDeleted = false ∨ entry.isDirectory = true →
        rows entry.id
  /-- What goes to the trash may lose its content there. -/
  trashed :
    ∀ tables id now,
      rows id →
      contents id →
      holds tables →
      holds (tables.trashEntry id now)
  elsewhere :
    ∀ tables directories targets links,
      holds tables →
      holds { tables with directories, targets, links }
  removed :
    ∀ tables id,
      rows id →
      holds tables →
      holds (tables.removeEntry id)
  removedFile :
    ∀ tables id,
      rows id →
      contents id →
      holds tables →
      holds (((tables.removeEntry id).removeParts id).removeLinks id)

/-- A condition endures the edits of the tree that touch no other rows and contents than
these. -/
structure Endures (rows contents : Int → Prop) (holds : Tables → Prop) : Prop
    extends EnduresRemoving rows contents holds where
  added :
    ∀ tables entry,
      entry.length = 0 →
      entry.checksum = none →
      holds tables →
      holds (tables.addEntry entry).2
  modified :
    ∀ tables id (change : Entry → Entry),
      rows id →
      (∀ entry : Entry,
        entry.SameContent (change entry) ∧ (change entry).isDeleted = entry.isDeleted) →
      holds tables →
      holds (tables.modifyEntry id change)

/-- A condition endures the edits that make directories. -/
structure Grows (holds : Tables → Prop) : Prop where
  added :
    ∀ tables entry,
      entry.length = 0 →
      entry.checksum = none →
      holds tables →
      holds (tables.addEntry entry).2
  directories : ∀ tables directories, holds tables → holds { tables with directories }

/-- A condition that endures the edits of the tree endures those that make directories. -/
theorem Endures.grows
    (endures : Endures rows contents holds) :
    Grows holds where
  added := endures.added
  directories tables directories := endures.elsewhere tables directories tables.targets tables.links

/-- A condition endures the edits that give a file its content. -/
structure EnduresStoring (rows contents : Int → Prop) (holds : Tables → Prop) : Prop where
  recorded :
    ∀ tables id length modified checksum,
      rows id →
      holds tables →
      holds (tables.recordContent id length modified checksum)
  stored :
    ∀ tables (part : Part),
      contents part.fileId →
      part.id = tables.lastPartId + 1 →
      holds tables →
      holds { tables with parts := tables.parts ++ [part], lastPartId := part.id }
  replaced :
    ∀ tables id data,
      (∀ part ∈ tables.parts, part.id = id → contents part.fileId) →
      holds tables →
      holds (tables.replacePart id data)

/-- A condition endures the edits that make files with their contents as well. -/
structure EnduresWriting (rows contents : Int → Prop) (holds : Tables → Prop) : Prop
    extends Endures rows contents holds, EnduresStoring rows contents holds where
  fresh :
    ∀ tables,
      holds tables →
      rows (tables.lastEntryId + 1) ∧ contents (tables.lastEntryId + 1)
  created : ∀ tables entry, holds tables → holds (tables.addEntry entry).2

/-- A live row has this id. -/
def HasLive (tables : Tables) (id : Int) : Prop :=
  ∃ entry ∈ tables.entries, entry.id = id ∧ entry.isDeleted = false

/-- What is looked up by its name is a live row. -/
theorem mem_of_lookup?
    {tables : Tables}
    {directory name : String}
    {entry : Entry}
    (found : tables.lookup? directory name = some entry) :
    entry ∈ tables.entries ∧ entry.isDeleted = false := by
  have isFound := List.find?_some found
  simp only [Bool.and_eq_true, Bool.not_eq_true'] at isFound
  exact ⟨List.mem_of_find?_eq_some found, isFound.1.2⟩

/-- A condition that endures the storing of parts endures the copying of many. -/
theorem EnduresWriting.addCopies
    (endures : EnduresWriting rows contents holds)
    {tables : Tables}
    {id : Int}
    (touched : contents id)
    (copied : List Part)
    (before : holds tables) :
    holds (tables.addCopies id copied) := by
  induction copied generalizing tables with
  | nil =>
      exact before
  | cons part rest inductionHypothesis =>
      apply inductionHypothesis
      exact endures.stored tables { part with id := tables.lastPartId + 1, fileId := id } touched
        rfl before

end Tables

namespace Txn

open Tables VersionStore.Action

variable
  {setting : Setting}
  {rows contents : Int → Prop}
  {holds : Tables → Prop}
  {entry : Entry}

/-! ## Making directories -/

section Growing

variable (grows : Grows holds)

include grows

theorem addDirectory_grows
    (id : Int)
    (path : String) :
    Keeps setting holds (Action.addDirectory id path) := by
  refine .addDirectory fun tables before => ?_
  unfold Tables.addDirectory
  split
  · exact before
  · exact grows.directories tables _ before

theorem makeDirectory_grows
    (now parent : Int)
    (path : String)
    (name : Name) :
    Keeps setting holds (makeDirectory now parent path name) := by
  refine .bind (fun _ => holds) (.insert fun tables => ?_) fun id => ?_
  · exact grows.added tables _ rfl rfl
  · exact .bind _ (addDirectory_grows grows id path) fun _ => .pure fun _ stays => stays

theorem makeAlong_grows
    (now directory : Int)
    (steps : List (String × Name)) :
    Keeps setting holds (makeAlong now directory steps) := by
  induction steps generalizing directory with
  | nil =>
      exact .pure fun _ stays => stays
  | cons step rest inductionHypothesis =>
      obtain ⟨path, name⟩ := step
      refine .bind (fun _ => holds) (.query fun _ stays => stays) fun found => ?_
      cases found with
      | some entry =>
          exact .ite (fun _ => inductionHypothesis _) fun _ => .throw fun _ stays => stays
      | none =>
          exact .bind _ (makeDirectory_grows grows now directory path name) fun id =>
            inductionHypothesis id

theorem makeDirectoriesAt_grows
    (now : Int)
    (path : CleanPath) :
    Keeps setting holds (makeDirectoriesAt now path) :=
  makeAlong_grows grows now _ _

theorem makeDirectories_grows
    (now : Int)
    (text : String) :
    Keeps setting holds (makeDirectories now text) :=
  .bind _ (clean_keeps text) fun path => makeDirectoriesAt_grows grows now path

theorem snapshotDirectory_grows
    (now : Int)
    (names : List Name) :
    Keeps setting holds (snapshotDirectory now names) := by
  induction names with
  | nil =>
      rw [snapshotDirectory]
      refine .bind (fun _ => holds) (.query fun _ stays => stays) fun found => ?_
      cases found with
      | some id =>
          exact .pure fun _ stays => stays
      | none =>
          exact .throw fun _ stays => stays
  | cons name before inductionHypothesis =>
      rw [snapshotDirectory]
      refine .bind (fun _ => holds) (.query fun _ stays => stays) fun found => ?_
      cases found with
      | some id =>
          exact .pure fun _ stays => stays
      | none =>
          refine .bind _ inductionHypothesis fun parent => ?_
          refine .bind (fun _ => holds) (.insert fun tables => ?_) fun id => ?_
          · exact grows.added tables _ rfl rfl
          · exact .bind _ (addDirectory_grows grows id _) fun _ => .pure fun _ stays => stays

end Growing

/-! ## Deleting and pruning -/

section Deleting

variable (endures : EnduresRemoving rows contents holds)

include endures

theorem pruneRow_endures
    (touched : rows entry.id)
    (emptied : contents entry.id) :
    Keeps setting holds (pruneRow entry) := by
  refine pruneRow_works fun tables before => ?_
  split
  · exact endures.elsewhere _ _ tables.targets tables.links
      (endures.removed tables entry.id touched before)
  · exact endures.removedFile tables entry.id touched emptied before

theorem trashRow_endures
    (now : Int)
    (touched : rows entry.id)
    (emptied : contents entry.id) :
    Keeps setting holds (trashRow now entry) :=
  trashRow_works fun tables => endures.trashed tables entry.id now touched emptied

/-- A deletion takes the lock that is not shared, so no one has the file open who minds. -/
theorem deleteExisting_endures
    (now : Int)
    (touched : rows entry.id)
    (emptied : ¬setting.held entry.id → contents entry.id) :
    Keeps setting holds (deleteExisting now entry) := by
  refine .lockedAlone (fun _ alone => .get fun store _ => ?_) fun _ stays => stays
  refine .ite (fun _ => .bind (fun _ => holds) ?_ fun _ => .pure fun _ stays => stays)
    fun _ => .bind (fun _ => holds) ?_ fun _ => .pure fun _ stays => stays
  · exact Works.asking (trashRow_endures endures now touched (emptied (alone rfl)))
      fun _ before => before.1
  · exact Works.asking (pruneRow_endures endures touched (emptied (alone rfl)))
      fun _ before => before.1

theorem deleteEntry_endures
    (now : Int)
    (touched : rows entry.id)
    (emptied : ¬setting.held entry.id → contents entry.id) :
    Keeps setting holds (deleteEntry now entry) := by
  refine .ite (fun _ => .pure fun _ stays => stays) fun _ => ?_
  refine .bind (fun _ => holds) (.query fun _ stays => stays) fun empty => ?_
  exact .ite (fun _ => .pure fun _ stays => stays) fun _ =>
    deleteExisting_endures endures now touched emptied

/-- What is live at a path may be touched. -/
theorem entryAt?_endures
    (path : CleanPath) :
    Works setting holds (entryAt? path)
      (fun found tables => holds tables ∧ ∀ entry, found = some entry → rows entry.id)
      fun _ => holds := by
  refine .entryAt? fun tables before => ⟨before, fun entry found => ?_⟩
  obtain ⟨member, live⟩ := mem_of_lookup? found
  exact endures.touchable tables before entry member (.inl live)

theorem stat_endures
    (text : String) :
    Works setting holds (stat text)
      (fun found tables => holds tables ∧ ∀ entry, found = some entry → rows entry.id)
      fun _ => holds :=
  .bind _ (clean_keeps text) fun path => entryAt?_endures endures path

theorem delete_endures
    (now : Int)
    (text : String)
    (claimed : ∀ id, rows id → ¬setting.held id → contents id) :
    Keeps setting holds (delete now text) := by
  refine .bind _ (stat_endures endures text) fun found => ?_
  cases found with
  | some entry =>
      refine .assuming (rows entry.id) (fun _ before => before.2 entry rfl) fun touched => ?_
      exact Works.asking (deleteEntry_endures endures now touched (claimed _ touched))
        fun _ before => before.1
  | none =>
      exact .pure fun _ before => before.1

theorem prune_endures
    (now : Int)
    (touched : rows entry.id)
    (emptied : contents entry.id) :
    Keeps setting holds (prune now entry) := by
  refine .ite (fun _ => ?_) fun _ => ?_
  · refine .bind (fun _ => holds) (.query fun _ stays => stays) fun empty => ?_
    refine .ite (fun _ => ?_) fun _ => .pure fun _ stays => stays
    exact .bind _ (trashRow_endures endures now touched emptied) fun _ => .pure fun _ stays => stays
  · exact .bind _ (pruneRow_endures endures touched emptied) fun _ => .pure fun _ stays => stays

end Deleting

/-! ## Moving and attributes -/

section Edits

variable (endures : Endures rows contents holds)

include endures

theorem moveTo_endures
    (now : Int)
    (target source : String)
    (time? : Option Int) :
    Keeps setting holds (moveTo now target source time?) := by
  refine .bind _ (clean_keeps target) fun target => .bind _ (clean_keeps source) fun source => ?_
  refine .bind (fun entry tables => holds tables ∧ rows entry.id) ?_ fun entry => ?_
  · refine .bind _ (entryAt?_endures endures.toEnduresRemoving source) fun found => .require ?_ ?_
    · exact fun value isValue _ before => ⟨before.1, before.2 value isValue⟩
    · exact fun _ _ before => before.1
  refine .assuming (rows entry.id) (fun _ before => before.2) fun touched => ?_
  refine .bind (fun _ => holds) (.entryAt? fun _ before => before.1) fun taken => ?_
  simp only [throw_bind]
  refine .ite (fun _ => .throw fun _ stays => stays) fun _ => ?_
  refine .ite (fun _ => .throw fun _ stays => stays) fun _ =>
    .locked (fun _ => ?_) fun _ stays => stays
  refine .bind _ (makeDirectoriesAt_grows endures.grows now _) fun parent => ?_
  refine .bind (fun _ => holds) (.update fun tables before => ?_) fun _ =>
    requireEntry?_keeps entry.id _
  have moved : holds (tables.moveEntry entry.id parent target.name (time?.getD now)) :=
    endures.modified tables entry.id _ touched (fun _ => ⟨⟨rfl, rfl, rfl, rfl⟩, rfl⟩) before
  split
  · obtain ⟨directories, isResult, -⟩ := rewritePaths_eq _ _ _
    rw [renameTree, isResult]
    exact endures.elsewhere _ directories _ _ moved
  · exact moved

theorem changeAt_endures
    (text : String)
    {change : Tables → Int → Tables}
    (changed : ∀ tables id, rows id → holds tables → holds (change tables id)) :
    Keeps setting holds (changeAt text change) := by
  refine .bind _ (stat_endures endures.toEnduresRemoving text) fun found => ?_
  cases found with
  | some entry =>
      refine .assuming (rows entry.id) (fun _ before => before.2 entry rfl) fun touched => ?_
      exact .bind (fun _ => holds)
        (.update fun tables before => changed tables entry.id touched before.1) fun _ =>
          .pure fun _ stays => stays
  | none =>
      exact .pure fun _ before => before.1

theorem setLastModified_endures
    (text : String)
    (time : Int) :
    Keeps setting holds (setLastModified text time) :=
  changeAt_endures endures text fun tables id touched =>
    endures.modified tables id _ touched fun _ => ⟨⟨rfl, rfl, rfl, rfl⟩, rfl⟩

theorem setWritable_endures
    (text : String)
    (writable : Bool) :
    Keeps setting holds (setWritable text writable) :=
  changeAt_endures endures text fun tables id touched =>
    endures.modified tables id _ touched fun _ => ⟨⟨rfl, rfl, rfl, rfl⟩, rfl⟩

theorem endures_setLinks
    {tables : Tables}
    (id : Int)
    (targets : List String)
    (before : holds tables) :
    holds (tables.setLinks id targets) := by
  obtain ⟨targets, links, isResult⟩ := setLinks_eq id targets tables
  rw [isResult]
  exact endures.elsewhere tables tables.directories targets links before

theorem setLinks_endures
    (text : String)
    (targets : List String) :
    Keeps setting holds (setLinks text targets) :=
  changeAt_endures endures text fun _ id _ => endures_setLinks endures id targets

end Edits

/-! ## The sweep -/

section Sweeping

variable (endures : EnduresRemoving rows contents holds)

include endures

theorem endures_eraseDirectory?
    {tables erased : Tables}
    (touched : rows entry.id)
    (before : holds tables)
    (isErased : eraseDirectory? tables entry = some erased) :
    holds erased := by
  unfold eraseDirectory? eraseUnused at isErased
  split at isErased
  · cases isErased
  · have removed := endures.elsewhere _
      (tables.directories.filter (·.id != entry.id)) tables.targets tables.links
      (endures.removed tables entry.id touched before)
    cases isErased
    split
    · exact endures.elsewhere _ _ tables.targets tables.links removed
    · exact removed

theorem endures_eraseRound
    {tables : Tables}
    {directories : List Entry}
    (touched : ∀ entry ∈ directories, rows entry.id)
    (before : holds tables) :
    holds (eraseRound tables directories).2.2 ∧
      (eraseRound tables directories).1 ⊆ directories := by
  induction directories generalizing tables with
  | nil =>
      exact ⟨before, List.Subset.refl _⟩
  | cons entry rest inductionHypothesis =>
      have first := touched entry (by simp)
      have others : ∀ entry ∈ rest, rows entry.id :=
        fun other member => touched other (List.mem_cons_of_mem _ member)
      rw [eraseRound]
      cases erased : eraseDirectory? tables entry with
      | some left =>
          obtain ⟨after, fewer⟩ :=
            inductionHypothesis others (endures_eraseDirectory? endures first before erased)
          exact ⟨after, fun _ member => List.mem_cons_of_mem entry (fewer member)⟩
      | none =>
          obtain ⟨after, fewer⟩ := inductionHypothesis others before
          exact ⟨after, List.cons_subset_cons _ fewer⟩

theorem endures_eraseRounds
    {tables : Tables}
    {directories : List Entry}
    (rounds : Nat)
    (touched : ∀ entry ∈ directories, rows entry.id)
    (before : holds tables) :
    holds (eraseRounds rounds directories tables).2 := by
  induction rounds generalizing directories tables with
  | zero =>
      exact before
  | succ rounds inductionHypothesis =>
      obtain ⟨erased, fewer⟩ := endures_eraseRound endures touched before
      rw [eraseRounds]
      rcases round : eraseRound tables directories with ⟨left, count, final⟩
      rw [round] at erased fewer
      cases count with
      | zero =>
          exact erased
      | succ count =>
          exact inductionHypothesis (fun entry member => touched entry (fewer member)) erased

theorem endures_foldl_eraseFile
    {tables : Tables}
    {files : List TrashEntry}
    (touched : ∀ file ∈ files, rows file.entry.id ∧ contents file.entry.id)
    (before : holds tables) :
    holds (files.foldl (fun (left : Tables) file => eraseFile left file.entry.id) tables) := by
  induction files generalizing tables with
  | nil =>
      exact before
  | cons file rest inductionHypothesis =>
      obtain ⟨row, content⟩ := touched file (by simp)
      refine inductionHypothesis (fun other member => touched other (List.mem_cons_of_mem _ member)) ?_
      exact endures.removedFile tables file.entry.id row content before

/-- A sweep removes the files that it accepts, and else directories only. -/
theorem endures_sweepTables
    {tables : Tables}
    {select? : Option Selector}
    (touched :
      ∀ file ∈ accepted select? tables, rows file.entry.id ∧ contents file.entry.id)
    (before : holds tables) :
    holds (sweepTables select? tables).2 := by
  rw [sweepTables_eq, pruned, ← foldl_eraseFile, foldl_eraseUnused]
  refine endures_eraseRounds endures _ (fun entry member => ?_) ?_
  · obtain ⟨inTable, -, isDirectory⟩ := of_mem_trashedDirectories member
    exact endures.touchable tables before entry inTable (.inr isDirectory)
  · exact endures.elsewhere _ _ _ _ (endures_foldl_eraseFile endures touched before)

theorem sweep_endures
    (select? : Option Selector) :
    Works setting
      (fun tables =>
        holds tables ∧
          ∀ file ∈ accepted select? tables, rows file.entry.id ∧ contents file.entry.id)
      (sweep select?)
      (fun _ => holds)
      fun _ => holds := by
  refine .named fun start ⟨before, touched⟩ =>
    (sweep_works select? start).weaken (fun _ same => same) ?_ fun _ _ absurd => absurd.elim
  intro counts tables isResult
  have same : tables = (sweepTables select? start).2 :=
    congrArg Prod.snd isResult
  rw [same]
  exact endures_sweepTables endures touched before

end Sweeping

/-! ## Pruning the history -/

/-- Files were removed from some tables, and nothing but files. -/
def Pruned (start tables : Tables) : Prop :=
  tables.directories = start.directories ∧
    ∃ gone : Int → Bool, tables.entries = start.entries.filter fun entry => !gone entry.id

theorem Pruned.refl
    (tables : Tables) :
    Pruned tables tables :=
  ⟨rfl, fun _ => false, by simp⟩

theorem Pruned.removeFile
    {start tables : Tables}
    (pruned : Pruned start tables)
    (id : Int) :
    Pruned start (((tables.removeEntry id).removeParts id).removeLinks id) := by
  obtain ⟨directories, gone, entries⟩ := pruned
  refine ⟨directories, fun other => other == id || gone other, ?_⟩
  change tables.entries.filter (·.id != id) = _
  rw [entries, List.filter_filter]
  exact List.filter_congr fun entry _ => by simp [bne]

/-- The versions that are meant once others are gone were meant before. -/
theorem Pruned.versionsMeant_subset
    {start tables : Tables}
    (pruned : Pruned start tables)
    (all : Bool)
    (info : TrashEntry) :
    versionsMeant tables all info ⊆ versionsMeant start all info := by
  obtain ⟨directories, gone, entries⟩ := pruned
  intro version member
  obtain ⟨listed, isFile⟩ := List.mem_filter.mp member
  refine List.mem_filter.mpr ⟨?_, isFile⟩
  cases all with
  | true =>
      obtain ⟨trashed, isListed, rfl⟩ := List.mem_map.mp listed
      obtain ⟨⟨inTable, isTrashed, isPath⟩, rest⟩ := mem_versionsOf_iff.mp isListed
      refine List.mem_map_of_mem (mem_versionsOf_iff.mpr ⟨⟨?_, isTrashed, ?_⟩, rest⟩)
      · rw [entries] at inTable
        exact List.mem_of_mem_filter inTable
      · unfold directoryPath? directory? at isPath ⊢
        rwa [directories] at isPath
  | false =>
      rw [if_neg Bool.false_ne_true, Option.mem_toList] at listed ⊢
      unfold trashed? at listed ⊢
      have isId : version.id = info.entry.id := by
        have isFound := List.find?_some listed
        simp only [Bool.and_eq_true, beq_iff_eq] at isFound
        exact isFound.1
      have left : gone info.entry.id = false := by
        have inTable := List.mem_of_find?_eq_some listed
        rw [entries] at inTable
        simpa [isId] using (List.mem_filter.mp inTable).2
      rw [entries, List.find?_filter] at listed
      rw [← listed]
      congr 1
      funext other
      by_cases same : other.id = info.entry.id
      · simp [same, left]
      · simp [same]

section Pruning

variable (endures : EnduresRemoving rows contents holds)

include endures

theorem pruneRows_endures
    (start : Tables)
    {versions : List Entry}
    (touched :
      ∀ version ∈ versions,
        version.isDirectory = false ∧ rows version.id ∧ contents version.id) :
    Keeps setting (fun tables => holds tables ∧ Pruned start tables) (pruneRows versions) := by
  induction versions with
  | nil =>
      exact .pure fun _ stays => stays
  | cons version rest inductionHypothesis =>
      obtain ⟨isFile, row, content⟩ := touched version (by simp)
      refine .bind (fun _ tables => holds tables ∧ Pruned start tables)
        (pruneRow_works fun tables before => ?_) fun count => ?_
      · rw [if_neg (Bool.eq_false_iff.mp isFile)]
        exact ⟨endures.removedFile tables version.id row content before.1,
          before.2.removeFile version.id⟩
      · exact .bind _
          (inductionHypothesis fun other member => touched other (List.mem_cons_of_mem _ member))
          fun _ => .pure fun _ stays => stays

/-- Pruning removes the versions that entries stand for. -/
theorem pruneVersions_endures
    (start : Tables)
    (all : Bool)
    (infos : List TrashEntry)
    (touched :
      ∀ info ∈ infos,
        info.entry.isDirectory = false →
        ∀ version ∈ versionsMeant start all info, rows version.id ∧ contents version.id) :
    Keeps setting (fun tables => holds tables ∧ Pruned start tables) (pruneVersions all infos) := by
  induction infos with
  | nil =>
      exact .pure fun _ stays => stays
  | cons info rest inductionHypothesis =>
      have others :=
        inductionHypothesis fun other member => touched other (List.mem_cons_of_mem _ member)
      refine .ite (fun _ => others) fun isFile => ?_
      refine .bind
        (fun versions tables =>
          (holds tables ∧ Pruned start tables) ∧
            ∀ version ∈ versions,
              version.isDirectory = false ∧ rows version.id ∧ contents version.id)
        (.query fun tables before => ⟨before, fun version member => ?_⟩) fun versions => ?_
      · refine ⟨(of_mem_versionsMeant member).2.1, ?_⟩
        exact touched info (by simp) (Bool.eq_false_iff.mpr isFile) version
          (before.2.versionsMeant_subset all info member)
      · refine .assuming _ (fun _ before => before.2) fun files => ?_
        refine .bind _ ((pruneRows_endures endures start files).asking fun _ before => before.1)
          fun _ => .bind _ others fun _ => .pure fun _ stays => stays

theorem pruneHistory_endures
    (infos : List TrashEntry)
    (all : Bool) :
    Works setting
      (fun tables =>
        holds tables ∧
          ∀ info ∈ infos,
            info.entry.isDirectory = false →
            ∀ version ∈ versionsMeant tables all info, rows version.id ∧ contents version.id)
      (pruneHistory infos all)
      (fun _ => holds)
      fun _ => holds := by
  refine .named fun start ⟨before, touched⟩ => ?_
  have pruning :
      Keeps setting (fun tables => holds tables ∧ Pruned start tables) (pruneVersions all infos) :=
    pruneVersions_endures endures start all infos touched
  refine .bind (fun _ => holds) (pruning.weaken ?_ (fun _ _ after => after.1) fun _ _ after => after.1)
    fun _ => .bind (fun _ => holds) ?_ fun _ => .pure fun _ stays => stays
  · rintro _ rfl
    exact ⟨before, .refl _⟩
  · exact (sweep_endures endures none).asking fun _ stays => ⟨stays, fun _ absurd => nomatch absurd⟩

end Pruning

/-! ## Writing contents -/

section Writing

variable (endures : EnduresWriting rows contents holds)

include endures

theorem storeContent_endures
    {id : Int}
    (touched : contents id)
    (source : Source) :
    Keeps setting holds (storeContent id source) :=
  storeContent_keeps
    (fun tables offset data before => endures.stored tables
      { id := tables.lastPartId + 1, fileId := id, offset, length := data.size, data } touched rfl
      before)
    source

/-- Room is made for a file. What was in its place is deleted. -/
theorem clearForWrite_endures
    (now : Int)
    (path : CleanPath)
    (claimed : ∀ id, rows id → ¬setting.held id → contents id) :
    Keeps setting holds (clearForWrite now path) := by
  unfold clearForWrite
  simp only [throw_bind]
  refine .ite (fun _ => .throw fun _ stays => stays) fun _ => ?_
  refine .bind _ (entryAt?_endures endures.toEnduresRemoving path) fun found => ?_
  cases found with
  | none =>
      exact Works.asking (makeDirectoriesAt_grows endures.toEndures.grows now _) fun _ before => before.1
  | some entry =>
      refine .ite (fun _ => .throw fun _ before => before.1) fun _ => ?_
      refine .assuming (rows entry.id) (fun _ before => before.2 entry rfl) fun touched => ?_
      refine .bind (fun _ => holds)
        (Works.asking (deleteExisting_endures endures.toEnduresRemoving now touched (claimed _ touched))
          fun _ before => before.1) fun gone => ?_
      exact .ite (fun _ => .throw fun _ stays => stays) fun _ =>
        makeDirectoriesAt_grows endures.toEndures.grows now _

/-- A row that is added may be touched. -/
theorem insert_endures
    (entry : Entry) :
    Works setting holds (insert fun tables => tables.addEntry entry)
      (fun id tables => holds tables ∧ rows id ∧ contents id) fun _ => holds :=
  .insert fun tables before =>
    ⟨endures.created tables entry before, endures.fresh tables before⟩

theorem writeFrom_endures
    (now : Int)
    (text : String)
    (source : Source)
    (links? : Option (List String))
    (time? : Option Int)
    (claimed : ∀ id, rows id → ¬setting.held id → contents id) :
    Keeps setting holds (writeFrom now text source links? time?) := by
  refine .bind _ (clean_keeps text) fun path => ?_
  refine .bind _ (clearForWrite_endures endures now path claimed) fun directory => ?_
  refine .bind _ (insert_endures endures _) fun id => ?_
  refine .assuming _ (fun _ before => before.2) fun ⟨row, content⟩ => ?_
  refine .bind (fun _ => holds)
    (Works.asking (storeContent_endures endures content source) fun _ before => before.1)
    fun stored => ?_
  refine .bind (fun _ => holds) (.update fun tables => ?_) fun _ => ?_
  · exact endures.recorded tables id _ _ _ row
  cases links? with
  | some links =>
      exact .bind (fun _ => holds)
        (.update fun _ => endures_setLinks endures.toEndures id links) fun _ =>
          requireEntry?_keeps id _
  | none =>
      exact requireEntry?_keeps id _

theorem copyEntry_endures
    (now : Int)
    (path : CleanPath)
    (source : Entry)
    (time? : Option Int)
    (claimed : ∀ id, rows id → ¬setting.held id → contents id) :
    Keeps setting holds (copyEntry now path source time?) := by
  unfold copyEntry
  refine .locked (fun _ => ?_) fun _ stays => stays
  refine .bind (fun _ => holds) (.entryAt? fun _ stays => stays) fun existing => ?_
  have rest :
      Keeps setting holds (do
        let directory ← clearForWrite now path
        let modified := time?.getD now
        let id ← Action.insert fun tables =>
          tables.createEntry directory path.name false modified
        update fun tables =>
          (tables.copyParts id source.id).recordContent id source.length modified source.checksum
        Action.require (.notFound path.text) (← query fun tables => tables.entry? id)) := by
    refine .bind _ (clearForWrite_endures endures now path claimed) fun directory => ?_
    refine .bind _ (insert_endures endures _) fun id => ?_
    refine .assuming _ (fun _ before => before.2) fun ⟨row, content⟩ => ?_
    refine .bind (fun _ => holds) (.update fun tables before => ?_) fun _ =>
      requireEntry?_keeps id _
    exact endures.recorded _ id _ _ _ row (endures.addCopies content _ before.1)
  cases existing with
  | some existing =>
      simp only [throw_bind]
      exact .ite (fun _ => .throw fun _ stays => stays) fun _ => rest
  | none =>
      exact rest

theorem copy_endures
    (now : Int)
    (target source : String)
    (time? : Option Int)
    (claimed : ∀ id, rows id → ¬setting.held id → contents id) :
    Keeps setting holds (copy now target source time?) :=
  .bind _ (clean_keeps source) fun origin =>
    .bind _ (requireFile_keeps origin) fun entry =>
      .bind _ (clean_keeps target) fun path =>
        copyEntry_endures endures now path entry time? claimed

theorem snapshot_endures
    (now : Int)
    (text : String)
    (source? : Option Source)
    (time? : Option Int) :
    Keeps setting holds (snapshot now text source? time?) := by
  refine .bind _ (clean_keeps text) fun path => ?_
  simp only [throw_bind]
  refine .ite (fun _ => .throw fun _ stays => stays) fun _ => ?_
  cases source? with
  | none =>
      refine .bind _ (requireFile_keeps path) fun live => .locked (fun _ => ?_) fun _ stays => stays
      refine .bind _ (snapshotDirectory_grows endures.toEndures.grows now _) fun directory => ?_
      refine .bind _ (insert_endures endures _) fun id => .update fun tables before => ?_
      exact endures.addCopies before.2.2 _ before.1
  | some source =>
      refine .bind _ (snapshotDirectory_grows endures.toEndures.grows now _) fun directory => ?_
      refine .bind _ (insert_endures endures _) fun id => ?_
      refine .assuming _ (fun _ before => before.2) fun ⟨row, content⟩ => ?_
      refine .bind (fun _ => holds)
        (Works.asking (storeContent_endures endures content source) fun _ before => before.1)
        fun stored => .update fun tables => ?_
      exact endures.recorded tables id _ _ _ row

theorem restoreEach_endures
    (now : Int)
    (target : CleanPath)
    (single : Bool)
    (infos : List TrashEntry)
    (claimed : ∀ id, rows id → ¬setting.held id → contents id) :
    Keeps setting holds (restoreEach now target single infos) := by
  induction infos with
  | nil =>
      exact .pure fun _ stays => stays
  | cons info rest inductionHypothesis =>
      rw [restoreEach]
      refine .bind (fun _ => holds) ?_ fun path => ?_
      · unfold restoreTarget
        refine .ite (fun _ => .pure fun _ stays => stays) fun _ => .ofExcept fun _ stays => ?_
        cases target.join info.entry.name <;> exact stays
      have restored : Keeps setting holds (restore now path info) := by
        refine .bind (fun _ => holds) (.query fun _ stays => stays) fun found => ?_
        refine .bind (fun _ => holds)
          (.require (fun _ _ _ stays => stays) fun _ _ stays => stays) fun version => ?_
        exact copyEntry_endures endures now path version _ claimed
      refine .bind (fun _ => holds)
        ((Works.attempt (restored.transaction fun _ _ _ start _ => start)).promising
          fun outcome _ ended => ?_)
        fun outcome => .bind _ inductionHypothesis fun _ => .pure fun _ stays => stays
      cases outcome <;> exact ended

theorem recover_endures
    (now : Int)
    (target : String)
    (infos : List TrashEntry)
    (claimed : ∀ id, rows id → ¬setting.held id → contents id) :
    Keeps setting holds (recover now target infos) :=
  .bind _ (clean_keeps target) fun path => restoreEach_endures endures now path _ infos claimed

end Writing

end Txn

end VersionStore
