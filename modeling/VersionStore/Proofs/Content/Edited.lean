import VersionStore.Proofs.Content.Lasting
import VersionStore.Proofs.Tree.Clearing

namespace VersionStore

/-!
# Edits

Whatever a call does to tables, it does it by edits of a few kinds. Files are removed with all
that hangs on them, and directories with their rows alone. A content is given only to a file
that is new, and links only to a file that is there. What is live, a file and not to be written
to is neither removed nor put into the trash nor made writable, unless the call is asked for
just that.

`Tables.Edit` is one such edit and `Tables.Edited` what some of them lead to. What holds after
each kind of edit thus holds after every call.
-/

/-- A row may go: it was asked for, or it is no file that is live and not to be written to. -/
def Entry.Expendable (asked : Int → Prop) (row : Entry) : Prop :=
  asked row.id ∨ row.isDeleted = true ∨ row.writable = true ∨ row.isDirectory = true

namespace Tables

variable
  {asked : Int → Prop}
  {start tables after : Tables}
  {id : Int}

/-- A file has this id. -/
def HasFile (id : Int) (tables : Tables) : Prop :=
  ∃ entry ∈ tables.entries, entry.id = id ∧ entry.isDirectory = false

/-- An edit of some tables, which were edited before. Ids that were not given at the start are
new. -/
inductive Edit (asked : Int → Prop) (start tables : Tables) : Tables → Prop
  | directories (rows : List Directory) :
      Edit asked start tables { tables with directories := rows }
  | added (entry : Entry) :
      Edit asked start tables (tables.addEntry entry).2
  | modified (id : Int) (change : Entry → Entry)
      (same :
        ∀ entry : Entry,
          entry.SameContent (change entry) ∧ (change entry).isDeleted = entry.isDeleted)
      (barred : asked id ∨ ∀ entry : Entry, (change entry).writable = true → entry.writable = true) :
      Edit asked start tables (tables.modifyEntry id change)
  | trashed (id now : Int)
      (expendable : ∀ row ∈ tables.entries, row.id = id → row.Expendable asked) :
      Edit asked start tables (tables.trashEntry id now)
  | removedFiles (files : List Int)
      (areFiles :
        ∀ row ∈ tables.entries,
          row.id ∈ files →
          row.isDirectory = false ∧ row.Expendable asked)
      (wereFiles : ∀ row ∈ start.entries, row.id ∈ files → row.isDirectory = false) :
      Edit asked start tables (Txn.withoutFiles tables files)
  | removedDirectories (gone : List Int)
      (areDirectories : ∀ row ∈ tables.entries, row.id ∈ gone → row.isDirectory = true) :
      Edit asked start tables
        { tables with entries := tables.entries.filter fun entry => entry.id ∉ gone }
  | recorded (id length modified : Int) (checksum : Option Checksum)
      (fresh : start.lastEntryId < id) :
      Edit asked start tables (tables.recordContent id length modified checksum)
  | stored (part : Part)
      (isNext : part.id = tables.lastPartId + 1)
      (fresh : start.lastEntryId < part.fileId)
      (file : tables.HasFile part.fileId) :
      Edit asked start tables { tables with parts := tables.parts ++ [part], lastPartId := part.id }
  | linked (id : Int) (paths : List String)
      (file : tables.HasFile id) :
      Edit asked start tables (tables.setLinks id paths)

/-- Some edits lead from tables to others. Ids that were not given at first are new. -/
def Edited (asked : Int → Prop) (start tables : Tables) : Prop :=
  Relation.ReflTransGen (Edit asked start) start tables

namespace Edit

/-- Ids are given and not taken back. -/
theorem lastEntryId_le
    (edit : Edit asked start tables after) :
    tables.lastEntryId ≤ after.lastEntryId := by
  cases edit with
  | added entry =>
      change tables.lastEntryId ≤ tables.lastEntryId + 1
      omega
  | linked id paths =>
      obtain ⟨targets, links, isResult⟩ := setLinks_eq id paths tables
      rw [isResult]
  | _ =>
      exact le_refl _

/-- A row is new, or it was there before and is of the same kind. -/
theorem origin
    (edit : Edit asked start tables after)
    {row : Entry}
    (member : row ∈ after.entries) :
    tables.lastEntryId < row.id ∨
      ∃ old ∈ tables.entries, old.id = row.id ∧ old.isDirectory = row.isDirectory := by
  have modified
      {id : Int}
      {change : Entry → Entry}
      (same : ∀ entry, (change entry).id = entry.id ∧ (change entry).isDirectory = entry.isDirectory)
      (member : row ∈ (tables.modifyEntry id change).entries) :
      ∃ old ∈ tables.entries, old.id = row.id ∧ old.isDirectory = row.isDirectory := by
    obtain ⟨old, oldMember, rfl⟩ := List.mem_map.mp member
    refine ⟨old, oldMember, ?_⟩
    split
    · exact ⟨(same old).1.symm, (same old).2.symm⟩
    · exact ⟨rfl, rfl⟩
  cases edit with
  | directories | stored =>
      exact .inr ⟨row, member, rfl, rfl⟩
  | added entry =>
      rcases List.mem_append.mp member with old | new
      · exact .inr ⟨row, old, rfl, rfl⟩
      · rw [List.mem_singleton.mp new]
        exact .inl (Int.lt_succ _)
  | modified id change same =>
      refine .inr (modified (fun entry => ?_) member)
      exact ⟨(same entry).1.id.symm, (same entry).1.isDirectory.symm⟩
  | trashed | recorded =>
      refine .inr (modified ?_ member)
      exact fun _ => ⟨rfl, rfl⟩
  | removedFiles | removedDirectories =>
      exact .inr ⟨row, List.mem_of_mem_filter member, rfl, rfl⟩
  | linked id paths =>
      obtain ⟨targets, links, isResult⟩ := setLinks_eq id paths tables
      rw [isResult] at member
      exact .inr ⟨row, member, rfl, rfl⟩

/-- Rows stay in the order of their ids. -/
theorem listed
    (edit : Edit asked start tables after)
    (listed : tables.Listed) :
    after.Listed := by
  cases edit with
  | directories rows | stored part =>
      exact ⟨listed.rows, listed.row_le⟩
  | added entry =>
      exact listed.addEntry entry
  | modified id change same =>
      exact listed.modifyEntry id fun entry => (same entry).1.id.symm
  | trashed id now | recorded id length modified checksum =>
      exact listed.modifyEntry id fun _ => rfl
  | removedFiles | removedDirectories =>
      exact ⟨listed.rows.sublist (List.filter_sublist.map _),
        fun entry member => listed.row_le entry (List.mem_of_mem_filter member)⟩
  | linked id paths =>
      obtain ⟨targets, links, isResult⟩ := setLinks_eq id paths tables
      rw [isResult]
      exact ⟨listed.rows, listed.row_le⟩

end Edit

namespace Edited

/-- No edit at all. -/
theorem refl
    (asked : Int → Prop)
    (start : Tables) :
    Edited asked start start :=
  Relation.ReflTransGen.refl

/-- One edit more. -/
theorem next
    (edited : Edited asked start tables)
    (edit : Edit asked start tables after) :
    Edited asked start after :=
  Relation.ReflTransGen.tail edited edit

/-- What each edit preserves all of them preserve. -/
theorem preserves
    {holds : Tables → Prop}
    (edited : Edited asked start tables)
    (preserved :
      ∀ before after,
        Edited asked start before →
        Edit asked start before after →
        holds before →
        holds after)
    (before : holds start) :
    holds tables := by
  induction edited with
  | refl =>
      exact before
  | tail edited edit inductionHypothesis =>
      exact preserved _ _ edited edit inductionHypothesis

theorem lastEntryId_le
    (edited : Edited asked start tables) :
    start.lastEntryId ≤ tables.lastEntryId := by
  induction edited with
  | refl =>
      exact le_refl _
  | tail _ edit inductionHypothesis =>
      exact inductionHypothesis.trans edit.lastEntryId_le

theorem listed
    (edited : Edited asked start tables)
    (listed : start.Listed) :
    tables.Listed :=
  edited.preserves (fun _ _ _ edit => edit.listed) listed

/-- A row that was there at the start is of the kind that it was. -/
theorem kind
    (edited : Edited asked start tables)
    (listed : start.Listed)
    {row old : Entry}
    (member : row ∈ tables.entries)
    (oldMember : old ∈ start.entries)
    (same : old.id = row.id) :
    old.isDirectory = row.isDirectory := by
  induction edited generalizing row with
  | refl =>
      rw [listed.row_eq oldMember member same]
  | tail edited edit inductionHypothesis =>
      rcases edit.origin member with new | ⟨before, beforeMember, sameId, sameKind⟩
      · have given := listed.row_le old oldMember
        have earlier := Edited.lastEntryId_le edited
        omega
      · rw [← sameKind]
        exact inductionHypothesis beforeMember (same.trans sameId.symm)

/-- Making directories is done by edits. -/
theorem grows
    (asked : Int → Prop)
    (start : Tables) :
    Grows (Edited asked start) where
  added _ entry _ _ edited := edited.next (.added entry)
  directories _ rows edited := edited.next (.directories rows)

/-- A file that is there is given copies of parts. -/
theorem addCopies
    (edited : Edited asked start tables)
    (fresh : start.lastEntryId < id)
    (file : tables.HasFile id)
    (copied : List Part) :
    Edited asked start (tables.addCopies id copied) := by
  induction copied generalizing tables with
  | nil =>
      exact edited
  | cons part rest inductionHypothesis =>
      refine inductionHypothesis (edited.next ?_) file
      exact .stored { part with id := tables.lastPartId + 1, fileId := id } rfl fresh file

end Edited

/-- Every row of an entry's id is of its kind, then and now, and may go. -/
structure Expends (asked : Int → Prop) (start : Tables) (entry : Entry) (tables : Tables) :
    Prop where
  was : ∀ row ∈ start.entries, row.id = entry.id → row.isDirectory = entry.isDirectory
  kind : ∀ row ∈ tables.entries, row.id = entry.id → row.isDirectory = entry.isDirectory
  expendable : ∀ row ∈ tables.entries, row.id = entry.id → row.Expendable asked

/-- Where ids tell rows apart, a row stands for all of its id. -/
theorem Edited.expends
    (edited : Edited asked start tables)
    (listed : start.Listed)
    {entry : Entry}
    (member : entry ∈ tables.entries)
    (expendable : entry.Expendable asked) :
    Expends asked start entry tables where
  was _ rowMember same := edited.kind listed member rowMember same
  kind row rowMember same := by rw [(edited.listed listed).row_eq rowMember member same]
  expendable row rowMember same := by rwa [(edited.listed listed).row_eq rowMember member same]

/-- A row is removed with what hangs on it. -/
theorem Edited.pruneRow
    {entry : Entry}
    (edited : Edited asked start tables)
    (expends : Expends asked start entry tables) :
    Edited asked start
      (if entry.isDirectory then (tables.removeEntry entry.id).removeDirectory entry.id
      else ((tables.removeEntry entry.id).removeParts entry.id).removeLinks entry.id) := by
  cases kind : entry.isDirectory with
  | true =>
      have same :
          tables.removeEntry entry.id =
            { tables with entries := tables.entries.filter fun row => row.id ∉ [entry.id] } := by
        rw [removeEntry]
        congr 1
        exact List.filter_congr fun row _ => by simp [bne, beq_eq_decide]
      rw [if_pos rfl, same]
      refine (edited.next (.removedDirectories [entry.id] fun row member isRow => ?_)).next
        (.directories _)
      exact (expends.kind row member (List.mem_singleton.mp isRow)).trans kind
  | false =>
      have same :
          ((tables.removeEntry entry.id).removeParts entry.id).removeLinks entry.id =
            Txn.withoutFiles tables [entry.id] :=
        Txn.eraseFile_eq tables entry.id
      rw [if_neg Bool.false_ne_true, same]
      refine edited.next (.removedFiles [entry.id] (fun row member isRow => ⟨?_, ?_⟩)
        fun row member isRow => ?_)
      · exact (expends.kind row member (List.mem_singleton.mp isRow)).trans kind
      · exact expends.expendable row member (List.mem_singleton.mp isRow)
      · exact (expends.was row member (List.mem_singleton.mp isRow)).trans kind

end Tables

namespace Txn

open Tables VersionStore.Action

variable
  {setting : Setting}
  {asked : Int → Prop}
  {start : Tables}
  {entry : Entry}

/-! ## Deleting and pruning -/

theorem pruneRow_edits
    (entry : Entry) :
    Works setting (fun tables => Edited asked start tables ∧ Expends asked start entry tables)
      (pruneRow entry) (fun _ => Edited asked start) fun _ => Edited asked start :=
  pruneRow_works fun _ before => before.1.pruneRow before.2

theorem trashRow_edits
    (now : Int)
    (entry : Entry) :
    Works setting (fun tables => Edited asked start tables ∧ Expends asked start entry tables)
      (trashRow now entry) (fun _ => Edited asked start) fun _ => Edited asked start :=
  trashRow_works fun _ before =>
    before.1.next (.trashed entry.id now before.2.expendable)

theorem deleteExisting_edits
    (now : Int)
    (entry : Entry) :
    Works setting (fun tables => Edited asked start tables ∧ Expends asked start entry tables)
      (deleteExisting now entry) (fun _ => Edited asked start) fun _ => Edited asked start := by
  refine .locked (fun _ => .get fun store _ => ?_) fun _ before => before.1
  refine .ite (fun _ => ?_) fun _ => ?_
  · exact .bind _ ((trashRow_edits now entry).asking fun _ before => before.1) fun _ =>
      .pure fun _ edited => edited
  · exact .bind _ ((pruneRow_edits entry).asking fun _ before => before.1) fun _ =>
      .pure fun _ edited => edited

theorem deleteEntry_edits
    (now : Int)
    (entry : Entry) :
    Works setting (fun tables => Edited asked start tables ∧ Expends asked start entry tables)
      (deleteEntry now entry) (fun _ => Edited asked start) fun _ => Edited asked start := by
  refine .ite (fun _ => .pure fun _ before => before.1) fun _ => ?_
  refine .bind (fun _ tables => Edited asked start tables ∧ Expends asked start entry tables)
    (.query fun _ before => before) fun empty => ?_
  exact .ite (fun _ => .pure fun _ before => before.1) fun _ => deleteExisting_edits now entry

/-- What lies at a path at first is found there. -/
theorem stat_finds
    (text : String) :
    Works setting (· = start) (stat text)
      (fun found tables =>
        tables = start ∧
          ∀ entry ∈ found,
            ∃ path, CleanPath.ofText text = .ok path ∧ start.lookupAt? path = some entry)
      fun _ tables => tables = start := by
  refine .bind (fun path tables => tables = start ∧ CleanPath.ofText text = .ok path)
    (.clean (fun path isPath _ same => ⟨same, isPath⟩) fun _ _ same => same) fun path => ?_
  refine .entryAt? ?_
  rintro _ ⟨rfl, isPath⟩
  exact ⟨rfl, fun entry found => ⟨path, isPath, found⟩⟩

theorem delete_edits
    (now : Int)
    (text : String)
    (listed : start.Listed)
    (named :
      ∀ path entry,
        CleanPath.ofText text = .ok path →
        start.lookupAt? path = some entry →
        asked entry.id) :
    Works setting (· = start) (delete now text) (fun _ => Edited asked start)
      fun _ => Edited asked start := by
  refine .bind _ ((stat_finds text).weaken (fun _ same => same) (fun _ _ found => found)
    fun _ _ same => same ▸ .refl asked start) fun found => ?_
  cases found with
  | none =>
      exact .pure fun _ before => before.1 ▸ .refl asked start
  | some entry =>
      refine (deleteEntry_edits now entry).asking ?_
      rintro _ ⟨rfl, found⟩
      obtain ⟨path, isPath, isEntry⟩ := found entry rfl
      refine ⟨.refl _ _, (Edited.refl _ _).expends listed (mem_of_lookup? isEntry).1 ?_⟩
      exact .inl (named path entry isPath isEntry)

theorem prune_edits
    (now : Int)
    (entry : Entry) :
    Works setting (fun tables => Edited asked start tables ∧ Expends asked start entry tables)
      (prune now entry) (fun _ => Edited asked start) fun _ => Edited asked start := by
  refine .ite (fun _ => ?_) fun _ => ?_
  · refine .bind (fun _ tables => Edited asked start tables ∧ Expends asked start entry tables)
      (.query fun _ before => before) fun empty => ?_
    refine .ite (fun _ => ?_) fun _ => .pure fun _ before => before.1
    exact .bind _ (trashRow_edits now entry) fun _ => .pure fun _ edited => edited
  · exact .bind _ (pruneRow_edits entry) fun _ => .pure fun _ edited => edited

/-! ## Moving and attributes -/

theorem moveTo_edits
    (now : Int)
    (target source : String)
    (time? : Option Int) :
    Keeps setting (Edited asked start) (moveTo now target source time?) := by
  refine .bind _ (clean_keeps target) fun target => .bind _ (clean_keeps source) fun source => ?_
  refine .bind _ (requireEntry_keeps source) fun entry => ?_
  refine .bind (fun _ => Edited asked start) (.entryAt? fun _ edited => edited) fun taken => ?_
  simp only [throw_bind]
  refine .ite (fun _ => .throw fun _ edited => edited) fun _ => ?_
  refine .ite (fun _ => .throw fun _ edited => edited) fun _ =>
    .locked (fun _ => ?_) fun _ edited => edited
  refine .bind _ (makeDirectoriesAt_grows (Edited.grows asked start) now _) fun parent => ?_
  refine .bind (fun _ => Edited asked start) (.update fun tables edited => ?_) fun _ =>
    requireEntry?_keeps entry.id _
  have moved :
      Edited asked start (tables.moveEntry entry.id parent target.name (time?.getD now)) :=
    edited.next (.modified entry.id _ (fun _ => ⟨⟨rfl, rfl, rfl, rfl⟩, rfl⟩) (.inr fun _ same => same))
  split
  · obtain ⟨directories, isResult, -⟩ := rewritePaths_eq _ _ _
    rw [renameTree, isResult]
    exact moved.next (.directories directories)
  · exact moved

/-- The entry that lies at a path at first is changed, if there is one. -/
theorem changeAt_edits
    {holds : Tables → Prop}
    (text : String)
    {change : Tables → Int → Tables}
    (unchanged : holds start)
    (changed :
      ∀ path entry,
        CleanPath.ofText text = .ok path →
        start.lookupAt? path = some entry →
        holds (change start entry.id)) :
    Works setting (· = start) (changeAt text change) (fun _ => holds) fun _ => holds := by
  refine .bind _ ((stat_finds text).weaken (fun _ same => same) (fun _ _ found => found)
    fun _ _ same => same ▸ unchanged) fun found => ?_
  cases found with
  | none =>
      exact .pure fun _ before => before.1 ▸ unchanged
  | some entry =>
      refine .bind (fun _ => holds) (.update ?_) fun _ => .pure fun _ after => after
      rintro _ ⟨rfl, found⟩
      obtain ⟨path, isPath, isEntry⟩ := found entry rfl
      exact changed path entry isPath isEntry

/-! ## The sweep and the history -/

/-- What a sweep leaves is what is left without some files, without some directories and with
fewer rows of directories. -/
theorem Collected.eq
    {before after : Tables}
    {files gone : List Int}
    (collected : Collected before files gone after) :
    after =
      { withoutFiles before files with
        entries := (withoutFiles before files).entries.filter fun entry => entry.id ∉ gone
        directories := after.directories } := by
  have entries :
      after.entries = (withoutFiles before files).entries.filter fun entry => entry.id ∉ gone := by
    rw [collected.entries, withoutFiles, List.filter_filter]
    exact List.filter_congr fun entry _ => by simp [Bool.and_comm]
  obtain ⟨directories, rows, parts, targets, links, lastEntryId, lastPartId⟩ := after
  cases entries
  cases collected.parts
  cases collected.targets
  cases collected.links
  cases collected.lastEntryId
  cases collected.lastPartId
  rfl

/-- A sweep removes trashed files, and else directories. -/
theorem edited_sweepTables
    {tables : Tables}
    (edited : Edited asked start tables)
    (listed : start.Listed)
    (coherent : tables.Coherent)
    (select? : Option Selector) :
    Edited asked start (sweepTables select? tables).2 := by
  obtain ⟨gone, collected, -⟩ := sweepTables_collected coherent select?
  generalize ((accepted select? tables).map (·.entry.id)) = files at collected
  rw [collected.eq]
  have without : Edited asked start (withoutFiles tables files) := by
    refine edited.next (.removedFiles files (fun row member isFile => ?_) fun row member isFile => ?_)
    · obtain ⟨other, otherMember, same, deleted, kind⟩ := collected.isFile _ isFile
      rw [coherent.entry_eq member otherMember same.symm]
      exact ⟨kind, .inr (.inl deleted)⟩
    · obtain ⟨other, otherMember, same, -, kind⟩ := collected.isFile _ isFile
      exact (edited.kind listed otherMember member same.symm).trans kind
  refine (without.next (.removedDirectories gone fun row member isGone => ?_)).next
    (.directories _)
  obtain ⟨other, otherMember, same, -, kind⟩ := collected.isDirectory _ isGone
  rw [coherent.entry_eq (List.mem_of_mem_filter member) otherMember same.symm]
  exact kind

theorem sweep_edits
    (listed : start.Listed)
    (select? : Option Selector) :
    Works setting (fun tables => Edited asked start tables ∧ tables.Coherent) (sweep select?)
      (fun _ => Edited asked start) fun _ => Edited asked start := by
  refine .named fun before ⟨edited, coherent⟩ => ?_
  refine ((sweep_works select? before).promising fun counts tables isResult => ?_).surely
  have same : tables = (sweepTables select? before).2 :=
    congrArg Prod.snd isResult
  rw [same]
  exact edited_sweepTables edited listed coherent select?

theorem pruneRows_edits
    (versions : List Entry) :
    Works setting
      (fun tables =>
        Edited asked start tables ∧ ∀ version ∈ versions, Expends asked start version tables)
      (pruneRows versions) (fun _ => Edited asked start) fun _ => Edited asked start := by
  induction versions with
  | nil =>
      exact .pure fun _ before => before.1
  | cons version rest inductionHypothesis =>
      rw [pruneRows]
      refine .bind
        (fun _ tables => Edited asked start tables ∧ ∀ version ∈ rest, Expends asked start version tables)
        (pruneRow_works fun tables before => ⟨before.1.pruneRow (before.2 version (by simp)), ?_⟩)
        fun _ => .bind _ inductionHypothesis fun _ => .pure fun _ edited => edited
      intro other member
      have fewer
          {row : Entry}
          (rowMember :
            row ∈
              (if version.isDirectory then
                (tables.removeEntry version.id).removeDirectory version.id
              else
                ((tables.removeEntry version.id).removeParts version.id).removeLinks version.id).entries) :
          row ∈ tables.entries := by
        split at rowMember <;> exact List.mem_of_mem_filter rowMember
      obtain ⟨was, kind, expendable⟩ := before.2 other (List.mem_cons_of_mem _ member)
      exact ⟨was, fun row rowMember => kind row (fewer rowMember),
        fun row rowMember => expendable row (fewer rowMember)⟩

theorem pruneVersions_edits
    (listed : start.Listed)
    (all : Bool)
    (infos : List TrashEntry) :
    Keeps setting (Edited asked start) (pruneVersions all infos) := by
  induction infos with
  | nil =>
      exact .pure fun _ edited => edited
  | cons info rest inductionHypothesis =>
      refine .ite (fun _ => inductionHypothesis) fun _ => ?_
      refine .bind
        (fun versions tables =>
          Edited asked start tables ∧ ∀ version ∈ versions, Expends asked start version tables)
        (.query fun tables edited => ⟨edited, fun version member => ?_⟩) fun versions => ?_
      · obtain ⟨inTable, -, deleted⟩ := of_mem_versionsMeant member
        exact edited.expends listed inTable (.inr (.inl deleted))
      · exact .bind _ (pruneRows_edits versions) fun _ =>
          .bind _ inductionHypothesis fun _ => .pure fun _ edited => edited

theorem pruneHistory_edits
    {strict : Prop}
    {known : List Entry}
    (infos : List TrashEntry)
    (all : Bool) :
    Works setting (fun tables => tables = start ∧ start.Sound strict known)
      (pruneHistory infos all) (fun _ => Edited asked start) fun _ => Edited asked start := by
  refine .assuming (start.Sound strict known) (fun _ before => before.2) fun sound => ?_
  have listed : start.Listed := ⟨sound.coherent.ids, sound.coherent.id_le⟩
  have pruning :
      Works setting (fun tables => tables.Sound strict known ∧ Edited asked start tables)
        (pruneVersions all infos)
        (fun _ tables => tables.Sound strict known ∧ Edited asked start tables)
        fun _ tables => tables.Sound strict known ∧ Edited asked start tables :=
    (pruneVersions_keeps all infos).both
      (pruneVersions_edits listed all infos)
  refine .bind _ (pruning.weaken ?_ (fun _ _ after => after) fun _ _ after => after.2) fun _ => ?_
  · rintro _ ⟨rfl, -⟩
    exact ⟨sound, .refl _ _⟩
  · exact .bind _ ((sweep_edits listed none).asking fun _ before => ⟨before.2, before.1.coherent⟩) fun _ =>
      .pure fun _ edited => edited

/-! ## Writing contents -/

/-- Room is made for a file. What was in its place may go. -/
theorem clearForWrite_edits
    (now : Int)
    (path : CleanPath)
    (listed : start.Listed) :
    Keeps setting (Edited asked start) (clearForWrite now path) := by
  unfold clearForWrite
  simp only [throw_bind]
  refine .ite (fun _ => .throw fun _ edited => edited) fun _ => ?_
  refine .bind
    (fun found tables => Edited asked start tables ∧ found = tables.lookupAt? path)
    (.entryAt? fun _ edited => ⟨edited, rfl⟩) fun found => ?_
  cases found with
  | none =>
      exact Works.asking (makeDirectoriesAt_grows (Edited.grows asked start) now _)
        fun _ before => before.1
  | some entry =>
      refine .ite (fun _ => .throw fun _ before => before.1) fun allowed => ?_
      have writable : entry.writable = true := by
        simp only [Bool.or_eq_true, Bool.not_eq_true', not_or, Bool.not_eq_false] at allowed
        exact allowed.2
      refine .bind _ ((deleteExisting_edits now entry).asking ?_) fun gone => ?_
      · rintro tables ⟨edited, found⟩
        exact ⟨edited, edited.expends listed (mem_of_lookup? found.symm).1
          (.inr (.inr (.inl writable)))⟩
      · exact .ite (fun _ => .throw fun _ edited => edited) fun _ =>
          makeDirectoriesAt_grows (Edited.grows asked start) now _

/-- A new file is there, with no content yet. -/
def Founded (asked : Int → Prop) (start : Tables) (id : Int) (tables : Tables) : Prop :=
  Edited asked start tables ∧ start.lastEntryId < id ∧ tables.HasFile id

/-- A file that is added is new. -/
theorem insert_edits
    {failed : Fault → Tables → Prop}
    (entry : Entry)
    (isFile : entry.isDirectory = false) :
    Works setting (Edited asked start) (insert fun tables => tables.addEntry entry)
      (Founded asked start) failed := by
  refine .insert fun tables edited => ⟨edited.next (.added entry), ?_, ?_⟩
  · have earlier := edited.lastEntryId_le
    change start.lastEntryId < tables.lastEntryId + 1
    omega
  · exact ⟨_, List.mem_append_right _ (List.mem_singleton_self _), rfl, isFile⟩

/-- A new file stays while it is given a content. -/
theorem storeContent_edits
    (id : Int)
    (source : Source) :
    Works setting (Founded asked start id) (storeContent id source)
      (fun _ => Founded asked start id) fun _ => Edited asked start := by
  have stored :
      Keeps setting (Founded asked start id) (storeContent id source) := by
    refine storeContent_keeps (fun tables offset data founded => ?_) source
    obtain ⟨edited, fresh, file⟩ := founded
    refine ⟨edited.next ?_, fresh, file⟩
    exact .stored
      { id := tables.lastPartId + 1, fileId := id, offset, length := data.size, data } rfl fresh file
  exact stored.weaken (fun _ before => before) (fun _ _ after => after) fun _ _ failed => failed.1

/-- What a content came to is recorded. -/
theorem Founded.recordContent
    {tables : Tables}
    {id : Int}
    (founded : Founded asked start id tables)
    (length modified : Int)
    (checksum : Option Checksum) :
    Founded asked start id (tables.recordContent id length modified checksum) := by
  obtain ⟨edited, fresh, entry, member, isRow, isFile⟩ := founded
  refine ⟨edited.next (.recorded id length modified checksum fresh), fresh, ?_⟩
  refine ⟨_, List.mem_map_of_mem member, ?_, ?_⟩ <;> rw [if_pos isRow]
  · exact isRow
  · exact isFile

theorem writeFrom_edits
    (now : Int)
    (text : String)
    (source : Source)
    (links? : Option (List String))
    (time? : Option Int)
    (listed : start.Listed) :
    Keeps setting (Edited asked start) (writeFrom now text source links? time?) := by
  refine .bind _ (clean_keeps text) fun path => ?_
  refine .bind _ (clearForWrite_edits now path listed) fun directory => ?_
  refine .bind _ (insert_edits (freshEntry directory path.name false _) rfl) fun id => ?_
  refine .bind _ (storeContent_edits id source) fun stored => ?_
  refine .bind (fun _ => Founded asked start id) (.update fun tables founded => ?_) fun _ => ?_
  · exact founded.recordContent _ _ _
  cases links? with
  | some links =>
      refine .bind (fun _ => Edited asked start) (.update fun tables founded => ?_) fun _ =>
        requireEntry?_keeps id _
      exact founded.1.next (.linked id links founded.2.2)
  | none =>
      exact Works.asking (requireEntry?_keeps id _) fun _ founded => founded.1

theorem copyEntry_edits
    (now : Int)
    (path : CleanPath)
    (source : Entry)
    (time? : Option Int)
    (listed : start.Listed) :
    Keeps setting (Edited asked start) (copyEntry now path source time?) := by
  unfold copyEntry
  refine .locked (fun _ => ?_) fun _ edited => edited
  refine .bind (fun _ => Edited asked start) (.entryAt? fun _ edited => edited) fun existing => ?_
  have rest :
      Keeps setting (Edited asked start) (do
        let directory ← clearForWrite now path
        let modified := time?.getD now
        let id ← Action.insert fun tables =>
          tables.createEntry directory path.name false modified
        update fun tables =>
          (tables.copyParts id source.id).recordContent id source.length modified source.checksum
        Action.require (.notFound path.text) (← query fun tables => tables.entry? id)) := by
    refine .bind _ (clearForWrite_edits now path listed) fun directory => ?_
    refine .bind _ (insert_edits (freshEntry directory path.name false _) rfl) fun id => ?_
    refine .bind (fun _ => Edited asked start) (.update fun tables founded => ?_) fun _ =>
      requireEntry?_keeps id _
    obtain ⟨edited, fresh, file⟩ := founded
    exact (edited.addCopies fresh file _).next (.recorded id _ _ _ fresh)
  cases existing with
  | some existing =>
      simp only [throw_bind]
      exact .ite (fun _ => .throw fun _ edited => edited) fun _ => rest
  | none =>
      exact rest

theorem copy_edits
    (now : Int)
    (target source : String)
    (time? : Option Int)
    (listed : start.Listed) :
    Keeps setting (Edited asked start) (copy now target source time?) :=
  .bind _ (clean_keeps source) fun origin => .bind _ (requireFile_keeps origin) fun entry =>
    .bind _ (clean_keeps target) fun path => copyEntry_edits now path entry time? listed

theorem snapshot_edits
    (now : Int)
    (text : String)
    (source? : Option Source)
    (time? : Option Int) :
    Keeps setting (Edited asked start) (snapshot now text source? time?) := by
  refine .bind _ (clean_keeps text) fun path => ?_
  simp only [throw_bind]
  refine .ite (fun _ => .throw fun _ edited => edited) fun _ => ?_
  cases source? with
  | none =>
      refine .bind _ (requireFile_keeps path) fun live =>
        .locked (fun _ => ?_) fun _ edited => edited
      refine .bind _ (snapshotDirectory_grows (Edited.grows asked start) now _) fun directory => ?_
      refine .bind _ (insert_edits _ rfl) fun id => .update fun tables founded => ?_
      exact founded.1.addCopies founded.2.1 founded.2.2 _
  | some source =>
      refine .bind _ (snapshotDirectory_grows (Edited.grows asked start) now _) fun directory => ?_
      refine .bind _ (insert_edits _ rfl) fun id => ?_
      refine .bind _ (storeContent_edits id source) fun stored => .update fun tables founded => ?_
      exact (founded.recordContent _ _ _).1

/-! ## Restoring versions -/

theorem restoreEach_edits
    (now : Int)
    (target : CleanPath)
    (single : Bool)
    (infos : List TrashEntry)
    (listed : start.Listed) :
    Keeps setting (Edited asked start) (restoreEach now target single infos) := by
  induction infos with
  | nil =>
      exact .pure fun _ edited => edited
  | cons info rest inductionHypothesis =>
      rw [restoreEach]
      refine .bind (fun _ => Edited asked start) ?_ fun path => ?_
      · unfold restoreTarget
        refine .ite (fun _ => .pure fun _ edited => edited) fun _ => .ofExcept fun _ edited => ?_
        cases target.join info.entry.name <;> exact edited
      have restored : Keeps setting (Edited asked start) (restore now path info) := by
        refine .bind (fun _ => Edited asked start) (.query fun _ edited => edited) fun found => ?_
        refine .bind (fun _ => Edited asked start)
          (.require (fun _ _ _ edited => edited) fun _ _ edited => edited) fun version => ?_
        exact copyEntry_edits now path version _ listed
      refine .bind (fun _ => Edited asked start)
        ((Works.attempt (restored.transaction fun _ _ _ edited _ => edited)).promising
          fun outcome _ ended => ?_)
        fun outcome => .bind _ inductionHypothesis fun _ => .pure fun _ edited => edited
      cases outcome <;> exact ended

theorem recover_edits
    (now : Int)
    (target : String)
    (infos : List TrashEntry)
    (listed : start.Listed) :
    Keeps setting (Edited asked start) (recover now target infos) :=
  .bind _ (clean_keeps target) fun path => restoreEach_edits now path _ infos listed

end Txn

/-! ## Ids that were given

Ids are given one after the other and never taken back. What parts there are is of files whose
ids were given, and no edit changes that.
-/

namespace Tables

variable {asked : Int → Prop} {start tables after : Tables} {id : Int}

/-- Every part is of a file whose id was given. -/
def Allotted (tables : Tables) : Prop :=
  ∀ part ∈ tables.parts, part.fileId ≤ tables.lastEntryId

/-- The last id was given after this one, or it is this one. -/
def Gave (id : Int) (tables : Tables) : Prop :=
  id ≤ tables.lastEntryId

/-- Parts that are in order, of files whose ids were given, are numbered. -/
theorem Allotted.numbered
    (allotted : tables.Allotted)
    (ordered : tables.Ordered)
    (listed : tables.Listed) :
    tables.Numbered :=
  ⟨ordered, allotted, listed.row_le⟩

/-- Edits give parts to files that are there. -/
theorem Edit.allotted
    (edit : Edit asked start tables after)
    (listed : tables.Listed)
    (allotted : tables.Allotted) :
    after.Allotted := by
  cases edit with
  | added entry =>
      intro part member
      have given := allotted part member
      change part.fileId ≤ tables.lastEntryId + 1
      omega
  | removedFiles =>
      exact fun part member => allotted part (List.mem_of_mem_filter member)
  | stored part _ _ file =>
      intro other member
      rcases List.mem_append.mp member with old | new
      · exact allotted other old
      · obtain ⟨entry, entryMember, isFile, -⟩ := file
        rw [List.mem_singleton.mp new, ← isFile]
        exact listed.row_le entry entryMember
  | linked id paths =>
      obtain ⟨targets, links, isResult⟩ := setLinks_eq id paths tables
      rw [isResult]
      exact allotted
  | _ =>
      exact allotted

/-- What parts are stored for files whose ids were given are of such files. -/
theorem stores_allotted
    (last : Int) :
    EnduresStoring (fun _ => True) (· ≤ last) fun tables =>
      Gave last tables ∧ tables.Allotted where
  recorded _ _ _ _ _ _ before := before
  stored tables part given _ before := by
    refine ⟨before.1, fun other member => ?_⟩
    rcases List.mem_append.mp member with old | new
    · exact before.2 other old
    · rw [List.mem_singleton.mp new]
      exact given.trans before.1
  replaced tables id data _ before := by
    refine ⟨before.1, fun part member => ?_⟩
    obtain ⟨old, oldMember, rfl⟩ := List.mem_map.mp member
    have given := before.2 old oldMember
    split <;> exact given

/-- Ids are not taken back by edits. -/
theorem endures_gave
    (id : Int) :
    EnduresWriting (fun _ => True) (fun _ => True) (Gave id) where
  touchable _ _ _ _ _ := trivial
  added _ _ _ _ gave := gave.trans (Int.le_of_lt (Int.lt_succ _))
  modified _ _ _ _ _ gave := gave
  trashed _ _ _ _ _ gave := gave
  elsewhere _ _ _ _ gave := gave
  removed _ _ _ gave := gave
  removedFile _ _ _ _ gave := gave
  fresh _ _ := ⟨trivial, trivial⟩
  created _ _ gave := gave.trans (Int.le_of_lt (Int.lt_succ _))
  recorded _ _ _ _ _ _ gave := gave
  stored _ _ _ _ gave := gave
  replaced _ _ _ _ gave := gave

end Tables

namespace Txn

open Tables VersionStore.Action

/-- A copy that is made has a number of its own, and so have its parts. -/
theorem copyEntry_numbers
    {setting : Setting}
    {before : Tables}
    (numbered : before.Numbered)
    (listed : before.Listed)
    (now : Int)
    (path : CleanPath)
    (source : Entry)
    (time? : Option Int) :
    Works setting (· = before) (copyEntry now path source time?)
      (fun _ => Tables.Numbered) fun _ => Tables.Numbered := by
  have counts tables
      (result : Edited (fun _ => False) before tables ∧ tables.Ordered) :
      tables.Numbered := by
    obtain ⟨edited, ordered⟩ := result
    have allotted :=
      edited.preserves (fun _ _ reached edit => edit.allotted (reached.listed listed))
        numbered.file_le
    exact allotted.numbered ordered (edited.listed listed)
  refine ((copyEntry_edits now path source time? listed).both
    (copyEntry_endures endures_ordered now path source time? fun _ _ _ => trivial)).weaken ?_
      (fun _ => counts) fun _ => counts
  rintro _ rfl
  exact ⟨.refl _ _, numbered.toOrdered⟩

end Txn

end VersionStore
