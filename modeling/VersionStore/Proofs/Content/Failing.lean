import VersionStore.Proofs.Content.Placing
import VersionStore.Proofs.Session.Calls

namespace VersionStore

/-!
# Calls that fail

Inside a transaction nothing undoes a single call, and yet most calls that fail change
nothing. They check what they need before their first change, and nothing after it can go
wrong: directories lead to a path at which there was a file, a directory that was just made is
empty, and a row that was just added is found. Two things remain. A source may fail after some of
its bytes were stored, and the name of an entry may not do for a path when others were
restored already.
-/

open Tables

namespace Action

variable {setting : Setting} {cut : Fault → Prop} {before : Tables}

/-- The failure of an action leaves the tables as they were, unless the action was cut off. -/
def Spares (setting : Setting) (cut : Fault → Prop) (before : Tables) (action : Action α) : Prop :=
  Works setting (· = before) action (fun _ _ => True) fun fault tables =>
    tables = before ∨ cut fault

/-- A failure that leaves the tables is allowed anyway. -/
theorem Works.sparing
    {pre : Tables → Prop}
    {action : Action α}
    {post : α → Tables → Prop}
    (works : Works setting pre action post fun _ tables => tables = before) :
    Works setting pre action post fun fault tables => tables = before ∨ cut fault :=
  works.weaken (fun _ holds => holds) (fun _ _ holds => holds) fun _ _ same => .inl same

namespace Spares

/-- What leaves the tables when it fails spares them. -/
theorem of_works
    {action : Action α}
    {post : α → Tables → Prop}
    (works : Works setting (· = before) action post fun _ tables => tables = before) :
    Spares setting cut before action :=
  (works.promising fun _ _ _ => trivial).sparing

/-- What fails only when it is cut off spares the tables otherwise. -/
theorem of_certain
    {action : Action α}
    (works : Works setting (· = before) action (fun _ _ => True) fun fault _ => cut fault) :
    Spares setting cut before action :=
  works.weaken (fun _ same => same) (fun _ _ _ => trivial) fun _ _ failed => .inr failed

/-- A value alone. -/
theorem pure
    (value : α) :
    Spares setting cut before (Pure.pure value) :=
  Works.pure fun _ _ => trivial

/-- A failure before the first change. -/
theorem throw
    {fault : Fault} :
    Spares setting cut before (MonadExcept.throw fault : Action α) :=
  Works.throw fun _ same => .inl same

/-- The tables are looked at before anything is changed. -/
theorem looking
    {action : Action α}
    {next : α → Action β}
    (keeps : Keeps setting (· = before) action)
    (spares : ∀ value, Spares setting cut before (next value)) :
    Spares setting cut before (action >>= next) :=
  .bind (fun _ => (· = before)) keeps.sparing spares

/-- What follows the first change fails only when it is cut off. -/
theorem changing
    {action : Action α}
    {next : α → Action β}
    (middle : α → Tables → Prop)
    (first :
      Works setting (· = before) action middle fun fault tables => tables = before ∨ cut fault)
    (certain :
      ∀ value,
        Works setting (middle value) (next value) (fun _ _ => True) fun fault _ => cut fault) :
    Spares setting cut before (action >>= next) :=
  .bind middle first fun value =>
    (certain value).weaken (fun _ holds => holds) (fun _ _ _ => trivial) fun _ _ failed => .inr failed

/-- A lock that is refused changes nothing. -/
theorem locked
    {entry : Entry}
    {exclusive : Bool}
    {action : Action α}
    (spares : Spares setting cut before action) :
    Spares setting cut before (Action.locked entry exclusive action) :=
  Works.locked (fun _ => spares) fun _ same => .inl same

end Spares

end Action

namespace Tables

variable {tables after : Tables} {id : Int}

/-- A row has this id. -/
def HasRow (id : Int) (tables : Tables) : Prop :=
  ∃ entry ∈ tables.entries, entry.id = id

/-- Rows are told by the entries alone. -/
theorem HasRow.congr
    (row : tables.HasRow id)
    (same : after.entries = tables.entries) :
    after.HasRow id := by
  rwa [HasRow, same]

/-- A row that was just added is there. -/
theorem hasRow_addEntry
    (tables : Tables)
    (entry : Entry) :
    (tables.addEntry entry).2.HasRow (tables.addEntry entry).1 :=
  ⟨_, List.mem_append_right _ (List.mem_singleton_self _), rfl⟩

/-- A row that is changed keeps its id. -/
theorem HasRow.modifyEntry
    (row : tables.HasRow id)
    (changed : Int)
    {change : Entry → Entry}
    (same : ∀ entry : Entry, (change entry).id = entry.id) :
    (tables.modifyEntry changed change).HasRow id := by
  obtain ⟨entry, member, isRow⟩ := row
  refine ⟨_, List.mem_map_of_mem member, ?_⟩
  split
  · rw [same, isRow]
  · exact isRow

/-- Adding copies of parts is not about rows. -/
theorem HasRow.copyParts
    (row : tables.HasRow id)
    (target source : Int) :
    (tables.copyParts target source).HasRow id := by
  obtain ⟨parts, lastPartId, isResult⟩ := addCopies_eq target (tables.partsOf source) tables
  rw [Tables.copyParts, isResult]
  exact row.congr rfl

/-- Setting links is not about rows. -/
theorem HasRow.setLinks
    (row : tables.HasRow id)
    (source : Int)
    (paths : List String) :
    (tables.setLinks source paths).HasRow id := by
  obtain ⟨targets, links, isResult⟩ := setLinks_eq source paths tables
  rw [isResult]
  exact row.congr rfl

/-- No file is in the way to a path at which something is found. -/
theorem Coherent.leads_of_found
    {path : CleanPath}
    {entry : Entry}
    (coherent : tables.Coherent)
    (proper : ¬path.isRoot = true)
    (found : tables.lookupAt? path = some entry) :
    tables.sights.Leads path.dropLast := by
  obtain ⟨names, name, whole, directory, -⟩ := Txn.exists_names_of_not_isRoot proper
  have here := coherent.lookupAt?_eq_some_iff.mp found
  rw [whole] at here
  obtain ⟨holder, above, member, -, live, held, -⟩ := here.of_concat
  have isDirectory := (coherent.isLiveDirectory_of_holds member live above.member held).isDirectory
  intro other version along isFile
  rw [directory] at along
  obtain ⟨rest, rfl⟩ := along
  obtain ⟨upper, there⟩ := above.of_append
  have upperIsDirectory :=
    Txn.isDirectory_along coherent (List.prefix_append _ _) there above isDirectory
  rw [coherent.sights_of_at there, sightOf_directory upperIsDirectory] at isFile
  cases isFile

end Tables

namespace Txn

open VersionStore.Action

variable
  {setting : Setting}
  {cut : Fault → Prop}
  {strict : Prop}
  {known : List Entry}
  {before : Tables}
  {entry : Entry}

/-- A row that is there is found again. -/
theorem requireRow_certain
    {pre : Tables → Prop}
    {id : Int}
    (there : ∀ tables, pre tables → tables.HasRow id)
    (fault : Fault) :
    Works setting pre (do Action.require fault (← query fun tables => tables.entry? id))
      (fun _ _ => True) fun _ _ => False :=
  (requireRow_works there fault).promising fun _ _ _ => trivial

/-! ## Deleting -/

/-- A deletion fails only when the lock is refused. -/
theorem deleteExisting_spares
    (now : Int)
    (entry : Entry) :
    Spares setting cut before (deleteExisting now entry) := by
  refine .locked (.of_certain (.get fun store _ => ?_))
  refine .ite (fun _ => .bind (fun _ _ => True) (trashRow_works fun _ _ => trivial) fun _ => ?_)
    fun _ => .bind (fun _ _ => True) (pruneRow_works fun _ _ => trivial) fun _ => ?_
  · exact .pure fun _ _ => trivial
  · exact .pure fun _ _ => trivial

theorem deleteEntry_spares
    (now : Int)
    (entry : Entry) :
    Spares setting cut before (deleteEntry now entry) := by
  refine .ite (fun _ => Spares.pure _) fun _ => ?_
  refine Spares.looking (.query fun _ same => same) fun empty => ?_
  exact .ite (fun _ => Spares.pure _) fun _ =>
    deleteExisting_spares now entry

theorem delete_spares
    (now : Int)
    (text : String) :
    Spares setting cut before (delete now text) := by
  refine .looking (stat_keeps text) fun found => ?_
  cases found with
  | some entry =>
      exact deleteEntry_spares now entry
  | none =>
      exact .pure _

/-- Pruning never fails. -/
theorem prune_certain
    {pre : Tables → Prop}
    (now : Int)
    (entry : Entry) :
    Works setting pre (prune now entry) (fun _ _ => True) fun _ _ => False := by
  refine .ite (fun _ => ?_) fun _ => ?_
  · refine .bind (fun _ _ => True) (.query fun _ _ => trivial) fun empty => ?_
    refine .ite (fun _ => ?_) fun _ => .pure fun _ _ => trivial
    exact .bind (fun _ _ => True) (trashRow_works fun _ _ => trivial) fun _ =>
      .pure fun _ _ => trivial
  · exact .bind (fun _ _ => True) (pruneRow_works fun _ _ => trivial) fun _ =>
      .pure fun _ _ => trivial

/-- Pruning versions never fails, and neither does the sweep that follows. -/
theorem pruneHistory_certain
    {pre : Tables → Prop}
    (infos : List TrashEntry)
    (all : Bool) :
    Works setting pre (pruneHistory infos all) (fun _ _ => True) fun _ _ => False := by
  have rows (versions : List Entry) :
      Works setting (fun _ => True) (pruneRows versions) (fun _ _ => True) fun _ _ => False := by
    induction versions with
    | nil =>
        exact .pure fun _ _ => trivial
    | cons version rest inductionHypothesis =>
        exact .bind (fun _ _ => True) (pruneRow_works fun _ _ => trivial) fun _ =>
          .bind _ inductionHypothesis fun _ => .pure fun _ _ => trivial
  have versions :
      Works setting (fun _ => True) (pruneVersions all infos) (fun _ _ => True)
        fun _ _ => False := by
    induction infos with
    | nil =>
        exact .pure fun _ _ => trivial
    | cons info rest inductionHypothesis =>
        refine .ite (fun _ => inductionHypothesis) fun _ => ?_
        exact .bind (fun _ _ => True) (.query fun _ _ => trivial) fun meant =>
          .bind _ (rows meant) fun _ => .bind _ inductionHypothesis fun _ =>
            .pure fun _ _ => trivial
  refine .bind _ (versions.asking fun _ _ => trivial) fun _ => .bind (fun _ _ => True) ?_ fun _ =>
    .pure fun _ _ => trivial
  exact .named fun start _ => (sweep_works none start).promising fun _ _ _ => trivial

/-! ## Making room -/

theorem makeDirectories_spares
    (now : Int)
    (sound : before.Sound strict known)
    (text : String) :
    Spares setting cut before (makeDirectories now text) :=
  .looking (clean_keeps text) fun path =>
    .of_works (makeDirectoriesAt_works now sound path)

/-- Room is made at a path, or nothing is changed. -/
theorem clearForWrite_spares
    (now : Int)
    (sound : before.Sound strict known)
    (path : CleanPath) :
    Spares setting cut before (clearForWrite now path) := by
  unfold clearForWrite
  simp only [throw_bind]
  refine .ite (fun _ => Spares.throw) fun proper => ?_
  refine .bind (fun found tables => found = before.lookupAt? path ∧ tables = before)
    (entryAt?_known path).surely fun found => ?_
  refine .assuming (found = before.lookupAt? path) (fun _ looked => looked.1) ?_
  rintro rfl
  suffices spares : Spares setting cut before _ from spares.asking fun _ looked => looked.2
  cases found : before.lookupAt? path with
  | none =>
      exact Spares.of_works (makeRoom_works now proper sound found)
  | some entry =>
      refine .ite (fun _ => Spares.throw) fun allowed => ?_
      have isFile : entry.isDirectory = false := by
        cases kind : entry.isDirectory with
        | false =>
            rfl
        | true =>
            simp [kind] at allowed
      refine Spares.changing (fun gone tables => gone = true ∧ Without strict known before path tables)
        ?_ fun gone => ?_
      · intro store inScope same
        obtain ⟨alike, ended⟩ :=
          deleteExisting_seen now sound ⟨found, isFile⟩ store inScope rfl same
        obtain ⟨-, spared⟩ := deleteExisting_spares now entry store inScope same
        refine ⟨alike, ?_⟩
        rcases ran : (deleteExisting now entry).runOn store with ⟨fault | gone, left⟩
        · rw [ran] at spared
          exact spared
        · rw [ran] at ended
          exact ended.2
      · refine .assuming (gone = true) (fun _ cleared => cleared.1) ?_
        rintro rfl
        refine .ite (fun absurd => (Bool.false_ne_true absurd).elim) fun _ => ?_
        refine .named fun left ⟨_, leftSound, seen, _⟩ => ?_
        refine (makeDirectoriesAt_leads now leftSound path.dropLast).weaken (fun _ same => same)
          (fun _ _ _ => trivial) fun _ _ blocked => (blocked ?_).elim
        rw [seen, Sights.leads_set_iff proper]
        exact sound.coherent.leads_of_found proper found

/-! ## Writing and copying -/

/-- A row that is added is there. -/
theorem createEntry_certain
    {pre : Tables → Prop}
    {failed : Fault → Tables → Prop}
    (directory : Int)
    (name : String)
    (isDirectory : Bool)
    (modified : Int) :
    Works setting pre
      (insert fun tables => tables.createEntry directory name isDirectory modified)
      (fun id => HasRow id) failed :=
  .insert fun tables _ => hasRow_addEntry tables _

/-- A content is stored, unless the source fails. -/
theorem storeContent_certain
    {id : Int}
    (source : Source) :
    Works setting (HasRow id) (storeContent id source) (fun _ => HasRow id)
      fun fault _ => source.FailsWith fault :=
  (storeContent_works (fun _ _ _ row => row.congr rfl) source).weaken (fun _ row => row)
    (fun _ _ row => row) fun _ _ failed => failed.2

theorem writeFrom_spares
    (now : Int)
    (sound : before.Sound strict known)
    (text : String)
    (source : Source)
    (links? : Option (List String))
    (time? : Option Int) :
    Spares setting source.FailsWith before (writeFrom now text source links? time?) := by
  refine .looking (clean_keeps text) fun path => ?_
  refine .changing (fun _ _ => True) (clearForWrite_spares now sound path) fun directory => ?_
  refine .bind _ (createEntry_certain directory path.name false _) fun id => ?_
  refine .bind _ (storeContent_certain source) fun stored => ?_
  refine .bind (fun _ => HasRow id) (.update fun _ row => row.modifyEntry id fun _ => rfl)
    fun _ => ?_
  cases links? with
  | some links =>
      exact .bind (fun _ => HasRow id) (.update fun _ row => row.setLinks id links) fun _ =>
        (requireRow_certain (fun _ row => row) _).surely
  | none =>
      exact (requireRow_certain (fun _ row => row) _).surely

theorem copyEntry_spares
    (now : Int)
    (sound : before.Sound strict known)
    (path : CleanPath)
    (source : Entry)
    (time? : Option Int) :
    Spares setting cut before (copyEntry now path source time?) := by
  unfold copyEntry
  refine .locked (.looking (.entryAt? fun _ same => same) fun existing => ?_)
  have copying :
      Spares setting cut before (do
        let directory ← clearForWrite now path
        let modified := time?.getD now
        let id ← Action.insert fun tables =>
          tables.createEntry directory path.name false modified
        update fun tables =>
          (tables.copyParts id source.id).recordContent id source.length modified source.checksum
        Action.require (.notFound path.text) (← query fun tables => tables.entry? id)) := by
    refine .changing (fun _ _ => True) (clearForWrite_spares now sound path) fun directory => ?_
    refine .bind _ (createEntry_certain directory path.name false _) fun id => ?_
    refine .bind (fun _ => HasRow id) (.update fun tables row => ?_) fun _ =>
      (requireRow_certain (fun _ row => row) _).surely
    exact (row.copyParts id source.id).modifyEntry id fun _ => rfl
  cases existing with
  | some existing =>
      simp only [throw_bind]
      exact .ite (fun _ => Spares.throw) fun _ => copying
  | none =>
      exact copying

theorem copy_spares
    (now : Int)
    (sound : before.Sound strict known)
    (target source : String)
    (time? : Option Int) :
    Spares setting cut before (copy now target source time?) :=
  .looking (clean_keeps source) fun origin => .looking (requireFile_keeps origin) fun entry =>
    .looking (clean_keeps target) fun path => copyEntry_spares now sound path entry time?

/-- Directories for a snapshot are never refused. -/
theorem snapshotDirectory_certain
    (now : Int)
    (sound : before.Sound strict known)
    (names : List Name) :
    Works setting (· = before) (snapshotDirectory now names) (fun _ _ => True)
      fun _ _ => False :=
  (snapshotDirectory_works now names).weaken (fun _ same => same ▸ sound) (fun _ _ _ => trivial)
    fun _ _ absurd => absurd

theorem snapshot_spares
    (now : Int)
    (sound : before.Sound strict known)
    (text : String)
    (source? : Option Source)
    (time? : Option Int) :
    Spares setting (fun fault => ∃ source ∈ source?, source.FailsWith fault) before
      (snapshot now text source? time?) := by
  refine .looking (clean_keeps text) fun path => ?_
  simp only [throw_bind]
  refine .ite (fun _ => Spares.throw) fun _ => ?_
  cases source? with
  | none =>
      refine Spares.looking (requireFile_keeps path) fun live => .locked ?_
      refine .changing (fun _ _ => True) (snapshotDirectory_certain now sound _).surely
        fun directory => ?_
      exact .bind (fun _ _ => True) (.insert fun _ _ => trivial) fun id =>
        .update fun _ _ => trivial
  | some source =>
      refine Spares.changing (fun _ _ => True) (snapshotDirectory_certain now sound _).surely
        fun directory => ?_
      refine .bind (fun id => HasRow id) (.insert fun tables _ => hasRow_addEntry tables _)
        fun id => .bind (fun _ => HasRow id) ?_ fun stored => .update fun _ _ => trivial
      exact (storeContent_certain source).weaken (fun _ row => row) (fun _ _ row => row)
        fun _ _ failed => ⟨source, rfl, failed⟩

/-! ## Moving and attributes -/

theorem moveTo_spares
    (now : Int)
    (sound : before.Sound strict known)
    (target source : String)
    (time? : Option Int) :
    Spares setting cut before (moveTo now target source time?) := by
  refine .looking (clean_keeps target) fun target => .looking (clean_keeps source) fun source => ?_
  refine .bind (fun entry tables => tables = before ∧ before.HasRow entry.id) ?_ fun entry => ?_
  · refine .bind (fun found tables => found = before.lookupAt? source ∧ tables = before)
      (entryAt?_known source).surely fun found => .require ?_ fun _ _ looked => .inl looked.2
    rintro entry rfl _ ⟨found, rfl⟩
    exact ⟨rfl, entry, (mem_of_lookup? found.symm).1, rfl⟩
  refine .assuming (before.HasRow entry.id) (fun _ looked => looked.2) fun row => ?_
  suffices spares : Spares setting cut before _ from spares.asking fun _ looked => looked.1
  refine .looking (.entryAt? fun _ same => same) fun taken => ?_
  simp only [throw_bind]
  refine .ite (fun _ => Spares.throw) fun _ => ?_
  refine .ite (fun _ => Spares.throw) fun _ => Spares.locked ?_
  refine .changing (fun _ => HasRow entry.id)
    ((makeDirectoriesAt_works now sound target.dropLast).promising fun _ _ reached => ?_).sparing
    fun parent => ?_
  · obtain ⟨there, member, isRow⟩ := row
    exact ⟨there, reached.subset member, isRow⟩
  refine .bind (fun _ => HasRow entry.id) (.update fun tables row => ?_) fun _ =>
    (requireRow_certain (fun _ row => row) _).surely
  have moved :
      (tables.modifyEntry entry.id fun moved =>
        { moved with
          directoryId := parent
          name := target.name
          lastModified := time?.getD now }).HasRow entry.id :=
    row.modifyEntry entry.id fun _ => rfl
  split
  · obtain ⟨directories, isResult, -⟩ := rewritePaths_eq _ _ _
    rw [renameTree, isResult]
    exact moved.congr rfl
  · exact moved

theorem changeAt_spares
    (text : String)
    (change : Tables → Int → Tables) :
    Spares setting cut before (changeAt text change) := by
  refine .looking (stat_keeps text) fun found => ?_
  cases found with
  | some entry =>
      exact .of_certain (.bind (fun _ _ => True) (.update fun _ _ => trivial) fun _ =>
        .pure fun _ _ => trivial)
  | none =>
      exact .pure _

/-! ## Restoring versions -/

/-- One of several entries has no path to be restored to. -/
def NoTarget (target : CleanPath) (single : Bool) (infos : List TrashEntry) (fault : Fault) :
    Prop :=
  single = false ∧ ∃ info ∈ infos, target.join info.entry.name = .error fault

/-- Versions are restored one after the other, each of them or not, unless one has no path. -/
theorem restoreEach_certain
    (now : Int)
    (target : CleanPath)
    (single : Bool)
    (infos : List TrashEntry) :
    Works setting (Tables.Sound strict known) (restoreEach now target single infos)
      (fun _ => Tables.Sound strict known) fun fault _ => NoTarget target single infos fault := by
  induction infos with
  | nil =>
      exact .pure fun _ sound => sound
  | cons info rest inductionHypothesis =>
      rw [restoreEach]
      refine .bind (fun _ => Tables.Sound strict known) ?_ fun path => ?_
      · unfold restoreTarget
        refine .ite (fun _ => .pure fun _ sound => sound) fun several => .ofExcept fun _ sound => ?_
        cases joined : target.join info.entry.name with
        | ok path =>
            exact sound
        | error fault =>
            exact ⟨Bool.eq_false_iff.mpr several, info, by simp, joined⟩
      refine .bind _
        (Works.attempt ((restore_keeps now path info).transaction fun _ _ _ start _ => start))
        fun outcome => ?_
      refine .bind (fun _ => Tables.Sound strict known) ?_ fun counts => .pure fun _ sound => sound
      refine inductionHypothesis.weaken (fun tables ended => ?_) (fun _ _ sound => sound) ?_
      · cases outcome <;> exact ended
      · rintro fault _ ⟨several, other, member, joined⟩
        exact ⟨several, other, List.mem_cons_of_mem _ member, joined⟩

end Txn

namespace Call

open VersionStore.Action

/-- A fault that can cut a call off after its first change: its source fails with it, or one of
several entries that it restores has no path. -/
def CutBy : Call → Fault → Prop
  | writeFrom _ source _ _ => source.FailsWith
  | snapshot _ source? _ => fun fault => ∃ source ∈ source?, source.FailsWith fault
  | recover target infos => fun fault =>
      ∃ path,
        CleanPath.ofText target = .ok path ∧
          Txn.NoTarget path (infos.length == 1) infos fault
  | _ => fun _ => False

/-- A call leaves the tables as they were when it fails, unless it is cut off. -/
theorem inside_spares
    {setting : Setting}
    {strict : Prop}
    {known : List Entry}
    {before : Tables}
    (now : Int)
    (call : Call)
    (sound : before.Sound strict known) :
    Spares setting call.CutBy before (call.inside now) := by
  cases call with
  | stat text =>
      exact Works.ignoring_iff.mpr (Spares.of_works (Txn.stat_keeps text))
  | list text =>
      exact Works.ignoring_iff.mpr (Spares.of_works (Txn.list_keeps text))
  | makeDirectories text =>
      exact Works.ignoring_iff.mpr (Txn.makeDirectories_spares now sound text)
  | write text data links? time? =>
      refine Works.ignoring_iff.mpr ?_
      refine (Txn.writeFrom_spares now sound text (.ofBytes data) links? time?).weaken
        (fun _ same => same) (fun _ _ _ => trivial) fun fault _ spared => spared.imp_right ?_
      rintro ⟨failure, fails, -⟩
      unfold Source.failure? at fails
      split at fails
      · cases fails
      · cases fails
  | writeFrom text source links? time? =>
      exact Works.ignoring_iff.mpr (Txn.writeFrom_spares now sound text source links? time?)
  | snapshot text source? time? =>
      exact Txn.snapshot_spares now sound text source? time?
  | delete text =>
      exact Works.ignoring_iff.mpr (Txn.delete_spares now text)
  | deleteEntry entry =>
      exact Works.ignoring_iff.mpr (Txn.deleteEntry_spares now entry)
  | copy target source time? =>
      exact Works.ignoring_iff.mpr (Txn.copy_spares now sound target source time?)
  | moveTo target source time? =>
      exact Works.ignoring_iff.mpr (Txn.moveTo_spares now sound target source time?)
  | setLastModified text time =>
      exact Works.ignoring_iff.mpr (Txn.changeAt_spares text _)
  | setWritable text writable =>
      exact Works.ignoring_iff.mpr (Txn.changeAt_spares text _)
  | setLinks text targets =>
      exact Works.ignoring_iff.mpr (Txn.changeAt_spares text _)
  | prune entry =>
      exact Works.ignoring_iff.mpr (Spares.of_certain (Txn.prune_certain now entry).surely)
  | pruneHistory infos all =>
      exact Works.ignoring_iff.mpr (Spares.of_certain (Txn.pruneHistory_certain infos all).surely)
  | recover target infos =>
      refine Works.ignoring_iff.mpr (.bind (fun path tables =>
        tables = before ∧ CleanPath.ofText target = .ok path) ?_ fun path => ?_)
      · exact .clean (fun path isPath _ same => ⟨same, isPath⟩) fun _ _ same => .inl same
      · refine .assuming _ (fun _ cleaned => cleaned.2) fun isPath => ?_
        have restores :
            Works setting (Tables.Sound strict known)
              (Txn.restoreEach now path (infos.length == 1) infos) (fun _ => Tables.Sound strict known)
              fun fault _ => Txn.NoTarget path (infos.length == 1) infos fault :=
          Txn.restoreEach_certain now path _ infos
        refine restores.weaken ?_ (fun _ _ _ => trivial) fun _ _ failed => .inr ⟨path, isPath, failed⟩
        rintro _ ⟨rfl, -⟩
        exact sound
  | sweep select? =>
      exact Works.ignoring_iff.mpr (Spares.of_certain
        ((Txn.sweep_works select? before).promising fun _ _ _ => trivial).surely)

end Call

end VersionStore
