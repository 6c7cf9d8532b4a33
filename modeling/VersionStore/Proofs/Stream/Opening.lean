import VersionStore.Proofs.Action.Scopes
import VersionStore.Proofs.Tree.Writing
import VersionStore.Stream.Writer

namespace VersionStore

/-!
# Opening writers

A writer is opened in a transaction of its own. At the end of it the writer holds an
exclusive lock on its file, which no one held before, and apart from that no lock has
changed. A new file is placed in a live directory at a name that is free there.
-/

namespace Writer

open Tables VersionStore.Action

/-- An action that opens a writer in a scope. -/
def Opens
    (setting : Setting)
    (pre : Tables → Prop)
    (action : Action Writer)
    (post : Writer → Tables → Prop) :
    Prop :=
  ∀ store : Store,
    store.InScope setting →
    pre store.tables →
    ∃ locks : LockTable,
      locks.Sane ∧
        Store.Alike { store with locks } (action.runOn store).2 ∧
        (∀ fault,
          (action.runOn store).1 = .error fault →
          store.locks.Same (action.runOn store).2.locks) ∧
        ∀ writer,
          (action.runOn store).1 = .ok writer →
          (∃ guard given,
            store.locks.lock? writer.fileId true = some (guard, given) ∧
              given.Same (action.runOn store).2.locks ∧ writer.guard = some guard) ∧
          post writer (action.runOn store).2.tables

namespace Opens

variable
  {setting : Setting}
  {pre : Tables → Prop}
  {post : Writer → Tables → Prop}

/-- Nothing is opened. -/
theorem throw
    {fault : Fault} :
    Opens setting pre (MonadExcept.throw fault) post :=
  fun store inScope _ => ⟨store.locks, inScope.sane, .refl store, fun _ _ => .refl _,
    fun _ isWriter => nomatch isWriter⟩

/-- A case distinction. -/
theorem ite
    {condition : Prop}
    [Decidable condition]
    {yes no : Action Writer}
    (positive : condition → Opens setting pre yes post)
    (negative : ¬condition → Opens setting pre no post) :
    Opens setting pre (if condition then yes else no) post := by
  by_cases holds : condition
  · rw [if_pos holds]
    exact positive holds
  · rw [if_neg holds]
    exact negative holds

/-- More may be asked before. -/
theorem asking
    {action : Action Writer}
    {pre' : Tables → Prop}
    (opens : Opens setting pre' action post)
    (stronger : ∀ tables, pre tables → pre' tables) :
    Opens setting pre action post :=
  fun store inScope before => opens store inScope (stronger _ before)

/-- What holds anyway may be used. -/
theorem assuming
    {action : Action Writer}
    (fact : Prop)
    (holds : ∀ tables, pre tables → fact)
    (opens : fact → Opens setting pre action post) :
    Opens setting pre action post :=
  fun store inScope before => opens (holds _ before) store inScope before

/-- The tables before may be given a name. -/
theorem named
    {action : Action Writer}
    (opens : ∀ start, pre start → Opens setting (· = start) action post) :
    Opens setting pre action post :=
  fun store inScope before => opens store.tables before store inScope rfl

/-- Work, and the opening of a writer after it. -/
theorem bind
    {action : Action α}
    {next : α → Action Writer}
    (middle : α → Tables → Prop)
    (works : Works setting pre action middle fun _ _ => True)
    (opens : ∀ value, Opens setting (middle value) (next value) post) :
    Opens setting pre (action >>= next) post := by
  intro store inScope before
  obtain ⟨alike, ended⟩ := works store inScope before
  rw [runOn_bind]
  rcases ran : action.runOn store with ⟨fault | value, left⟩
  · rw [ran] at alike
    exact ⟨store.locks, inScope.sane, alike, fun _ _ => alike.locks,
      fun _ isWriter => nomatch isWriter⟩
  · rw [ran] at alike ended
    dsimp only at alike ended ⊢
    obtain ⟨locks, sane, alikeAfter, failed, done⟩ :=
      opens value left (alike.inScope inScope) ended
    refine ⟨locks, sane, ?_, fun fault isFault => alike.locks.trans (failed fault isFault), ?_⟩
    · have sameFrame : ({ left with locks } : Store).frame = ({ store with locks } : Store).frame := by
        have same := congrArg (fun store : Store => { store with locks := {} }) alike.frame
        exact same
      have between : Store.Alike { store with locks } { left with locks } :=
        ⟨sameFrame, .refl _, alike.free, alike.noted, alike.wrote⟩
      exact between.trans alikeAfter
    · intro writer isWriter
      obtain ⟨⟨guard, given, taken, same, held⟩, after⟩ := done writer isWriter
      obtain ⟨first, takenFirst, sameFirst⟩ := alike.locks.lock? taken
      exact ⟨⟨guard, first, takenFirst, sameFirst.trans same, held⟩, after⟩

/-- A lock, and a writer that is made with it. -/
theorem lockId
    {id : Int}
    {refusal : Fault}
    {make : Guard → Action Writer}
    (works :
      ∀ guard,
        ¬setting.busy id →
        ¬setting.held id →
        Works setting pre (make guard)
          (fun writer tables => writer.fileId = id ∧ writer.guard = some guard ∧ post writer tables)
          fun _ _ => False) :
    Opens setting pre (Action.lockId id true refusal >>= make) post := by
  intro store inScope before
  rw [runOn_bind, runOn_lockId]
  cases taken : store.locks.lock? id true with
  | none =>
      exact ⟨store.locks, inScope.sane, .refl store, fun _ _ => .refl _,
        fun _ isWriter => nomatch isWriter⟩
  | some pair =>
      obtain ⟨guard, locks⟩ := pair
      have idle : ¬setting.busy id := fun busy =>
        LockTable.hold?_ne_exclusive_of_lock? taken (inScope.busy _ busy)
      have alone : ¬setting.held id := fun held =>
        inScope.held _ held (LockTable.hold?_of_lock?_exclusive taken)
      obtain ⟨alike, ended⟩ := works guard idle alone _ (inScope.locked taken) before
      refine ⟨locks, inScope.sane.lock? taken, alike, fun fault isFault => ?_,
        fun writer isWriter => ?_⟩
      · dsimp only at isFault
        rw [isFault] at ended
        exact ended.elim
      · dsimp only at isWriter
        rw [isWriter] at ended
        obtain ⟨same, held, after⟩ := ended
        rw [same]
        exact ⟨⟨guard, locks, taken, alike.locks, held⟩, after⟩

end Opens

/-- A writer that goes on behind some parts is a writer of its file. -/
theorem resuming_fileId
    (path : String)
    (fileId : Int)
    (guard : Guard)
    (contents : List Content) :
    (resuming path fileId guard contents).fileId = fileId := by
  unfold resuming
  dsimp only
  split
  · rfl
  · split <;> rfl

/-- A writer that goes on behind some parts holds the lock that it was given. -/
theorem resuming_guard
    (path : String)
    (fileId : Int)
    (guard : Guard)
    (contents : List Content) :
    (resuming path fileId guard contents).guard = some guard := by
  unfold resuming
  dsimp only
  split
  · rfl
  · split <;> rfl

section Start

variable
  {setting : Setting}
  {strict : Prop}
  {known : List Entry}

/-- A name that is free in a live directory has room for a file. -/
theorem vacant_of_lookupAt?
    {tables : Tables}
    (sound : tables.Sound strict known)
    {path parent : CleanPath}
    {directory : Entry}
    (isParent : path.parent? = some parent)
    (missing : tables.lookupAt? path = none)
    (found : tables.lookupAt? parent = some directory)
    (isDirectory : directory.isDirectory = true) :
    tables.Vacant directory.id path.name := by
  have proper : ¬path.isRoot = true := by
    intro isRoot
    simp [CleanPath.parent?, isRoot] at isParent
  have same : path.dropLast = parent := by
    simpa [CleanPath.parent?, proper] using isParent
  obtain ⟨names, name, whole, above, isName⟩ := Txn.exists_names_of_not_isRoot proper
  have reached : Txn.Reached strict known tables names directory.id tables := by
    refine .of_at sound ?_ isDirectory
    rw [← above, same]
    exact sound.coherent.lookupAt?_eq_some_iff.mp found
  refine ⟨?_, reached.isLiveDirectory, ?_⟩
  · rw [isName]
    exact name.property
  · rw [isName]
    apply reached.free sound.coherent
    rwa [← whole]

variable {holds : Tables → Prop} {post : Writer → Tables → Prop}

/-- A writer on a new file in the place of nothing. -/
theorem create_opens
    (setting : Setting)
    (now : Int)
    (path : CleanPath)
    (created :
      ∀ before id after guard,
        holds before →
        before.Sound strict known →
        before.Vacant id path.name →
        before.createEntry id path.name false now = (before.lastEntryId + 1, after) →
        post (fresh path.text (before.lastEntryId + 1) guard) after) :
    Opens setting
      (fun tables => (tables.Sound strict known ∧ holds tables) ∧ tables.lookupAt? path = none)
      (create now path) post := by
  refine .named fun before ⟨⟨sound, kept⟩, missing⟩ => ?_
  refine .bind (fun parent tables => tables = before ∧ path.parent? = some parent)
    (.require (fun parent isParent _ same => ⟨same, isParent⟩) fun _ _ _ => trivial)
    fun parent => ?_
  refine .bind
    (fun found tables =>
      (tables = before ∧ path.parent? = some parent) ∧ found = before.lookupAt? parent)
    (.entryAt? fun tables holds => ⟨holds, by rw [holds.1]⟩) fun found => ?_
  refine .bind
    (fun directory tables =>
      (tables = before ∧ path.parent? = some parent) ∧
        before.lookupAt? parent = some directory)
    (.require (fun directory isFound _ holds => ⟨holds.1, holds.2.symm.trans isFound⟩)
      fun _ _ _ => trivial)
    fun directory => ?_
  simp only [throw_bind]
  refine .ite (fun _ => .throw) fun isDirectory => ?_
  refine .assuming (before.Vacant directory.id path.name)
    (fun tables holds => vacant_of_lookupAt? sound holds.1.2 missing holds.2
      (by simpa using isDirectory))
    fun vacant => ?_
  refine .bind
    (fun id tables => (id, tables) = before.createEntry directory.id path.name false now)
    (.insert ?_) fun id => .lockId fun guard _ _ => .pure ?_
  · rintro tables ⟨⟨rfl, -⟩, -⟩
    rfl
  · intro tables isCreated
    have isId : id = before.lastEntryId + 1 :=
      congrArg Prod.fst isCreated
    subst isId
    exact ⟨rfl, rfl, created before directory.id tables guard kept sound vacant isCreated.symm⟩

/-- A writer at a path: behind the bytes of a file there, or on a new file, for which an old
one is deleted. -/
theorem start_opens
    (holds : Tables → Prop)
    (now : Int)
    (path : CleanPath)
    (append : Bool)
    (resumed :
      ∀ before entry guard,
        holds before →
        before.Sound strict known →
        before.lookupAt? path = some entry →
        entry.isDirectory = false →
        ¬setting.busy entry.id →
        post (resuming path.text entry.id guard (before.contents entry.id)) before)
    (deleted :
      ∀ before entry,
        holds before →
        Works setting (· = before) (Txn.deleteExisting now entry)
          (fun _ => Txn.Cleared strict known before entry) (fun _ _ => True) →
        Works setting (· = before) (Txn.deleteExisting now entry)
          (fun _ tables => Txn.Cleared strict known before entry tables ∧ holds tables)
          fun _ _ => True)
    (created :
      ∀ before id after guard,
        holds before →
        before.Sound strict known →
        before.Vacant id path.name →
        before.createEntry id path.name false now = (before.lastEntryId + 1, after) →
        post (fresh path.text (before.lastEntryId + 1) guard) after) :
    Opens setting (fun tables => tables.Sound strict known ∧ holds tables)
      (start now path append) post := by
  have creating := create_opens setting now path created
  refine .named fun before ⟨sound, kept⟩ => ?_
  refine .bind (fun found tables => tables = before ∧ found = before.lookupAt? path)
    (.entryAt? fun tables same => ⟨same, by rw [same]⟩) fun found => ?_
  cases found with
  | none =>
      refine creating.asking ?_
      rintro _ ⟨rfl, missing⟩
      exact ⟨⟨sound, kept⟩, missing.symm⟩
  | some entry =>
      simp only [throw_bind]
      refine .assuming (before.lookupAt? path = some entry) (fun _ same => same.2.symm)
        fun found => ?_
      refine .ite (fun _ => .throw) fun isFile => ?_
      have isFile : entry.isDirectory = false := Bool.eq_false_iff.mpr isFile
      refine .ite (fun _ => ?_) fun _ => .ite (fun _ => .throw) fun _ => ?_
      · refine .lockId fun guard idle _ => .bind
          (fun contents tables => tables = before ∧ contents = before.contents entry.id)
          (.query fun tables same => ⟨same.1, by rw [same.1]⟩) fun contents => .pure ?_
        rintro _ ⟨rfl, rfl⟩
        exact ⟨resuming_fileId _ _ _ _, resuming_guard _ _ _ _,
          resumed _ entry guard kept sound found isFile idle⟩
      · have here := sound.coherent.lookupAt?_eq_some_iff.mp found
        have clearing :
            Works setting (· = before) (Txn.deleteExisting now entry)
              (fun _ => Txn.Cleared strict known before entry) fun _ _ => True := by
          refine (Txn.deleteExisting_works now before).loosely.asking ?_
          rintro _ rfl
          refine ⟨rfl, sound, sound.coherent.agrees here.member, ?_⟩
          rw [Txn.Deletable, isFile]
          trivial
        refine .bind (fun _ tables => Txn.Cleared strict known before entry tables ∧ holds tables)
          ((deleted before entry kept clearing).asking fun _ same => same.1) fun gone => ?_
        refine .ite (fun _ => .throw) fun _ => creating.asking fun tables cleared => ?_
        exact ⟨⟨cleared.1.sound, cleared.2⟩,
            Txn.lookupAt?_of_cleared sound.coherent found cleared.1⟩

/-- A writer at a path keeps sound tables sound. -/
theorem start_sound
    (now : Int)
    (path : CleanPath)
    (append : Bool) :
    Opens setting (Tables.Sound strict known) (start now path append)
      fun _ => Tables.Sound strict known := by
  refine (start_opens (fun _ => True) now path append
    (fun _ _ _ _ sound _ _ _ => sound)
    (fun _ _ _ clearing => clearing.promising fun _ _ cleared => ⟨cleared, trivial⟩)
    ?_).asking fun _ sound => ⟨sound, trivial⟩
  intro before id after guard _ sound vacant isCreated
  have same : (before.createEntry id path.name false now).2 = after :=
    congrArg Prod.snd isCreated
  rw [← same]
  exact sound.createFile vacant now

/-- Storing a buffer keeps sound tables sound. -/
theorem storeBuffer_keeps
    (writer : Writer) :
    Keeps setting (Tables.Sound strict known) (storeBuffer writer) := by
  refine .ite (fun _ => .pure fun _ sound => sound) fun _ => ?_
  cases writer.tail with
  | some id =>
      exact .update fun _ sound => sound.congr rfl rfl rfl
  | none =>
      exact .update fun _ sound => sound.congr rfl rfl rfl

/-- Closing a writer keeps sound tables sound. -/
theorem complete_keeps
    (now : Int)
    (writer : Writer) :
    Keeps setting (Tables.Sound strict known) (complete now writer) :=
  .bind _ (storeBuffer_keeps writer) fun _ =>
    .bind (fun _ => Tables.Sound strict known)
      (.update fun _ sound => sound.recordContent _ _ _ _) fun _ =>
        Txn.requireEntry?_keeps writer.fileId _

end Start

/-! ## From outside -/

variable {store : Store} {post : Writer → Tables → Prop}

/-- A writer that was opened holds a lock that was given to it. -/
def Takes (store : Store) (post : Writer → Tables → Prop) (writer : Writer) (locks : LockTable)
    (tables : Tables) : Prop :=
  (∃ guard given,
    store.locks.lock? writer.fileId true = some (guard, given) ∧
      given.Same locks ∧ writer.guard = some guard) ∧
    post writer tables

/-- A writer is opened in a transaction of its own. -/
theorem leaves_openPath
    {setting : Setting}
    {pre : Tables → Prop}
    (now : Int)
    (text : String)
    (append : Bool)
    (steady : store.Steady)
    (fits : store.Fits setting)
    (before : pre store.tables)
    (opens :
      ∀ path,
        CleanPath.ofText text = .ok path →
        Opens setting pre (start now path append) post)
    (watched : ∀ writer watchdog tables, post writer tables → post { writer with watchdog } tables) :
    Leaves store (Takes store post) ((openPath now text append).runOn store) := by
  rw [openPath, runOn_bind, Txn.clean, runOn_ofExcept]
  cases isPath : CleanPath.ofText text with
  | error fault =>
      exact .refused steady fault
  | ok path =>
      have leaves :
          Leaves store (Takes store post) ((writing (start now path append)).runOn store) := by
        refine leaves_writing steady (leaves_streaming steady fun outside => ?_)
        have inScope : store.entering.InScope setting :=
          (steady.entering outside).inScope (List.cons_ne_nil _ _) fits.entering
        obtain ⟨locks, sane, alike, failed, done⟩ := opens path isPath store.entering inScope before
        exact ⟨locks, sane, alike, done, failed⟩
      dsimp only
      rw [runOn_bind]
      rcases ran : (writing (start now path append)).runOn store with ⟨fault | writer, left⟩
      · rw [ran] at leaves
        dsimp only
        exact ⟨leaves.steady, leaves.config, leaves.closing, leaves.closed, leaves.savepoints,
          (fun _ isWriter => nomatch isWriter), fun _ _ => leaves.undone fault rfl⟩
      · rw [ran] at leaves
        dsimp only
        rw [runOn_bind, runOn_get]
        obtain ⟨outside, taken, after⟩ := leaves.done writer rfl
        refine ⟨leaves.steady, leaves.config, leaves.closing, leaves.closed, leaves.savepoints, ?_,
          fun _ isFault => nomatch isFault⟩
        rintro _ isWriter
        cases isWriter
        exact ⟨outside, taken, watched writer _ _ after⟩

end Writer

end VersionStore
