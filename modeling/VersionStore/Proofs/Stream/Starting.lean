import VersionStore.Proofs.Stream.Feeding
import VersionStore.Proofs.Stream.Opening
import VersionStore.Proofs.Tree.Clearing

namespace VersionStore

/-!
# Writers that can be opened

A path leads a writer behind the bytes of a file, to a new file in a live directory, or to a
new file in place of one that may be written to. While nobody has these files open the writer
is opened, and begins with the bytes that the path leads it to. Other files are left alone.
-/

open Tables VersionStore.Action

namespace Tables

variable {before after : Tables} {id : Int}

/-- Where a file goes the directories around it stay. -/
theorem At.beside
    (coherent : before.Coherent)
    (beside : Beside (· = id) before after)
    (isFile : ∀ entry ∈ before.entries, entry.id = id → entry.isDirectory = false)
    {names : List Name}
    {entry : Entry}
    (here : before.At names entry)
    (isDirectory : entry.isDirectory = true) :
    after.At names entry := by
  have stays (row : Entry) (member : row ∈ before.entries) (isDirectory : row.isDirectory = true) :
      row ∈ after.entries := by
    refine (beside.rows row fun isId => ?_).mpr member
    rw [isFile row member isId] at isDirectory
    cases isDirectory
  induction here with
  | top member isRoot =>
      exact .top (stays _ member isDirectory) isRoot
  | child above member proper live held called inductionHypothesis =>
      have holder := coherent.isLiveDirectory_of_holds member live above.member held
      exact .child (inductionHypothesis holder.isDirectory) (stays _ member isDirectory) proper live
        held called

/-- What a path leads a writer to: the file, the bytes that it goes on behind, and a file that
it takes the place of. -/
inductive Receives (tables : Tables) (text : String) :
    Bool → Int → ByteArray → Option Int → Prop where
  | resumed {path : CleanPath} {entry : Entry}
      (isPath : CleanPath.ofText text = .ok path)
      (found : tables.lookupAt? path = some entry)
      (isFile : entry.isDirectory = false) :
      Receives tables text true entry.id (bytesOf (tables.pieces entry.id)) none
  | created {append : Bool} {path parent : CleanPath} {directory : Entry}
      (isPath : CleanPath.ofText text = .ok path)
      (missing : tables.lookupAt? path = none)
      (isParent : path.parent? = some parent)
      (found : tables.lookupAt? parent = some directory)
      (isDirectory : directory.isDirectory = true) :
      Receives tables text append (tables.lastEntryId + 1) .empty none
  | replaced {path : CleanPath} {entry : Entry}
      (isPath : CleanPath.ofText text = .ok path)
      (found : tables.lookupAt? path = some entry)
      (isFile : entry.isDirectory = false)
      (writable : entry.writable = true) :
      Receives tables text false (tables.lastEntryId + 1) .empty (some entry.id)

end Tables

namespace Txn

variable
  {setting : Setting}
  {free : Int → Prop}
  {strict : Prop}
  {known : List Entry}
  {before : Tables}
  {entry : Entry}

/-- A file may be gone, and nothing else is. -/
structure Gone (before : Tables) (file : Int) (tables : Tables) : Prop where
  beside : Beside (· = file) before tables
  given : tables.lastEntryId = before.lastEntryId
  ordered : tables.Ordered

/-- A file may be gone, and the directory that it was in is still there. -/
structure Vacated (before : Tables) (path : CleanPath) (file : Int) (tables : Tables) : Prop
    extends Gone before file tables where
  parent :
    ∃ parent directory,
      path.parent? = some parent ∧
        tables.lookupAt? parent = some directory ∧ directory.isDirectory = true

/-- A file that nobody has open can be deleted. -/
theorem deleteExisting_yields
    (now : Int)
    (ordered : before.Ordered)
    (member : entry ∈ before.entries)
    (isFile : entry.isDirectory = false)
    (isFree : free entry.id) :
    Yields setting free (· = before) (deleteExisting now entry) fun gone tables =>
      gone = true ∧ Gone before entry.id tables := by
  have deletes :=
    Decides.yields (fun gives => @deleteExisting_decides setting gives before entry now member isFile)
      fun _ grants => grants.gives isFree true
  intro store inScope grants before
  obtain ⟨value, left, ran, alike, ⟨isGone, beside, given⟩, stays⟩ :=
    deletes.knowing
      (deleteExisting_endures endures_ordered.toEnduresRemoving now trivial fun _ => trivial)
      (fun _ same => same ▸ ordered) store inScope grants before
  exact ⟨value, left, ran, alike, isGone, beside, given, stays⟩

/-- A file that nobody has open leaves its place in a live directory. -/
theorem deleteExisting_vacates
    (now : Int)
    (sound : before.Sound strict known)
    (ordered : before.Ordered)
    {path : CleanPath}
    (found : before.lookupAt? path = some entry)
    (isFile : entry.isDirectory = false)
    (isFree : free entry.id) :
    Yields setting free (· = before) (deleteExisting now entry) fun gone tables =>
      gone = true ∧ Vacated before path entry.id tables := by
  have coherent := sound.coherent
  have here := coherent.lookupAt?_eq_some_iff.mp found
  have agrees := coherent.agrees here.member
  have proper : ¬path.isRoot = true := by
    intro isRoot
    rw [(CleanPath.isRoot_iff path).mp isRoot] at here
    have isTop := coherent.isTop here.of_nil.1 here.of_nil.2
    exact absurd (isFile.symm.trans isTop.isDirectory) Bool.false_ne_true
  obtain ⟨names, name, whole, above, -⟩ := exists_names_of_not_isRoot proper
  rw [whole] at here
  obtain ⟨holder, holderHere, member, -, live, held, -⟩ := here.of_concat
  have isDirectory :=
    (coherent.isLiveDirectory_of_holds member live holderHere.member held).isDirectory
  have yields := (@deleteExisting_yields setting free before entry now ordered member isFile isFree).knowing
    (@deleteExisting_works setting strict known entry now before) ?_
  · intro store inScope grants isBefore
    obtain ⟨value, left, ran, alike, ⟨isGone, gone⟩, cleared⟩ :=
      yields store inScope grants isBefore
    refine ⟨value, left, ran, alike, isGone, gone, path.dropLast, holder, ?_, ?_, isDirectory⟩
    · rw [CleanPath.parent?, if_neg proper]
    · refine cleared.sound.coherent.lookupAt?_eq_some_iff.mpr ?_
      rw [above]
      exact holderHere.beside coherent gone.beside (fun row rowMember same => by
        rw [agrees row rowMember same, isFile]) isDirectory
  · rintro _ rfl
    refine ⟨rfl, sound, agrees, ?_⟩
    rw [Deletable, isFile]
    trivial

end Txn

namespace Writer

variable
  {setting : Setting}
  {free : Int → Prop}
  {strict : Prop}
  {known : List Entry}
  {before : Tables}
  {path : CleanPath}

/-- A path is looked up. -/
theorem entryAt?_finds
    {found? : Option Entry}
    (found : before.lookupAt? path = found?) :
    Works setting (· = before) (Txn.entryAt? path)
      (fun result tables => result = found? ∧ tables = before) fun _ _ => False := by
  refine .entryAt? ?_
  rintro _ rfl
  exact ⟨found, rfl⟩

/-- A new file can be created where its parent is a directory. -/
theorem create_retains
    (now : Int)
    {parent : CleanPath}
    {directory : Entry}
    (isParent : path.parent? = some parent)
    (found : before.lookupAt? parent = some directory)
    (isDirectory : directory.isDirectory = true)
    (isFree : free (before.lastEntryId + 1)) :
    Retains setting free (· = before) (create now path) fun writer tables =>
      (∃ guard, writer = fresh path.text (before.lastEntryId + 1) guard) ∧
        tables = (before.createEntry directory.id path.name false now).2 := by
  have created :
      Works setting (· = before)
        (insert fun tables => tables.createEntry directory.id path.name false now)
        (fun id tables =>
          id = before.lastEntryId + 1 ∧
            tables = (before.createEntry directory.id path.name false now).2)
        fun _ _ => False := by
    refine .insert ?_
    rintro _ rfl
    exact ⟨rfl, rfl⟩
  simp only [create, isParent, Action.require, pure_bind]
  refine .known _ _ (entryAt?_finds found) ?_
  simp only [pure_bind, throw_bind, isDirectory, Bool.not_true, Bool.false_eq_true, if_false]
  refine .known _ _ created ?_
  exact .lockId isFree fun guard => .pure fun _ same => ⟨⟨guard, rfl⟩, same⟩

/-- A writer goes on behind the bytes of a file. -/
theorem start_resumes
    (now : Int)
    {entry : Entry}
    (found : before.lookupAt? path = some entry)
    (isFile : entry.isDirectory = false)
    (isFree : free entry.id) :
    Retains setting free (· = before) (start now path true) fun writer tables =>
      (∃ guard, writer = resuming path.text entry.id guard (before.contents entry.id)) ∧
        tables = before := by
  refine .known _ _ (entryAt?_finds found) ?_
  simp only [throw_bind, isFile, Bool.false_eq_true, if_false, if_true]
  refine .lockId isFree fun guard =>
    .bind (fun contents tables => contents = before.contents entry.id ∧ tables = before)
      (.query ?_) fun contents => .pure ?_
  · rintro _ rfl
    exact ⟨rfl, rfl⟩
  · rintro _ ⟨rfl, rfl⟩
    exact ⟨⟨guard, rfl⟩, rfl⟩

/-- A writer begins a new file where there is nothing. -/
theorem start_creates
    (now : Int)
    (append : Bool)
    (missing : before.lookupAt? path = none)
    {parent : CleanPath}
    {directory : Entry}
    (isParent : path.parent? = some parent)
    (found : before.lookupAt? parent = some directory)
    (isDirectory : directory.isDirectory = true)
    (isFree : free (before.lastEntryId + 1)) :
    Retains setting free (· = before) (start now path append) fun writer tables =>
      (∃ guard, writer = fresh path.text (before.lastEntryId + 1) guard) ∧
        tables = (before.createEntry directory.id path.name false now).2 :=
  .known _ _ (entryAt?_finds missing) (create_retains now isParent found isDirectory isFree)

/-- A writer begins a new file in place of one. -/
theorem start_replaces
    (now : Int)
    (sound : before.Sound strict known)
    (ordered : before.Ordered)
    {entry : Entry}
    (found : before.lookupAt? path = some entry)
    (isFile : entry.isDirectory = false)
    (writable : entry.writable = true)
    (isFree : free entry.id)
    (isFreeNext : free (before.lastEntryId + 1)) :
    Retains setting free (· = before) (start now path false) fun writer tables =>
      (∃ guard, writer = fresh path.text (before.lastEntryId + 1) guard) ∧
        ∃ left directoryId,
          Txn.Vacated before path entry.id left ∧
            tables = (left.createEntry directoryId path.name false now).2 := by
  refine .known _ _ (entryAt?_finds found) ?_
  simp only [throw_bind, isFile, writable, Bool.not_true, Bool.false_eq_true, if_false]
  refine .bind (fun gone tables => gone = true ∧ Txn.Vacated before path entry.id tables)
    (Txn.deleteExisting_vacates now sound ordered found isFile isFree) fun gone => ?_
  refine .assuming (gone = true) (fun _ after => after.1) ?_
  rintro rfl
  simp only [Bool.not_true, Bool.false_eq_true, if_false]
  refine .named fun left ⟨_, vacated⟩ => ?_
  obtain ⟨parent, directory, isParent, found, isDirectory⟩ := vacated.parent
  refine (create_retains now isParent found isDirectory (by rwa [vacated.given])).promising ?_
  rintro writer _ ⟨isWriter, rfl⟩
  rw [vacated.given] at isWriter
  exact ⟨isWriter, left, directory.id, vacated, rfl⟩

/-! ## From outside -/

variable
  {store : Store}
  {text : String}
  (now : Int)

/-- What opens a writer in a scope opens one at a path text. -/
theorem openPath_runs
    {append : Bool}
    {post : Writer → Tables → Prop}
    (idle : store.Idle)
    (staying : store.closing = false)
    (grants : store.locks.Grants free)
    (isPath : CleanPath.ofText text = .ok path)
    (retains :
      Retains (store.setting fun _ => False) free (· = store.tables) (start now path append) post) :
    ∃ writer watchdog left,
      (openPath now text append).runOn store = (.ok { writer with watchdog }, left) ∧
        left.Idle ∧ post writer left.tables := by
  obtain ⟨writer, left, ran, idleLeft, after⟩ :=
    retains.runs_writing idle staying .idle grants rfl
  refine ⟨writer, Watchdog.ofStore? left, left, ?_, idleLeft, after⟩
  rw [openPath, runOn_bind, Txn.clean, runOn_ofExcept, isPath]
  dsimp only
  rw [runOn_bind, ran]
  rfl

/-- A row that is found by its entry. -/
theorem exists_row
    {tables : Tables}
    {entry : Entry}
    (member : entry ∈ tables.entries) :
    ∃ row, tables.entry? entry.id = some row :=
  Option.isSome_iff_exists.mp (List.find?_isSome.mpr ⟨entry, member, beq_self_eq_true _⟩)

/-- A writer on a new file begins with no bytes. -/
theorem fresh_feeds
    (idle : store.Idle)
    {tables : Tables}
    {directoryId : Int}
    {name : String}
    (isCreated : store.tables = (tables.createEntry directoryId name false now).2)
    (ordered : tables.Ordered)
    (none_ : tables.pieces (tables.lastEntryId + 1) = [])
    (text : String)
    (guard : Guard)
    (watchdog : Option Watchdog) :
    Feeds (tables.lastEntryId + 1) store.tables .empty
      { fresh text (tables.lastEntryId + 1) guard with watchdog } store := by
  refine ⟨idle, rfl, rfl, ?_, ?_, ⟨[], ?_, rfl⟩, .refl _ _⟩
  · rw [isCreated]
    exact ⟨ordered.parts, ordered.part_le⟩
  · rw [isCreated]
    exact exists_row
      (show { freshEntry directoryId name false now with id := tables.lastEntryId + 1 } ∈ _ from
        List.mem_append_right _ (List.mem_singleton_self _))
  · rw [isCreated]
    have pieces : (tables.createEntry directoryId name false now).2.pieces
        (tables.lastEntryId + 1) = [] := none_
    rw [pieces]
    exact ⟨trivial, by simp, rfl, by simp [fresh, bytesOf, joined], Nat.zero_le _, rfl⟩

/-- A writer that goes on behind the bytes of a file is open. -/
theorem resuming_isClosed
    (path : String)
    (fileId : Int)
    (guard : Guard)
    (contents : List Content) :
    (resuming path fileId guard contents).isClosed = false := by
  unfold resuming
  dsimp only
  split
  · rfl
  · split <;> rfl

/-- A writer is opened behind the bytes of a file. -/
theorem openPath_resumes
    (idle : store.Idle)
    (staying : store.closing = false)
    (grants : store.locks.Grants free)
    (isPath : CleanPath.ofText text = .ok path)
    {entry : Entry}
    (found : store.tables.lookupAt? path = some entry)
    (isFile : entry.isDirectory = false)
    (isFree : free entry.id)
    (ordered : store.tables.Ordered)
    (laid : LaidFrom 0 (store.tables.pieces entry.id)) :
    ∃ writer left,
      (openPath now text true).runOn store = (.ok writer, left) ∧
        left.tables = store.tables ∧
          writer.Feeds entry.id left.tables (bytesOf (store.tables.pieces entry.id)) left := by
  obtain ⟨_, watchdog, left, ran, idleLeft, ⟨guard, rfl⟩, same⟩ :=
    openPath_runs now idle staying grants isPath (start_resumes now found isFile isFree)
  rw [ordered.contents_eq laid] at ran
  obtain ⟨done, writes, bytes⟩ := writes_resuming laid path.text entry.id guard
  refine ⟨_, left, ran, same, ?_⟩
  rw [same]
  refine ⟨idleLeft, resuming_isClosed _ _ _ _, resuming_fileId _ _ _ _, ?_, ?_,
    ⟨done, ?_, bytes⟩, ?_⟩
  · rw [same]
    exact ordered
  · rw [same]
    exact exists_row (List.mem_of_find?_eq_some found)
  · rw [same]
    exact writes.watched watchdog
  · rw [same]
    exact .refl _ _

/-- A writer is opened on a new file where there is nothing. -/
theorem openPath_creates
    (append : Bool)
    (idle : store.Idle)
    (staying : store.closing = false)
    (grants : store.locks.Grants free)
    (isPath : CleanPath.ofText text = .ok path)
    (missing : store.tables.lookupAt? path = none)
    {parent : CleanPath}
    {directory : Entry}
    (isParent : path.parent? = some parent)
    (found : store.tables.lookupAt? parent = some directory)
    (isDirectory : directory.isDirectory = true)
    (isFree : free (store.tables.lastEntryId + 1))
    (numbered : store.tables.Numbered) :
    ∃ writer left,
      (openPath now text append).runOn store = (.ok writer, left) ∧
        Beside (· = store.tables.lastEntryId + 1) store.tables left.tables ∧
          writer.Feeds (store.tables.lastEntryId + 1) left.tables .empty left := by
  obtain ⟨_, watchdog, left, ran, idleLeft, ⟨guard, rfl⟩, isCreated⟩ :=
    openPath_runs now idle staying grants isPath
      (start_creates now append missing isParent found isDirectory isFree)
  refine ⟨_, left, ran, ?_, ?_⟩
  · rw [isCreated]
    exact beside_createEntry _ _ _ _ _
  · exact fresh_feeds now idleLeft isCreated numbered.toOrdered (numbered.pieces_eq_nil (by omega)) _ _ _

/-- A writer is opened on a new file in place of one. -/
theorem openPath_replaces
    (idle : store.Idle)
    (staying : store.closing = false)
    (grants : store.locks.Grants free)
    (isPath : CleanPath.ofText text = .ok path)
    {entry : Entry}
    (found : store.tables.lookupAt? path = some entry)
    (isFile : entry.isDirectory = false)
    (writable : entry.writable = true)
    (isFree : free entry.id)
    (isFreeNext : free (store.tables.lastEntryId + 1))
    (numbered : store.tables.Numbered)
    (sound : store.tables.Sound strict known) :
    ∃ writer left,
      (openPath now text false).runOn store = (.ok writer, left) ∧
        Beside (fun id => id = store.tables.lastEntryId + 1 ∨ id = entry.id) store.tables
          left.tables ∧
          writer.Feeds (store.tables.lastEntryId + 1) left.tables .empty left := by
  obtain ⟨_, watchdog, left, ran, idleLeft, ⟨guard, rfl⟩, tables, directoryId, vacated, isCreated⟩ :=
    openPath_runs now idle staying grants isPath
      (start_replaces now sound numbered.toOrdered found isFile writable isFree isFreeNext)
  have member : entry ∈ store.tables.entries := List.mem_of_find?_eq_some found
  have given := numbered.entry_le entry member
  have none_ : tables.pieces (tables.lastEntryId + 1) = [] := by
    rw [vacated.given, vacated.beside.pieces _ (by omega)]
    exact numbered.pieces_eq_nil (by omega)
  have feeds := fresh_feeds now idleLeft isCreated vacated.ordered none_ path.text guard watchdog
  have created := beside_createEntry tables directoryId path.name false now
  rw [vacated.given] at feeds created
  refine ⟨_, left, ran, ?_, feeds⟩
  rw [isCreated]
  exact (vacated.beside.widen fun _ => .inr).trans (created.widen fun _ => .inl)

end Writer

end VersionStore
