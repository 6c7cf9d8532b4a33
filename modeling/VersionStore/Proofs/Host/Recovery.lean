import VersionStore.Host.RootTrash
import VersionStore.Proofs.Content.Scenes
import VersionStore.Proofs.Host.Transfers
import VersionStore.Proofs.Session.Lent
import VersionStore.Proofs.Session.Restoring
import VersionStore.Proofs.Tree.TrashDirectories

namespace VersionStore

/-!
# Restoring to any store

Versions in the trash are restored to a handle in their own store, all of them in one piece of work
there, or to a handle in another store, where each of them is read and written anew in several
pieces of work. Both come to the same where the two trees look alike below the handle, as long as
the store backs what was listed: each entry stands for the file in the trash that it told of, for a
live directory, or for nothing any more. It goes on to do so whatever is removed or replaced.
-/

open Tables HostAction

/-! ## One store -/

namespace Store

variable
  {strict : Prop}
  {known : List Entry}
  {store other : Store}
  {text : String}
  {path : CleanPath}

/-- What is seen in a store, and which files someone has open there. -/
def scene (store : Store) : Scene :=
  store.tables.scene store.InUse

/-- A store gives locks on the files that no one has open, and no one has a file open whose id was
not given yet. -/
structure Lending (store : Store) : Prop where
  exclusive : ∀ id, store.locks.gives id true = true ↔ ¬store.InUse id
  unused : ∀ id, store.tables.lastEntryId < id → ¬store.InUse id

/-- A store gives locks on the versions in its trash to those who read them. -/
def LendsTrash (store : Store) : Prop :=
  ∀ entry ∈ store.tables.entries, entry.isDeleted = true → store.locks.gives entry.id false = true

/-- Who has which files open is told by what the locks say. -/
theorem inUse_eq
    (same : store.locks.Same other.locks) :
    other.InUse = store.InUse := by
  funext id
  rw [InUse, InUse, same.hold? id]

/-- Entries are restored in a store at rest, by what is seen. -/
theorem AtRest.recover
    (atRest : store.AtRest strict known)
    (lending : store.Lending)
    (lendsTrash : store.LendsTrash)
    (now : Int)
    (isPath : CleanPath.ofText text = .ok path)
    {infos : List TrashEntry}
    (backs : ∀ info ∈ infos, store.tables.Backs info) :
    Done strict known store True
      (fun counts tables =>
        Txn.Settles store.tables.version? path (infos.length == 1) store.scene infos counts
          (tables.scene store.InUse))
      ((Store.recover now text infos).runOn store) :=
  have lends : store.tables.Lends store.locks.gives store.InUse :=
    ⟨lending.exclusive, lendsTrash, fun _ => LockTable.gives_shared⟩
  (atRest.writes_minding (fun _ inUse => inUse)
    (Txn.recover_settles now isPath backs lending.unused atRest.sound atRest.filed.toNumbered lends)
    (fun _ _ settled => settled.1) (Txn.carrying_recover atRest.filed now text infos)).promising
      fun _ _ settled => settled.2

/-- A source that does not fail is put at a path exactly where a file can be put. -/
theorem AtRest.puts
    (atRest : store.AtRest strict known)
    (lending : store.Lending)
    (now : Int)
    (isPath : CleanPath.ofText text = .ok path)
    (source : Source)
    (ends : source.failure? = none)
    (links? : Option (List String))
    (time? : Option Int) :
    Done strict known store (store.scene.Takes path)
      (fun _ tables =>
        tables.scene store.InUse =
            store.scene.put path (.ofBytes (time?.getD now) source.bytes) ∧
          store.tables.lastEntryId ≤ tables.lastEntryId)
      ((Store.writeFrom now text source links? time?).runOn store) := by
  have numbered := atRest.filed.toNumbered
  have coherent := atRest.sound.coherent
  have decides :=
    (@Txn.writeFrom_decides (store.setting store.Busy store.InUse) store.locks.gives strict known
      store.tables path now text isPath source ends links? time? atRest.sound numbered).knowing
        (Txn.writeFrom_writes now atRest.sound numbered text source links? time?) fun _ same => same
  refine ((atRest.writes_minding (fun _ inUse => inUse) decides (fun _ _ put => put.1.sound)
    (Txn.carrying_writeFrom numbered now text source links? time?)).exactly
      (accepts_iff_takes lending.exclusive)).promising ?_
  rintro row tables ⟨put, written⟩
  obtain ⟨other, isOther, replaced⟩ := written.replaced
  cases isPath.symm.trans isOther
  have coherentAfter := put.sound.coherent
  refine ⟨?_, ?_⟩
  · refine (replaced.scene_eq coherent lending.unused).trans ?_
    rw [versionOf, replaced.writable, written.modified, written.length, written.checksum,
      written.contains.bytes]
    rfl
  · have isNew := replaced.isNew
    have last := coherentAfter.id_le row (coherentAfter.entry?_eq_some_iff.mp replaced.found).1
    omega

end Store

/-- Whatever happened in a session on a new store, outside of all scopes the store gives its locks as
it should as long as no close has begun. -/
theorem Session.lending_of_reachable
    {session : Session}
    {config : Config}
    (named : ∀ root ∈ config.roots, IsName root)
    (distinct : config.roots.Nodup)
    {timed : Bool}
    {since : Int}
    (reachable : Reachable (fun _ _ _ => True) (start config timed since) session)
    (outside : session.store.savepoints = [])
    (open_ : session.store.closed = false)
    (staying : session.store.closing = false) :
    session.store.Lending ∧ session.store.LendsTrash := by
  obtain ⟨sound, modest⟩ := Modest.of_reachable named distinct reachable
  have lends := Session.lends modest (WritesFiles.of_reachable named distinct reachable) staying
  have grants := modest.grants (ReadsGiven.of_reachable named distinct reachable)
    ⟨sound.steady, outside, open_⟩ staying
  exact ⟨⟨lends.exclusive, fun id fresh inUse => inUse (grants.free id fresh)⟩, lends.trashed⟩

/-! ## Entries and their versions -/

namespace Tables

variable
  {full : Prop}
  {tables : Tables}
  {info : TrashEntry}
  {version : Entry}

/-- An entry that is listed is backed, if it does not tell of a directory in the trash. -/
theorem Coherent.backs_of_mem
    (coherent : tables.Coherent)
    (named : IsName info.entry.name)
    (member : info.entry ∈ tables.entries)
    (kind : info.entry.isDeleted = !info.entry.isDirectory) :
    tables.Backs info := by
  have isEntry {row : Entry} (isRow : row ∈ tables.entries) (isInfo : row.id = info.entry.id) :
      row = info.entry :=
    coherent.entry_eq isRow member isInfo
  exact ⟨named, coherent.id_le info.entry member,
    fun row isRow isInfo => congrArg Entry.isDirectory (isEntry isRow isInfo),
    fun row isRow isInfo => (congrArg Entry.isDeleted (isEntry isRow isInfo)).trans kind,
    fun row isRow isInfo _ => congrArg Entry.lastModified (isEntry isRow isInfo)⟩

/-- A version is backed. -/
theorem IsVersion.backs
    (isVersion : tables.IsVersion info)
    (coherent : tables.Coherent) :
    tables.Backs info := by
  refine coherent.backs_of_mem (isVersion.named coherent) isVersion.member ?_
  have isTrashed := isVersion.isTrashed
  rw [isTrashedFile, Bool.and_eq_true] at isTrashed
  rw [isTrashed.1]
  exact isTrashed.2.symm

/-- What a history of a root lists is backed, but for directories in the trash. -/
theorem Coherent.backs_of_history
    (coherent : tables.Coherent)
    {root directory name : String}
    (proper : root ≠ "")
    {directories : Bool}
    {count : Int}
    (listed : info ∈ Txn.history tables root directory name directories count)
    (live : info.entry.isDirectory = true → info.entry.isDeleted = false) :
    tables.Backs info := by
  rcases Txn.listed_of_mem_history listed with ⟨-, version⟩ | ⟨-, within | ⟨-, holding⟩⟩
  · exact (mem_versionsOf_iff.mp version).1.backs coherent
  · exact (coherent.mem_trashIn_iff.mp within).1.backs coherent
  · obtain ⟨member, isDirectory, -, under, -⟩ := mem_trashDirectories_iff.mp holding
    refine coherent.backs_of_mem (coherent.named _ member fun isTop => ?_) member ?_
    · rw [isTop, coherent.directoryPath?_eq_some coherent.topRow] at under
      simp [isPlacedUnder, isUnder, proper, proper.symm] at under
    · rw [isDirectory, live isDirectory]
      rfl

/-- What a search of the history lists is backed. -/
theorem Coherent.backs_of_searchHistory
    (coherent : tables.Coherent)
    {root directory name : String}
    {count : Int}
    {select : Txn.Selector}
    (listed : info ∈ Txn.searchHistory tables root directory name count select) :
    tables.Backs info := by
  rcases Txn.listed_of_mem_searchHistory listed with ⟨-, version⟩ | ⟨-, within | ⟨-, below⟩⟩
  · exact (mem_versionsOf_iff.mp version).1.backs coherent
  · exact (coherent.mem_trashIn_iff.mp within).1.backs coherent
  · exact (mem_trashUnder_iff.mp below).1.backs coherent

/-- The version that an entry of a listing stands for, as it is written anew. -/
def written? (tables : Tables) (info : TrashEntry) : Option Version :=
  (tables.version? info).map fun version => .ofBytes info.entry.lastModified version.bytes

/-- What an entry that is backed stands for is a file. -/
theorem Backs.isFile
    (backs : tables.Backs info)
    (trashed : tables.trashed? info.entry.id = some version) :
    info.entry.isDirectory = false := by
  obtain ⟨member, isInfo, isDeleted⟩ := mem_of_trashed? trashed
  have deleted := backs.deleted version member isInfo
  rw [isDeleted] at deleted
  simpa using deleted.symm

/-- A version that is stored is alike whether it is restored or written anew, but for a checksum
that was never recorded. -/
theorem Backs.alike
    (backs : tables.Backs info)
    (stored : ∀ version, tables.trashed? info.entry.id = some version → tables.Stored version)
    (complete : full → ∀ version ∈ tables.version? info, version.checksum ≠ none) :
    Option.Rel (Version.Alike full) (tables.version? info) (tables.written? info) := by
  unfold written?
  cases trashed : tables.trashed? info.entry.id with
  | none =>
      rw [version?, trashed]
      exact .none
  | some version =>
      have isStored := stored version trashed
      obtain ⟨member, isInfo, isDeleted⟩ := mem_of_trashed? trashed
      rw [version?, trashed, Option.map_some] at complete ⊢
      refine .some ⟨rfl, backs.modified version member isInfo isDeleted, ?_, rfl, ?_⟩
      · rw [partsOf_eq_pieces isStored.laid]
        exact isStored.length
      · cases isChecksum : version.checksum with
        | none =>
            exact .inr ⟨fun isFull => complete isFull _ rfl isChecksum, rfl⟩
        | some checksum =>
            left
            rw [isStored.checksum checksum isChecksum, partsOf_eq_pieces isStored.laid]
            rfl

end Tables

/-! ## Entries that were listed before -/

namespace Session

variable
  {session first : Session}
  {listed : Entry}
  {now : Int}
  {event : Event}

/-- A close waits for the streams to end. -/
def Waits (session : Session) (_ : Int) (event : Event) : Prop :=
  event = .close → session.store.isDrained = true

/-- A session where every close waits is one that anything may happen in. -/
theorem reachable_of_waiting
    (reachable : Reachable Waits first session) :
    Reachable (fun _ _ _ => True) first session :=
  Relation.ReflTransGen.mono (fun _ _ (.event possible _) => .event possible trivial) _ _ reachable

/-- What was listed is in all tables of a session as it was, or no more. No one writes to it. -/
structure Remembers (listed : Entry) (session : Session) : Prop where
  sound : session.Sound False
  orderly : session.Orderly
  secure :
    session.Secure (fun id => listed.isDirectory = false → id ≠ listed.id) (fun _ => True)
      (StandsFor listed.id (Recalls listed))

/-- What was listed is remembered at every event but a close that does not wait. -/
theorem Remembers.after
    (remembers : session.Remembers listed)
    (possible : session.Possible event)
    (waits : session.Waits now event) :
    (session.after now event).Remembers listed where
  sound := remembers.sound.after possible fun absurd => absurd.elim
  orderly := remembers.orderly.after now possible.feasible waits
  secure := by
    have steady := remembers.sound.steady
    have secure := remembers.secure
    by_cases removes : Removes event
    · -- Versions go for good only by calls that do nothing else to them.
      obtain ⟨all, writers⟩ :=
        all_removed (removing_recalls listed) steady secure.all now possible.feasible removes
      exact ⟨all, writers ▸ secure.writer⟩
    · refine secure.after remembers.orderly.tailed (endures_recalls listed) (fun _ _ _ => trivial)
        steady .idle now possible.feasible ?_
      exact respects_of_not_removes removes

/-- What was listed is remembered as long as every close waits. -/
theorem Remembers.of_reachable
    (remembers : first.Remembers listed)
    (reachable : Reachable Waits first session) :
    session.Remembers listed := by
  induction reachable with
  | refl =>
      exact remembers
  | tail _ step before =>
      obtain ⟨possible, waits⟩ := step
      exact before.after possible waits

/-- What was listed outside of all scopes is remembered. -/
theorem remembers_of_listed
    {info : TrashEntry}
    (sound : session.Sound False)
    (orderly : session.Orderly)
    (writes : session.WritesFiles)
    (outside : session.store.savepoints = [])
    (member : info.entry ∈ session.store.tables.entries)
    (backs : session.store.tables.Backs info) :
    session.Remembers info.entry := by
  refine ⟨sound, orderly, ⟨backs.standsFor, ?_⟩, fun writer isWriter open_ => ⟨?_, trivial⟩⟩
  · rw [outside]
    exact fun _ isSaved => absurd isSaved List.not_mem_nil
  · intro isFile same
    have isDeleted := backs.deleted info.entry member rfl
    rw [isFile] at isDeleted
    refine writes.hold?_trashed member isDeleted ?_
    rw [← same]
    exact orderly.current.exclusive_of_writer orderly.accounted isWriter open_

/-- Tables go on to back what was listed outside of all scopes, whatever is written, moved, removed
or rolled back after it, as long as every close waits and a directory that was listed is not put in
the trash. -/
theorem backs_of_reachable
    {config : Config}
    (named : ∀ root ∈ config.roots, IsName root)
    (distinct : config.roots.Nodup)
    {timed : Bool}
    {since : Int}
    (before : Reachable Waits (start config timed since) first)
    (outside : first.store.savepoints = [])
    {info : TrashEntry}
    (member : info.entry ∈ first.store.tables.entries)
    (backs : first.store.tables.Backs info)
    (reachable : Reachable Waits first session)
    (live :
      ∀ row ∈ session.store.tables.entries,
        row.id = info.entry.id →
        row.isDirectory = true →
        row.isDeleted = false) :
    session.store.tables.Backs info := by
  have anyway := reachable_of_waiting before
  have orderly : first.Orderly :=
    (Orderly.start config timed since).of_reachable (fun _ _ waits => waits rfl) before
  have remembers : first.Remembers info.entry :=
    remembers_of_listed (Modest.of_reachable named distinct anyway).1 orderly
      (WritesFiles.of_reachable named distinct anyway) outside member backs
  exact (remembers.of_reachable reachable).secure.all.tables.backs backs.named live

end Session

namespace Root

variable
  {strict full : Prop}
  {known : List Entry}
  {calm : StoreId → Prop}
  {stores : StoreId → Store}
  {root : Root}
  {target near far : FileHandle}
  {info : TrashEntry}
  {infos : List TrashEntry}

/-- A reader is opened for an entry that is backed exactly when the entry stands for a version. -/
theorem openEntry_turns
    {id : StoreId}
    (isCalm : calm id)
    (backs : (stores id).tables.Backs info)
    (lendsTrash : (stores id).LendsTrash) :
    Turns strict known calm stores (HostAction.on id (Reader.openEntry info.entry))
      (fun reader after =>
        ∃ version guard locks,
          (stores id).tables.trashed? info.entry.id = some version ∧
            (stores id).locks.lock? version.id false = some (guard, locks) ∧
              reader.guard = some guard ∧
                after = FileHandle.lent stores id locks ∧
                  reader.Ready version.id ((stores id).tables.pieces version.id) 0 (after id))
      fun after => (stores id).tables.trashed? info.entry.id = none ∧ after = stores := by
  refine .visit isCalm fun atRest => ?_
  have coherent := atRest.sound.coherent
  cases trashed : (stores id).tables.trashed? info.entry.id with
  | none =>
      have missing (isFile : info.entry.isDirectory = false) :
          (stores id).tables.entry? info.entry.id = none := by
        refine Option.eq_none_iff_forall_ne_some.mpr fun row found => ?_
        obtain ⟨member, isInfo⟩ := coherent.entry?_eq_some_iff.mp found
        have isDeleted := backs.deleted row member isInfo
        rw [isFile] at isDeleted
        have isTrashed := coherent.trashed?_eq_some member isDeleted
        rw [isInfo, trashed] at isTrashed
        cases isTrashed
      obtain ⟨fault, ran⟩ := atRest.openEntry_refused missing
      refine ⟨(stores id).tables, (stores id).locks, ?_⟩
      rw [ran, atRest.holding_self, Function.update_eq_self]
      exact ⟨rfl, atRest, rfl, rfl⟩
  | some version =>
      obtain ⟨member, isInfo, isDeleted⟩ := mem_of_trashed? trashed
      have lends := lendsTrash version member isDeleted
      obtain ⟨⟨guard, locks⟩, given⟩ := Option.isSome_iff_exists.mp lends
      obtain ⟨reader, ran, held, ready⟩ :=
        atRest.openEntry (atRest.stored_of_mem member lends) (backs.isFile trashed)
          (coherent.entry?_eq_some_iff.mpr ⟨member, isInfo⟩) given
      refine ⟨(stores id).tables, locks, ?_⟩
      rw [ran]
      refine ⟨rfl, atRest.lent given, version, guard, locks, rfl, given, held, rfl, ?_⟩
      rw [Function.update_self]
      exact ready

/-- An entry that is backed is restored to another store exactly when it stands for a version and a
file can be put at the target. -/
theorem restoreAcross_turns
    (now : Int)
    (isCalm : calm root.store)
    (isCalmToo : calm target.root.store)
    (apart : root.store ≠ target.root.store)
    (backs : (stores root.store).tables.Backs info)
    (lendsTrash : (stores root.store).LendsTrash)
    (lending : (stores target.root.store).Lending) :
    Turns strict known calm stores (root.restoreAcross now target info)
      (fun _ after =>
        ∃ version tables,
          (stores root.store).tables.written? info = some version ∧
            (stores target.root.store).scene.Takes target.path ∧
              tables.scene (stores target.root.store).InUse =
                  (stores target.root.store).scene.put target.path version ∧
                (stores target.root.store).tables.lastEntryId ≤ tables.lastEntryId ∧
                  Alters stores target.root.store tables after)
      fun after =>
        (∀ version,
          (stores root.store).tables.written? info = some version →
          ¬(stores target.root.store).scene.Takes target.path) ∧
          Alters stores target.root.store (stores target.root.store).tables after := by
  refine .resting fun atRest => .bind _ ((openEntry_turns isCalm backs lendsTrash).promising
    (fun _ _ => id) ?_) fun reader after opened => ?_
  · rintro after ⟨missing, rfl⟩
    refine ⟨fun version isVersion => ?_, .refl _ _⟩
    rw [written?, version?, missing] at isVersion
    cases isVersion
  obtain ⟨version, guard, locks, trashed, given, held, rfl, ready⟩ := opened
  obtain ⟨member, -, isDeleted⟩ := mem_of_trashed? trashed
  have stored := (atRest _ isCalm).stored_of_mem member (lendsTrash version member isDeleted)
  have isWritten :
      (stores root.store).tables.written? info =
        some (.ofBytes info.entry.lastModified
          (bytesOf ((stores root.store).tables.pieces version.id))) := by
    rw [written?, version?, trashed, Option.map_some, Option.map_some,
      partsOf_eq_pieces stored.laid]
  have writes
      (source : Source)
      (ends : source.failure? = none)
      (bytes : source.bytes = bytesOf ((stores root.store).tables.pieces version.id))
      (atRestThere : (stores target.root.store).AtRest strict known) :
      Store.Done strict known (stores target.root.store)
        ((stores target.root.store).scene.Takes target.path)
        (fun _ tables =>
          tables.scene (stores target.root.store).InUse =
              (stores target.root.store).scene.put target.path
                (.ofBytes info.entry.lastModified
                  (bytesOf ((stores root.store).tables.pieces version.id))) ∧
            (stores target.root.store).tables.lastEntryId ≤ tables.lastEntryId)
        ((Store.writeFrom now target.text source none (some info.entry.lastModified)).runOn
          (stores target.root.store)) := by
    rw [← bytes]
    exact atRestThere.puts lending now target.isPath_text source ends none
      (some info.entry.lastModified)
  refine (FileHandle.writeReader_writes now (some info.entry.lastModified) isCalm isCalmToo apart
    (atRest _ isCalm) given held stored.laid.contiguous ready writes).promising ?_ ?_
  · rintro _ after ⟨takes, tables, ⟨seen, later⟩, alters⟩
    exact ⟨_, tables, isWritten, takes, seen, later, alters⟩
  · rintro after ⟨barred, alters⟩
    exact ⟨fun _ _ => barred, alters⟩

/-- The first entry is restored to a handle, and then the others. -/
theorem restoreEachAcross_cons
    (now : Int)
    (root : Root)
    (target : FileHandle)
    (single : Bool)
    (infos : List TrashEntry)
    (named : IsName info.entry.name) :
    ∃ file : FileHandle,
      file.root = target.root ∧
        Txn.RestoresTo target.path single info file.path ∧
          root.restoreEachAcross now target single (info :: infos) = do
            let outcome ← HostAction.attempt (root.restoreAcross now file info)
            let (restored, failed) ← root.restoreEachAcross now target single infos
            return if outcome.isOk then (restored + 1, failed) else (restored, failed + 1) := by
  cases single with
  | true =>
      exact ⟨target, rfl, .alone, rfl⟩
  | false =>
      let name : Name := ⟨info.entry.name, named⟩
      let file : FileHandle := ⟨target.root, ⟨target.below.names ++ [name]⟩⟩
      have led : target.child info.entry.name = .ok file :=
        (FileHandle.child_name_eq_ok_iff name).mpr ⟨rfl, rfl⟩
      refine ⟨file, rfl, .below rfl, ?_⟩
      rw [restoreEachAcross, if_neg Bool.false_ne_true, led]
      rfl

/-- Entries that are backed are restored to another store in order, by what is seen there. -/
theorem restoreEachAcross_turns
    (now : Int)
    (single : Bool)
    (isCalm : calm root.store)
    (isCalmToo : calm target.root.store)
    (apart : root.store ≠ target.root.store)
    (backs : ∀ info ∈ infos, (stores root.store).tables.Backs info)
    (lendsTrash : (stores root.store).LendsTrash)
    (lending : (stores target.root.store).Lending) :
    Turns strict known calm stores (root.restoreEachAcross now target single infos)
      (fun counts after =>
        ∃ tables,
          Txn.Settles (stores root.store).tables.written? target.path single
              (stores target.root.store).scene infos counts
              (tables.scene (stores target.root.store).InUse) ∧
            Alters stores target.root.store tables after)
      fun _ => False := by
  induction infos generalizing stores with
  | nil =>
      exact .pure ⟨(stores target.root.store).tables, .done, .refl _ _⟩
  | cons info infos inductionHypothesis =>
      obtain ⟨file, isRoot, isTarget, isFile⟩ :=
        restoreEachAcross_cons now root target single infos (backs info List.mem_cons_self).named
      have rest {mid : StoreId → Store} {tables : Tables}
          (alters : Alters stores target.root.store tables mid)
          (later : (stores target.root.store).tables.lastEntryId ≤ tables.lastEntryId) :
          Turns strict known calm mid (root.restoreEachAcross now target single infos)
            (fun counts after =>
              ∃ last,
                Txn.Settles (stores root.store).tables.written? target.path single
                    (tables.scene (stores target.root.store).InUse) infos counts
                    (last.scene (stores target.root.store).InUse) ∧
                  Alters stores target.root.store last after)
            fun _ => False := by
        have sameTables : (mid root.store).tables = (stores root.store).tables :=
          alters.others _ apart
        have inUse := Store.inUse_eq (alters.locks target.root.store)
        refine (inductionHypothesis (fun other member => ?_) ?_ ⟨fun id => ?_, fun id => ?_⟩).promising
          ?_ fun _ => id
        · rw [sameTables]
          exact backs other (List.mem_cons_of_mem _ member)
        · rw [Store.LendsTrash, sameTables, alters.gives]
          exact lendsTrash
        · rw [alters.gives, inUse]
          exact lending.exclusive id
        · rw [alters.self, inUse]
          exact fun fresh => lending.unused id (lt_of_le_of_lt later fresh)
        · rintro counts after ⟨last, settles, altersToo⟩
          rw [sameTables, Store.scene, alters.self, inUse] at settles
          exact ⟨last, settles, alters.trans altersToo⟩
      rw [← isRoot] at isCalmToo apart lending rest ⊢
      rw [isFile]
      refine .bind _ ((restoreAcross_turns now isCalm isCalmToo apart
        (backs info List.mem_cons_self) lendsTrash lending).attempt.promising (fun _ _ => id)
          fun _ absurd => absurd.elim) fun outcome mid tried => ?_
      cases outcome with
      | error fault =>
          obtain ⟨barred, alters⟩ := tried
          refine .bind _ (rest alters le_rfl) fun counts after ended => ?_
          obtain ⟨last, settles, altersToo⟩ := ended
          exact .pure ⟨last, .failed isTarget barred settles, altersToo⟩
      | ok row =>
          obtain ⟨version, tables, isVersion, takes, seen, later, alters⟩ := tried
          refine .bind _ (rest alters later) fun counts after ended => ?_
          obtain ⟨last, settles, altersToo⟩ := ended
          rw [seen] at settles
          exact .pure ⟨last, .restored isTarget isVersion takes settles, altersToo⟩

/-- Entries were restored to a handle: they were handled in order, by what is seen in the handle's
store, and no other store was changed. -/
structure Recovered (version? : TrashEntry → Option Version) (before : StoreId → Store)
    (target : FileHandle) (infos : List TrashEntry) (counts : Nat × Nat)
    (after : StoreId → Store) : Prop where
  settles :
    Txn.Settles version? target.path (infos.length == 1) (before target.root.store).scene infos
      counts (after target.root.store).scene
  others : ∀ other, other ≠ target.root.store → (after other).tables = (before other).tables

/-- What is seen of a store that was altered is told by its tables. -/
theorem scene_of_alters
    {id : StoreId}
    {tables : Tables}
    {after : StoreId → Store}
    (alters : Alters stores id tables after) :
    (after id).scene = tables.scene (stores id).InUse := by
  rw [Store.scene, alters.self, Store.inUse_eq (alters.locks id)]

/-- Entries that are backed are restored within their store. -/
theorem recover_within
    (now : Int)
    (isCalm : calm root.store)
    (within : near.root.store = root.store)
    (backs : ∀ info ∈ infos, (stores root.store).tables.Backs info)
    (lendsTrash : (stores root.store).LendsTrash)
    (lending : (stores root.store).Lending) :
    Turns strict known calm stores (root.recover now near infos)
      (Recovered (stores root.store).tables.version? stores near infos)
      fun _ => False := by
  rw [recover, if_pos (by simp [within])]
  rw [← within] at isCalm backs lendsTrash lending ⊢
  refine (Turns.change isCalm fun atRest =>
    atRest.recover lending lendsTrash now near.isPath_text backs).promising ?_ ?_
  · rintro counts after ⟨-, tables, settles, alters⟩
    exact ⟨scene_of_alters alters ▸ settles, alters.others⟩
  · rintro after ⟨unable, -⟩
    exact unable trivial

/-- Entries that are backed are restored to another store. -/
theorem recover_across
    (now : Int)
    (isCalm : calm root.store)
    (isCalmToo : calm far.root.store)
    (apart : far.root.store ≠ root.store)
    (backs : ∀ info ∈ infos, (stores root.store).tables.Backs info)
    (lendsTrash : (stores root.store).LendsTrash)
    (lending : (stores far.root.store).Lending) :
    Turns strict known calm stores (root.recover now far infos)
      (Recovered (stores root.store).tables.written? stores far infos)
      fun _ => False := by
  rw [recover, if_neg (by simp [apart])]
  refine (restoreEachAcross_turns now _ isCalm isCalmToo apart.symm backs lendsTrash
    lending).promising ?_ fun _ => id
  rintro counts after ⟨tables, settles, alters⟩
  exact ⟨scene_of_alters alters ▸ settles, alters.others⟩

/-- Where nothing can fail an action gives a value. -/
theorem exists_of_turns
    {action : HostAction α}
    {done : α → (StoreId → Store) → Prop}
    {host : Host}
    (turns : Turns strict known calm stores action done fun _ => False)
    (rests : host.Rests strict known calm stores) :
    ∃ value after,
      (action.runOn host).1 = .ok value ∧
        (action.runOn host).2.Rests strict known calm after ∧ done value after := by
  obtain ⟨after, left, ended⟩ := turns host rests
  cases outcome : (action.runOn host).1 with
  | ok value =>
      rw [outcome] at ended
      exact ⟨value, after, rfl, left, ended⟩
  | error fault =>
      rw [outcome] at ended
      exact ended.elim

/-- Entries of a listing that are backed are restored to a handle in their own store, or to one in
another store, in stores at rest. If the two trees look alike at and below the handles, as many
entries are restored, as many fail, and the trees look alike again. This is so in full when all the
versions have checksums; otherwise a version that has none gets one in the other store. -/
theorem recovers_alike_of_rests
    {host : Host}
    (rests :
      host.Rests strict known (fun id => id = root.store ∨ id = far.root.store) stores)
    (within : near.root.store = root.store)
    (apart : far.root.store ≠ root.store)
    (lendsTrash : (stores root.store).LendsTrash)
    (lending : (stores root.store).Lending)
    (lendingFar : (stores far.root.store).Lending)
    (backs : ∀ info ∈ infos, (stores root.store).tables.Backs info)
    (complete :
      full →
      ∀ info ∈ infos,
        ∀ version ∈ (stores root.store).tables.version? info,
          version.checksum ≠ none)
    (alike :
      (stores root.store).scene.Alike full near.path (stores far.root.store).scene far.path)
    (now later : Int) :
    ∃ counts nearAfter farAfter,
      (((root.recover now near infos).runOn host).1 = .ok counts ∧
          ((root.recover now near infos).runOn host).2.Rests strict known
            (fun id => id = root.store ∨ id = far.root.store) nearAfter ∧
          Recovered (stores root.store).tables.version? stores near infos counts nearAfter) ∧
        (((root.recover later far infos).runOn host).1 = .ok counts ∧
            ((root.recover later far infos).runOn host).2.Rests strict known
              (fun id => id = root.store ∨ id = far.root.store) farAfter ∧
            Recovered (stores root.store).tables.written? stores far infos counts farAfter) ∧
          (nearAfter root.store).scene.Alike full near.path (farAfter far.root.store).scene
            far.path := by
  obtain ⟨counts, nearAfter, nearRan, nearRests, nearRecovered⟩ :=
    exists_of_turns (recover_within now (.inl rfl) within backs lendsTrash lending) rests
  obtain ⟨farCounts, farAfter, farRan, farRests, farRecovered⟩ :=
    exists_of_turns
      (recover_across later (.inl rfl) (.inr rfl) apart backs lendsTrash lendingFar) rests
  have atRest := rests.atRest root.store (.inl rfl)
  have versions (info : TrashEntry) (member : info ∈ infos) :
      Option.Rel (Version.Alike full) ((stores root.store).tables.version? info)
        ((stores root.store).tables.written? info) := by
    refine (backs info member).alike (fun version trashed => ?_) fun isFull =>
      complete isFull info member
    obtain ⟨isThere, -, isDeleted⟩ := mem_of_trashed? trashed
    exact atRest.stored_of_mem isThere (lendsTrash version isThere isDeleted)
  have settles := nearRecovered.settles
  rw [within] at settles
  obtain ⟨rfl, alikeAfter⟩ := settles.alike farRecovered.settles versions alike near.proper_path
    far.proper_path
  exact ⟨counts, nearAfter, farAfter, ⟨nearRan, nearRests, nearRecovered⟩,
    ⟨farRan, farRests, farRecovered⟩, alikeAfter⟩

/-- Of two files that were listed in the trash one is pruned. The other one is restored below a new
directory, in its own store and in another one. -/
theorem recovers_alike_pruned :
    let first := (Session.start {} false 0).after 1 (.whole (.write "home/a" ⟨#[1]⟩ none none))
    let second := first.after 2 (.whole (.write "home/c" ⟨#[2]⟩ none none))
    let third := second.after 3 (.whole (.delete "home/a"))
    let listing := third.after 4 (.whole (.delete "home/c"))
    let versions := fun name => Txn.history listing.store.tables "home" "home" name false (-1)
    let infos := versions "a" ++ versions "c"
    let session := listing.after 5 (.whole (.pruneHistory (versions "c") false))
    let host : Host := { stores := #[session.store, session.store] }
    let root : Root := ⟨0, ⟨"home", by decide⟩, default⟩
    let near : FileHandle := ⟨root, ⟨[⟨"b", by decide⟩]⟩⟩
    let far : FileHandle := ⟨{ root with store := 1 }, ⟨[⟨"b", by decide⟩]⟩⟩
    ∃ nearAfter farAfter,
      (((root.recover 6 near infos).runOn host).1 = .ok (1, 1) ∧
          Recovered session.store.tables.version? host.store near infos (1, 1) nearAfter) ∧
        (((root.recover 7 far infos).runOn host).1 = .ok (1, 1) ∧
            Recovered session.store.tables.written? host.store far infos (1, 1) farAfter) ∧
          (nearAfter 0).scene.Alike True near.path (farAfter 1).scene far.path := by
  intro first second third listing versions infos session host root near far
  have proceeds
      {before : Session}
      {now : Int}
      {call : Call}
      (possible : before.Possible (.whole call))
      (open_ :
        ((before.after now (.whole call)).writers.all fun writer => writer.guard.isSome) = true) :
      before.Advances (before.after now (.whole call)) ∧
        Session.Step Session.Waits before (before.after now (.whole call)) := by
    have notClose : Event.whole call ≠ .close := by simp
    exact ⟨.of_open possible notClose (by simp) open_,
      .event possible fun isClose => absurd isClose notClose⟩
  have toFirst : (Session.start {} false 0).Advances first ∧
      Session.Step Session.Waits (Session.start {} false 0) first :=
    proceeds trivial (by decide)
  have toSecond : first.Advances second ∧ Session.Step Session.Waits first second :=
    proceeds trivial (by decide)
  have toThird : second.Advances third ∧ Session.Step Session.Waits second third :=
    proceeds trivial (by decide)
  have toListing : third.Advances listing ∧ Session.Step Session.Waits third listing :=
    proceeds trivial (by decide)
  have toSession : listing.Advances session ∧ Session.Step Session.Waits listing session :=
    proceeds trivial (by decide)
  have filed : session.Filed :=
    Session.filed_of_advances
      (((((Relation.ReflTransGen.single toFirst.1).tail toSecond.1).tail toThird.1).tail
        toListing.1).tail toSession.1)
  have before : Session.Reachable Session.Waits (Session.start {} false 0) listing :=
    (((Relation.ReflTransGen.single toFirst.2).tail toSecond.2).tail toThird.2).tail toListing.2
  have since : Session.Reachable Session.Waits listing session :=
    Relation.ReflTransGen.single toSession.2
  have reachable := Session.reachable_of_waiting (before.trans since)
  have sound : session.Sound False :=
    (Session.Modest.of_reachable (by decide) (by decide) reachable).1
  have coherent : listing.store.tables.Coherent :=
    (Session.Modest.of_reachable (by decide) (by decide)
      (Session.reachable_of_waiting before)).1.all.tables.coherent
  have shown :
      (listing.store.savepoints.isEmpty = true ∧
          ∀ info ∈ infos,
            info.entry.isDirectory = false ∧
              (session.store.tables.entries.all fun row =>
                row.id != info.entry.id || !row.isDirectory) = true ∧
                (session.store.tables.version? info).all (·.checksum.isSome) = true) ∧
        (session.store.savepoints.isEmpty = true ∧ session.store.closed = false ∧
            session.store.connected = true ∧ session.store.closing = false ∧
              session.store.file = none) ∧
          ((root.recover 6 near infos).runOn host).1.toOption = some (1, 1) := by
    decide +kernel
  clear_value session
  obtain ⟨⟨unsaved, listed⟩, ⟨outside, opened, connected, staying, unfiled⟩, counted⟩ := shown
  -- Said of any store, so that the session is not computed anew to find it in both places.
  have both (store : Store) (id : StoreId) (isHere : id = root.store ∨ id = far.root.store) :
      id < 2 ∧ Host.store { stores := #[store, store] } id = store := by
    rcases isHere with rfl | rfl
    · exact ⟨by decide, rfl⟩
    · exact ⟨by decide, rfl⟩
  have isCalm := both session.store
  have rests :
      host.Rests False [] (fun id => id = root.store ∨ id = far.root.store) host.store := by
    refine .of_unfiled (fun id isHere => (isCalm id isHere).1) (fun id isHere => ?_)
      fun id isHere => ?_
    · rw [(isCalm id isHere).2]
      exact filed.atRest sound (List.isEmpty_iff.mp outside) opened connected staying
    · rw [(isCalm id isHere).2, unfiled]
  obtain ⟨lending, lendsTrash⟩ :=
    Session.lending_of_reachable (by decide) (by decide) reachable (List.isEmpty_iff.mp outside)
      opened staying
  have backs (info : TrashEntry) (member : info ∈ infos) : session.store.tables.Backs info := by
    obtain ⟨isFile, live, -⟩ := listed info member
    obtain ⟨isListed, backed⟩ :
        info.entry ∈ listing.store.tables.entries ∧ listing.store.tables.Backs info := by
      rcases List.mem_append.mp member with here | here
      all_goals
        refine ⟨Txn.mem_entries_of_history coherent here,
          coherent.backs_of_history (by decide) here fun isDirectory => ?_⟩
        exact absurd (isFile.symm.trans isDirectory) Bool.false_ne_true
    refine Session.backs_of_reachable (by decide) (by decide) before (List.isEmpty_iff.mp unsaved)
      isListed backed since fun row isRow isId isDirectory => ?_
    have apart := List.all_eq_true.mp live row isRow
    simp [isId, isDirectory] at apart
  have complete (info : TrashEntry) (member : info ∈ infos) (version : Version)
      (isVersion : version ∈ session.store.tables.version? info) : version.checksum ≠ none := by
    obtain ⟨-, -, checksums⟩ := listed info member
    rw [Option.mem_def.mp isVersion] at checksums
    exact Option.isSome_iff_ne_none.mp checksums
  have here : host.store root.store = session.store := (isCalm _ (.inl rfl)).2
  have there : host.store far.root.store = session.store := (isCalm _ (.inr rfl)).2
  have alike :
      (host.store root.store).scene.Alike True near.path (host.store far.root.store).scene
        far.path := by
    rw [here, there]
    exact .refl True session.store.scene near.path
  have lendingFar := there ▸ lending
  rw [← here] at lendsTrash lending backs complete
  obtain ⟨counts, nearAfter, farAfter, ⟨nearRan, -, nearRecovered⟩, ⟨farRan, -, farRecovered⟩,
      alikeAfter⟩ :=
    recovers_alike_of_rests rests rfl (by decide) lendsTrash lending lendingFar backs
      (fun _ => complete) alike 6 7
  rw [here] at nearRecovered farRecovered
  rw [nearRan] at counted
  cases Option.some.inj counted
  exact ⟨nearAfter, farAfter, ⟨nearRan, nearRecovered⟩, ⟨farRan, farRecovered⟩, alikeAfter⟩

end Root

end VersionStore
