import VersionStore.Proofs.Host.Handles
import VersionStore.Proofs.Session.Layout
import VersionStore.Proofs.Session.Tree

namespace VersionStore

/-!
# Transfers

A file is copied or moved to a handle in several pieces of work: the file at the target is
deleted first, and then the transfer itself is tried. It is known exactly when a transfer
succeeds, and then the target has the bytes of the source. When it does not succeed, the
file at the target may be gone already.
-/

open Tables HostAction

/-- A session in which nothing is under way has a store that is at rest. -/
theorem Session.Filed.atRest
    {session : Session}
    {strict : Prop}
    (filed : session.Filed)
    (sound : session.Sound strict)
    (outside : session.store.savepoints = [])
    (opened : session.store.closed = false)
    (connected : session.store.connected = true)
    (staying : session.store.closing = false) :
    session.store.AtRest strict [] where
  toSteady := sound.steady
  outside := outside
  opened := opened
  connected := connected
  staying := staying
  sound :=
    { sound.all.tables with
      knows :=
        { id_le := fun _ member => absurd member List.not_mem_nil
          kind := fun _ member => absurd member List.not_mem_nil } }
  filed := filed.filed.tables.leaving fun _ ⟨_, member, open_, isFile⟩ =>
    isFile ▸ filed.orderly.current.exclusive_of_writer filed.orderly.accounted member open_

namespace FileHandle

variable
  {strict : Prop}
  {known : List Entry}
  {calm : StoreId → Prop}
  {stores : StoreId → Store}
  {file target : FileHandle}
  {entry : Entry}

/-- A handle is below its root. -/
theorem proper_path
    (file : FileHandle) :
    ¬file.path.isRoot = true :=
  Bool.false_ne_true

/-! ## Preparation -/

/-- A transfer can be prepared: a file is at the source, and at the target at most a file that no
one has open. -/
structure Ready (stores : StoreId → Store) (file target : FileHandle) (entry : Entry) : Prop where
  here : (stores file.root.store).tables.FileAt file.path entry
  clear :
    ∀ existing,
      (stores target.root.store).tables.lookupAt? target.path = some existing →
      existing.isDirectory = false ∧
        (stores target.root.store).locks.gives existing.id true = true

/-- The entry at a handle is looked up. -/
theorem stat_turns
    (isCalm : calm file.root.store) :
    Turns strict known calm stores file.stat
      (fun found after =>
        found = (stores file.root.store).tables.lookupAt? file.path ∧ after = stores)
      fun _ => False := by
  unfold stat onPath
  exact .ask isCalm fun atRest => atRest.stat file.isPath_text

/-- The entry at a handle has to be there. -/
theorem require_turns
    (isCalm : calm file.root.store) :
    Turns strict known calm stores file.require
      (fun entry after =>
        (stores file.root.store).tables.lookupAt? file.path = some entry ∧ after = stores)
      fun after =>
        (stores file.root.store).tables.lookupAt? file.path = none ∧ after = stores := by
  refine .bind _ ((stat_turns isCalm).promising (fun _ _ looked => looked)
    fun _ absurd => absurd.elim) fun found after looked => ?_
  obtain ⟨isFound, rfl⟩ := looked
  cases found with
  | some entry =>
      exact .pure ⟨isFound.symm, rfl⟩
  | none =>
      exact .throw ⟨isFound.symm, rfl⟩

/-- A file at the target is deleted exactly when that is how a transfer can be prepared. -/
theorem clearTarget_turns
    (now : Int)
    {existing : Entry}
    (isCalm : calm target.root.store)
    (here : (stores file.root.store).tables.FileAt file.path entry)
    (found : (stores target.root.store).tables.lookupAt? target.path = some existing) :
    Turns strict known calm stores
      (do
        if existing.isDirectory then throw (.invalidDestination target.text)
        if !(← target.delete now) then throw (.invalidDestination target.text))
      (fun _ after =>
        ∃ entry tables,
          Ready stores file target entry ∧
            Txn.Without strict known (stores target.root.store).tables target.path tables ∧
              Alters stores target.root.store tables after)
      fun after =>
        (∀ entry, ¬Ready stores file target entry) ∧
          Alters stores target.root.store (stores target.root.store).tables after := by
  simp only [throw_bind]
  by_cases isDirectory : existing.isDirectory = true
  · rw [if_pos isDirectory]
    refine .throw ⟨fun other ready => ?_, .refl _ _⟩
    rw [(ready.clear existing found).1] at isDirectory
    cases isDirectory
  rw [if_neg isDirectory]
  have isFile := Bool.eq_false_iff.mpr isDirectory
  refine .bind _ ((Turns.change isCalm fun atRest =>
    atRest.delete now target.isPath_text ⟨found, isFile⟩).promising (fun _ _ => id) ?_)
    fun gone after deleted => ?_
  · rintro after ⟨refused, alters⟩
    exact ⟨fun other ready => refused (ready.clear existing found).2, alters⟩
  obtain ⟨given, tables, ⟨rfl, without⟩, alters⟩ := deleted
  refine .pure ⟨entry, tables, ⟨here, fun other isFound => ?_⟩, without, alters⟩
  rw [← Option.some.inj (found.symm.trans isFound)]
  exact ⟨isFile, given⟩

/-- A transfer is prepared exactly when it can be. Then nothing is at the target any more. -/
theorem prepareTransfer_turns
    (now : Int)
    (isCalm : calm file.root.store)
    (isCalmToo : calm target.root.store) :
    Turns strict known calm stores (file.prepareTransfer now target)
      (fun _ after =>
        ∃ entry tables,
          Ready stores file target entry ∧
            Txn.Without strict known (stores target.root.store).tables target.path tables ∧
              Alters stores target.root.store tables after)
      fun after =>
        (∀ entry, ¬Ready stores file target entry) ∧
          Alters stores target.root.store (stores target.root.store).tables after := by
  refine .bind _ ((require_turns isCalm).promising (fun _ _ => id) ?_) fun entry after looked => ?_
  · rintro after ⟨missing, rfl⟩
    refine ⟨fun entry ready => ?_, .refl _ _⟩
    exact absurd (missing.symm.trans ready.here.found) (Option.some_ne_none entry).symm
  obtain ⟨found, rfl⟩ := looked
  simp only [throw_bind]
  by_cases isDirectory : entry.isDirectory = true
  · rw [if_pos isDirectory]
    refine .throw ⟨fun other ready => ?_, .refl _ _⟩
    rw [Option.some.inj (found.symm.trans ready.here.found), ready.here.isFile] at isDirectory
    cases isDirectory
  rw [if_neg isDirectory]
  have here : (after file.root.store).tables.FileAt file.path entry :=
    ⟨found, Bool.eq_false_iff.mpr isDirectory⟩
  refine .bind _ ((stat_turns isCalmToo).promising (fun _ _ => id) fun _ absurd => absurd.elim)
    fun existing? after looked => ?_
  obtain ⟨isExisting, rfl⟩ := looked
  cases existing? with
  | none =>
      refine .resting fun atRest => .pure ⟨entry, _, ⟨here, fun existing isFound => ?_⟩,
        .refl (atRest _ isCalmToo).sound isExisting.symm, .refl _ _⟩
      exact absurd (isExisting.trans isFound) (Option.some_ne_none existing).symm
  | some existing =>
      exact clearTarget_turns now isCalmToo here isExisting.symm

/-! ## Copies -/

/-- A prepared transfer can be done: the lock on the file is given, the two handles are not the
same, and no file is in the way to the target. -/
structure Brings (stores : StoreId → Store) (file target : FileHandle) (exclusive : Bool)
    (entry : Entry) : Prop
    extends Ready stores file target entry where
  given : (stores file.root.store).locks.gives entry.id exclusive = true
  elsewhere : file.same target = false
  leads : (stores target.root.store).tables.sights.Leads target.path.dropLast

/-- What a file is when it has arrived at the target of a transfer. -/
def arrived (file target : FileHandle) (moving : Bool) (version : Version) (time : Int) : Version :=
  if file.sameStore target then
    if moving then version.moved time else version.copied time
  else .ofBytes time version.bytes

/-- What arrives has the bytes that it had. -/
theorem bytes_arrived
    (moving : Bool)
    (version : Version)
    (time : Int) :
    (arrived file target moving version time).bytes = version.bytes := by
  unfold arrived
  split
  · split <;> rfl
  · rfl

/-- In another store it arrives as a new file of its bytes. -/
theorem arrived_elsewhere
    (apart : file.sameStore target = false)
    (moving : Bool)
    (version : Version)
    (time : Int) :
    arrived file target moving version time = .ofBytes time version.bytes := by
  rw [arrived, if_neg (by simp [apart])]

/-- The file has arrived at the target of a transfer, and nothing else is other. -/
def Arrives (before : StoreId → Store) (file target : FileHandle) (entry : Entry) (time : Int)
    (after : StoreId → Store) : Prop :=
  ∃ tables,
    tables.sights =
        (before target.root.store).tables.sights.put target.path
          (arrived file target false ((before file.root.store).tables.versionOf entry) time) ∧
      Alters before target.root.store tables after

/-- What has arrived is seen at the target, with the bytes that it had. -/
theorem Arrives.seen
    {before after : StoreId → Store}
    {time : Int}
    (arrives : Arrives before file target entry time after) :
    ∃ version,
      (after target.root.store).tables.sights target.path = some (.file version) ∧
        version.bytes = ((before file.root.store).tables.versionOf entry).bytes := by
  obtain ⟨tables, seen, alters⟩ := arrives
  refine ⟨arrived file target false _ time, ?_, bytes_arrived false _ time⟩
  rw [alters.self, seen, Sights.put, Sights.set_self]

variable {before mid : StoreId → Store} {cleared : Tables}

/-- Within a store it is known after the preparation whether a transfer can be done. -/
theorem Ready.brings_iff
    (ready : Ready before file target entry)
    (alters : Alters before target.root.store cleared mid)
    (same : file.sameStore target = true)
    {exclusive : Bool} :
    ((mid target.root.store).locks.gives entry.id exclusive = true ∧ file.path ≠ target.path ∧
        (before target.root.store).tables.sights.Leads target.path.dropLast) ↔
      Brings before file target exclusive entry := by
  have store : file.root.store = target.root.store := by
    simpa [sameStore] using same
  have elsewhere : file.same target = false ↔ file.path ≠ target.path := by
    simp [FileHandle.same, same]
  rw [alters.gives, ← store]
  refine ⟨fun ⟨given, different, leads⟩ => ⟨ready, given, elsewhere.mpr different, ?_⟩,
    fun brings => ⟨brings.given, elsewhere.mp brings.elsewhere, ?_⟩⟩
  · rwa [← store]
  · rw [store]
    exact brings.leads

/-- Within a store a copy arrives at a target that was cleared. -/
theorem copyWithin_turns
    (now : Int)
    (time? : Option Int)
    (isCalm : calm target.root.store)
    (same : file.sameStore target = true)
    (ready : Ready before file target entry)
    (without :
      Txn.Without strict known (before target.root.store).tables target.path cleared)
    (alters : Alters before target.root.store cleared mid) :
    Turns strict known calm mid (file.onPath fun path => Store.copy now target.text path time?)
      (fun _ after =>
        Brings before file target false entry ∧
          Arrives before file target entry (time?.getD now) after)
      fun after =>
        ¬Brings before file target false entry ∧ Alters before target.root.store cleared after := by
  have store : file.root.store = target.root.store := by
    simpa [sameStore] using same
  have here := ready.here
  unfold Arrives
  rw [arrived, if_pos same, if_neg Bool.false_ne_true]
  rw [store] at here ⊢
  rw [onPath, store]
  refine (Turns.change isCalm fun atRest => (atRest.copy_cleared (alters.self.symm ▸ without) now
    file.isPath_text target.isPath_text target.proper_path time? here).exactly
      (ready.brings_iff alters same)).promising ?_ ?_
  · rintro result after ⟨able, tables, seen, altersToo⟩
    exact ⟨able, tables, seen, alters.trans altersToo⟩
  · rintro after ⟨unable, altersToo⟩
    rw [alters.self] at altersToo
    exact ⟨unable, alters.trans altersToo⟩

/-- Stores while a reader holds a lock in one of them. -/
def lent (stores : StoreId → Store) (id : StoreId) (locks : LockTable) : StoreId → Store :=
  Function.update stores id ((stores id).holding (stores id).tables locks)

variable {guard : Guard} {locks : LockTable} {reader : Reader} {tables : Tables}
  {after : StoreId → Store}

/-- A reader is opened at a file exactly when its lock is given. -/
theorem openReader_turns
    (isCalm : calm file.root.store)
    (here : (stores file.root.store).tables.FileAt file.path entry) :
    Turns strict known calm stores file.openReader
      (fun reader after =>
        ∃ guard locks,
          (stores file.root.store).locks.lock? entry.id false = some (guard, locks) ∧
            reader.guard = some guard ∧
              after = lent stores file.root.store locks ∧
                reader.Ready entry.id ((stores file.root.store).tables.pieces entry.id) 0
                  (after file.root.store))
      fun after =>
        (stores file.root.store).locks.gives entry.id false = false ∧ after = stores := by
  unfold openReader onPath HostAction.on
  refine .visit isCalm fun atRest => ?_
  cases given : (stores file.root.store).locks.lock? entry.id false with
  | none =>
      obtain ⟨fault, ran⟩ := atRest.openPath_refused file.isPath_text here given
      refine ⟨(stores file.root.store).tables, (stores file.root.store).locks, ?_⟩
      rw [ran, atRest.holding_self, Function.update_eq_self]
      refine ⟨rfl, atRest, ?_, rfl⟩
      rw [LockTable.gives, given]
      rfl
  | some pair =>
      obtain ⟨guard, locks⟩ := pair
      obtain ⟨reader, ran, held, ready⟩ := atRest.openPath file.isPath_text here given
      refine ⟨(stores file.root.store).tables, locks, ?_⟩
      rw [ran]
      refine ⟨rfl, atRest.lent given, guard, locks, rfl, held, rfl, ?_⟩
      rw [Function.update_self]
      exact ready

/-- A reader at the beginning of a file is a source of its bytes. -/
theorem toSource_turns
    {id : StoreId}
    {parts : List Part}
    {file : Int}
    (isCalm : calm id)
    (ready : reader.Ready file parts 0 (stores id))
    (contiguous : Contiguous 0 parts) :
    Turns strict known calm stores (onStream id reader Reader.toSource)
      (fun result after =>
        ∃ source,
          result.1 = .ok source ∧ source.bytes = bytesOf parts ∧ source.failure? = none ∧
            result.2.guard = reader.guard ∧ after = stores)
      fun _ => False := by
  refine .stream isCalm fun atRest => ?_
  obtain ⟨source, left, ran, bytes, ends, held⟩ := atRest.toSource ready contiguous
  refine ⟨.ok source, left, (stores id).tables, (stores id).locks, ?_⟩
  rw [atRest.holding_self, Function.update_eq_self]
  exact ⟨ran, atRest, source, rfl, bytes, ends, held, rfl⟩

/-- When a reader is closed the locks are given again that were given before it was opened. -/
theorem finish_turns
    {id other : StoreId}
    {entryId : Int}
    (isCalm : calm id)
    (atRest : (stores id).AtRest strict known)
    (given : (stores id).locks.lock? entryId false = some (guard, locks))
    (held : reader.guard = some guard)
    (apart : id ≠ other)
    (alters : Alters (lent stores id locks) other tables after) :
    Turns strict known calm after (onStream id reader Reader.finish)
      (fun _ final => Alters stores other tables final)
      fun _ => False := by
  have self : lent stores id locks id = (stores id).holding (stores id).tables locks :=
    Function.update_self ..
  have elsewhere (another : StoreId) (different : another ≠ id) :
      lent stores id locks another = stores another :=
    Function.update_of_ne different ..
  have sameTables : (after id).tables = (stores id).tables := by
    rw [alters.others id apart, self]
    rfl
  have sameLocks := alters.locks id
  rw [self] at sameLocks
  have released : (stores id).locks.Same ((after id).locks.release guard) :=
    .release atRest.sane given sameLocks
  refine .stream isCalm fun atRestAfter =>
    ⟨_, _, _, _, atRestAfter.finish held, ?_, ?_⟩
  · refine atRestAfter.holding (released.sane atRest.sane) atRestAfter.sound ?_
    simp only [released.hold?, sameTables]
    exact atRest.filed
  · refine ⟨?_, fun another different => ?_, fun another => ?_⟩
    · rw [Function.update_of_ne apart.symm]
      exact alters.self
    · by_cases isId : another = id
      · subst isId
        rw [Function.update_self]
        exact sameTables
      · rw [Function.update_of_ne isId, alters.others another different, elsewhere another isId]
    · by_cases isId : another = id
      · subst isId
        rw [Function.update_self]
        exact released
      · rw [Function.update_of_ne isId, ← elsewhere another isId]
        exact alters.locks another

/-- Between stores a reader that is open on a file is written to a target exactly when the bytes of
the file can be. -/
theorem writeReader_writes
    (now : Int)
    (time? : Option Int)
    {origin : StoreId}
    {entryId : Int}
    {parts : List Part}
    {able : Prop}
    {post : Entry → Tables → Prop}
    (isCalm : calm origin)
    (isCalmToo : calm target.root.store)
    (apart : origin ≠ target.root.store)
    (atRest : (stores origin).AtRest strict known)
    (given : (stores origin).locks.lock? entryId false = some (guard, locks))
    (held : reader.guard = some guard)
    (contiguous : Contiguous 0 parts)
    (readable : reader.Ready entryId parts 0 (lent stores origin locks origin))
    (writes :
      ∀ source : Source,
        source.failure? = none →
        source.bytes = bytesOf parts →
        (stores target.root.store).AtRest strict known →
        Store.Done strict known (stores target.root.store) able post
          ((Store.writeFrom now target.text source none time?).runOn (stores target.root.store))) :
    Turns strict known calm (lent stores origin locks) (writeReader now origin reader target time?)
      (fun value after =>
        able ∧ ∃ tables, post value tables ∧ Alters stores target.root.store tables after)
      fun after =>
        ¬able ∧ Alters stores target.root.store (stores target.root.store).tables after := by
  have isThere : lent stores origin locks target.root.store = stores target.root.store :=
    Function.update_of_ne apart.symm ..
  refine .bind _ ((toSource_turns isCalm readable contiguous).promising (fun _ _ => id)
    fun _ absurd => absurd.elim) ?_
  rintro ⟨outcome, left⟩ after ⟨source, isSource, bytes, ends, isLeft, rfl⟩
  cases isSource
  rw [← isThere] at writes
  refine .bind _ ((Turns.change isCalmToo (writes source ends bytes)).attempt.promising
    (fun _ _ => id) fun _ absurd => absurd.elim) fun written after tried => ?_
  cases written with
  | ok value =>
      obtain ⟨able, tables, post, alters⟩ := tried
      refine .bind _ ((finish_turns isCalm atRest given (isLeft.trans held) apart
        alters).promising (fun _ _ => id) fun _ absurd => absurd.elim) fun _ final closed => ?_
      exact .pure ⟨able, tables, post, closed⟩
  | error fault =>
      obtain ⟨unable, alters⟩ := tried
      refine .bind _ ((finish_turns isCalm atRest given (isLeft.trans held) apart
        alters).promising (fun _ _ => id) fun _ absurd => absurd.elim) fun _ final closed => ?_
      rw [isThere] at closed
      exact .throw ⟨unable, closed⟩

/-- Between stores a file that may be read can be brought where no file is in the way. -/
theorem Ready.leads_iff
    (ready : Ready before file target entry)
    (apart : file.sameStore target = false)
    (given : (before file.root.store).locks.gives entry.id false = true) :
    (before target.root.store).tables.sights.Leads target.path.dropLast ↔
      Brings before file target false entry :=
  ⟨fun leads => ⟨ready, given, by simp [FileHandle.same, apart], leads⟩, Brings.leads⟩

/-- Between stores a reader that is open on the file is written to a target that was cleared. -/
theorem writeReader_turns
    (now : Int)
    (time? : Option Int)
    (isCalm : calm file.root.store)
    (isCalmToo : calm target.root.store)
    (apart : file.sameStore target = false)
    (ready : Ready before file target entry)
    (without :
      Txn.Without strict known (before target.root.store).tables target.path cleared)
    (alters : Alters before target.root.store cleared mid)
    (atRest : (mid file.root.store).AtRest strict known)
    (given : (mid file.root.store).locks.lock? entry.id false = some (guard, locks))
    (held : reader.guard = some guard)
    (readable :
      reader.Ready entry.id ((mid file.root.store).tables.pieces entry.id) 0
        (lent mid file.root.store locks file.root.store)) :
    Turns strict known calm (lent mid file.root.store locks)
      (writeReader now file.root.store reader target time?)
      (fun _ after =>
        Brings before file target false entry ∧
          Arrives before file target entry (time?.getD now) after)
      fun after =>
        ¬Brings before file target false entry ∧ Alters before target.root.store cleared after := by
  have different : file.root.store ≠ target.root.store := by
    simpa [sameStore] using apart
  have sourceTables : (mid file.root.store).tables = (before file.root.store).tables :=
    alters.others _ different
  have gives : (mid file.root.store).locks.gives entry.id false = true := by
    rw [LockTable.gives, given]
    rfl
  have here : (mid file.root.store).tables.FileAt file.path entry := sourceTables ▸ ready.here
  have brings := ready.leads_iff apart (alters.gives _ ▸ gives)
  rw [sourceTables] at readable
  have stored := sourceTables ▸ atRest.stored here gives
  have writes
      (source : Source)
      (ends : source.failure? = none)
      (bytes : source.bytes = bytesOf ((before file.root.store).tables.pieces entry.id))
      (atRestThere : (mid target.root.store).AtRest strict known) :
      Store.Done strict known (mid target.root.store) (Brings before file target false entry)
        (fun _ tables =>
          tables.sights =
            (before target.root.store).tables.sights.put target.path
              (arrived file target false ((before file.root.store).tables.versionOf entry)
                (time?.getD now)))
        ((Store.writeFrom now target.text source none time?).runOn (mid target.root.store)) := by
    refine ((atRestThere.writeFrom_cleared (alters.self.symm ▸ without) now target.isPath_text
      target.proper_path source ends none time?).exactly brings).promising fun _ tables seen => ?_
    rw [seen, arrived_elsewhere apart, bytes]
    rfl
  refine (writeReader_writes now time? isCalm isCalmToo different atRest given held
    stored.laid.contiguous readable writes).promising ?_ ?_
  · rintro _ after ⟨able, tables, seen, altersToo⟩
    exact ⟨able, tables, seen, alters.trans altersToo⟩
  · rintro after ⟨unable, altersToo⟩
    rw [alters.self] at altersToo
    exact ⟨unable, alters.trans altersToo⟩

/-- After the preparation a copy arrives exactly when it can be brought. -/
theorem transfer_turns
    (now : Int)
    (time? : Option Int)
    (isCalm : calm file.root.store)
    (isCalmToo : calm target.root.store)
    (ready : Ready before file target entry)
    (without :
      Txn.Without strict known (before target.root.store).tables target.path cleared)
    (alters : Alters before target.root.store cleared mid) :
    Turns strict known calm mid (file.transfer now target time?)
      (fun _ after =>
        Brings before file target false entry ∧
          Arrives before file target entry (time?.getD now) after)
      fun after =>
        ¬Brings before file target false entry ∧ Alters before target.root.store cleared after := by
  unfold transfer
  by_cases same : file.sameStore target = true
  · rw [if_pos same]
    exact copyWithin_turns now time? isCalmToo same ready without alters
  rw [if_neg same]
  have apart := Bool.eq_false_iff.mpr same
  have different : file.root.store ≠ target.root.store := by
    simpa [sameStore] using apart
  have here : (mid file.root.store).tables.FileAt file.path entry :=
    alters.others _ different ▸ ready.here
  refine .resting fun atRest => .bind _ ((openReader_turns isCalm here).promising (fun _ _ => id) ?_)
    fun reader after opened => ?_
  · rintro after ⟨refused, rfl⟩
    refine ⟨fun brings => ?_, alters⟩
    rw [alters.gives, brings.given] at refused
    cases refused
  · obtain ⟨guard, locks, given, held, rfl, readable⟩ := opened
    exact writeReader_turns now time? isCalm isCalmToo apart ready without alters
      (atRest _ isCalm) given held readable

/-- What a transfer that needs a lock on the file has made of the stores when it failed: nothing
when it could not be prepared, and otherwise the file at the target is gone. -/
inductive Fails (strict : Prop) (known : List Entry) (before : StoreId → Store)
    (file target : FileHandle) (exclusive : Bool) (after : StoreId → Store) : Prop where
  | unready
      (never : ∀ entry, ¬Ready before file target entry)
      (same : Alters before target.root.store (before target.root.store).tables after)
  | cleared {entry : Entry} {tables : Tables}
      (ready : Ready before file target entry)
      (unable : ¬Brings before file target exclusive entry)
      (without : Txn.Without strict known (before target.root.store).tables target.path tables)
      (alters : Alters before target.root.store tables after)

/-- A transfer that failed could not be done. -/
theorem Fails.unable
    {exclusive : Bool}
    (fails : Fails strict known before file target exclusive after)
    (entry : Entry) :
    ¬Brings before file target exclusive entry := by
  intro brings
  cases fails with
  | unready never =>
      exact never entry brings.toReady
  | cleared ready unable =>
      rw [Option.some.inj (brings.here.found.symm.trans ready.here.found)] at brings
      exact unable brings

/-- A copy arrives exactly when it can be brought. A failed one that could be prepared has taken
the file at the target with it, and nothing else. -/
theorem copyTo_turns
    (now : Int)
    (time? : Option Int)
    (isCalm : calm file.root.store)
    (isCalmToo : calm target.root.store) :
    Turns strict known calm stores (file.copyTo now target time?)
      (fun _ after =>
        ∃ entry,
          Brings stores file target false entry ∧
            Arrives stores file target entry (time?.getD now) after)
      (Fails strict known stores file target false) := by
  refine .bind _ ((prepareTransfer_turns now isCalm isCalmToo).promising (fun _ _ => id) ?_)
    fun _ mid prepared => ?_
  · rintro after ⟨unready, alters⟩
    exact .unready unready alters
  obtain ⟨entry, cleared, ready, without, alters⟩ := prepared
  refine (transfer_turns now time? isCalm isCalmToo ready without alters).promising
    (fun _ _ arrives => ⟨entry, arrives⟩) ?_
  rintro after ⟨unable, altersToo⟩
  exact .cleared ready unable without altersToo

/-! ## Moves -/

/-- The file is at the target of a transfer and no longer where it was, and nothing else is
other. -/
structure Moved (before : StoreId → Store) (file target : FileHandle) (entry : Entry) (time : Int)
    (after : StoreId → Store) : Prop where
  there :
    (after target.root.store).tables.sights =
      (if file.sameStore target then (before target.root.store).tables.sights.set file.path none
        else (before target.root.store).tables.sights).put target.path
          (arrived file target true ((before file.root.store).tables.versionOf entry) time)
  gone :
    file.sameStore target = false →
    (after file.root.store).tables.sights =
      (before file.root.store).tables.sights.set file.path none
  others :
    ∀ other,
      other ≠ file.root.store →
      other ≠ target.root.store →
      (after other).tables = (before other).tables
  locks : ∀ other, (before other).locks.Same (after other).locks

/-- Within a store a file moves to a target that was cleared. -/
theorem moveWithin_turns
    (now : Int)
    (time? : Option Int)
    (isCalm : calm target.root.store)
    (same : file.sameStore target = true)
    (ready : Ready before file target entry)
    (without :
      Txn.Without strict known (before target.root.store).tables target.path cleared)
    (alters : Alters before target.root.store cleared mid) :
    Turns strict known calm mid (file.onPath fun path => Store.moveTo now target.text path time?)
      (fun _ after =>
        Brings before file target true entry ∧
          Moved before file target entry (time?.getD now) after)
      fun after =>
        ¬Brings before file target true entry ∧ Alters before target.root.store cleared after := by
  have store : file.root.store = target.root.store := by
    simpa [sameStore] using same
  have here := ready.here
  have isArrived :
      arrived file target true ((before target.root.store).tables.versionOf entry)
          (time?.getD now) =
        ((before target.root.store).tables.versionOf entry).moved (time?.getD now) := by
    rw [arrived, if_pos same, if_pos rfl]
  rw [store] at here
  rw [onPath, store]
  refine (Turns.change isCalm fun atRest => (atRest.moveTo_cleared (alters.self.symm ▸ without) now
    file.isPath_text target.isPath_text target.proper_path time? here).exactly
      (ready.brings_iff alters same)).promising ?_ ?_
  · rintro result after ⟨able, tables, seen, altersToo⟩
    have altered := alters.trans altersToo
    refine ⟨able, ?_, fun apart => ?_, fun other _ different => altered.others other different,
      altered.locks⟩
    · rw [if_pos same, altered.self, seen, store, isArrived]
    · rw [same] at apart
      cases apart
  · rintro after ⟨unable, altersToo⟩
    rw [alters.self] at altersToo
    exact ⟨unable, alters.trans altersToo⟩

/-- Between stores a file that has arrived is deleted where it was, unless someone has it open. -/
theorem deleteArrived_turns
    (now : Int)
    {time : Int}
    {value : Entry}
    (isCalm : calm file.root.store)
    (apart : file.sameStore target = false)
    (brings : Brings before file target false entry)
    (arrives : Arrives before file target entry time mid) :
    Turns strict known calm mid
      (do
        if !(← file.delete now) then throw (.inUse file.text)
        return value)
      (fun _ after =>
        Brings before file target true entry ∧ Moved before file target entry time after)
      fun after =>
        ¬Brings before file target true entry ∧ Arrives before file target entry time after := by
  have different : file.root.store ≠ target.root.store := by
    simpa [sameStore] using apart
  obtain ⟨tables, seen, alters⟩ := arrives
  have sourceTables : (mid file.root.store).tables = (before file.root.store).tables :=
    alters.others _ different
  refine .bind _ ((Turns.change isCalm fun atRest =>
    atRest.delete now file.isPath_text (sourceTables.symm ▸ brings.here)).promising
      (fun _ _ => id) ?_) fun gone after deleted => ?_
  · rintro after ⟨refused, altersToo⟩
    refine ⟨fun isAble => refused ?_, tables, seen, ?_, fun other elsewhere => ?_, fun other => ?_⟩
    · rw [alters.gives]
      exact isAble.given
    · rw [altersToo.others _ different.symm, alters.self]
    · by_cases isSource : other = file.root.store
      · rw [isSource, altersToo.self, sourceTables]
      · rw [altersToo.others other isSource, alters.others other elsewhere]
    · exact (alters.locks other).trans (altersToo.locks other)
  · obtain ⟨given, left, ⟨rfl, without⟩, altersToo⟩ := deleted
    rw [alters.gives] at given
    refine .pure ⟨{ brings with given }, ?_, fun _ => ?_, fun other notSource notTarget => ?_,
      fun other => (alters.locks other).trans (altersToo.locks other)⟩
    · rw [altersToo.others _ different.symm, alters.self, seen, if_neg (by simp [apart]),
        arrived_elsewhere apart, arrived_elsewhere apart]
    · rw [altersToo.self, without.seen, sourceTables]
    · rw [altersToo.others other notSource, alters.others other notTarget]

/-- A file is moved exactly when it can be brought and no one has it open. A failed move that could
be prepared has taken the file at the target with it, or has left a copy there when the target is
in another store. -/
theorem moveTo_turns
    (now : Int)
    (time? : Option Int)
    (isCalm : calm file.root.store)
    (isCalmToo : calm target.root.store) :
    Turns strict known calm stores (file.moveTo now target time?)
      (fun _ after =>
        ∃ entry,
          Brings stores file target true entry ∧
            Moved stores file target entry (time?.getD now) after)
      fun after =>
        Fails strict known stores file target (file.sameStore target) after ∨
          file.sameStore target = false ∧
            ∃ entry,
              Brings stores file target false entry ∧ ¬Brings stores file target true entry ∧
                Arrives stores file target entry (time?.getD now) after := by
  refine .bind _ ((prepareTransfer_turns now isCalm isCalmToo).promising (fun _ _ => id) ?_)
    fun _ mid prepared => ?_
  · rintro after ⟨unready, alters⟩
    exact .inl (.unready unready alters)
  obtain ⟨entry, cleared, ready, without, alters⟩ := prepared
  unfold renameTo
  by_cases same : file.sameStore target = true
  · rw [if_pos same]
    simp only [bind_assoc, pure_bind]
    refine .bind _ ((moveWithin_turns now time? isCalmToo same ready without alters).promising
      (fun _ _ moved => ⟨entry, moved⟩) ?_) fun value after moved => .pure moved
    rintro after ⟨never, altersToo⟩
    exact .inl (.cleared ready (by rwa [same]) without altersToo)
  · have apart := Bool.eq_false_iff.mpr same
    rw [if_neg same, pure_bind]
    refine .bind _ ((transfer_turns now time? isCalm isCalmToo ready without alters).promising
      (fun _ _ => id) ?_) fun value after arrived => ?_
    · rintro after ⟨never, altersToo⟩
      exact .inl (.cleared ready (by rwa [apart]) without altersToo)
    · refine (deleteArrived_turns now isCalm apart arrived.1 arrived.2).promising
        (fun _ _ moved => ⟨entry, moved⟩) ?_
      rintro after ⟨never, arrives⟩
      exact .inr ⟨apart, entry, arrived.1, never, arrives⟩

/-! ## Both ends -/

/-- A file that is ready for a transfer is seen where it is. -/
theorem Ready.seen
    (ready : Ready stores file target entry) :
    (stores file.root.store).tables.sights file.path =
      some (.file ((stores file.root.store).tables.versionOf entry)) := by
  rw [Tables.sights, ready.here.found, Option.map_some, Tables.sightOf_file ready.here.isFile]

/-- A file that can be brought within its store is neither at the target nor along the way to it. -/
theorem Brings.aside
    {exclusive : Bool}
    (brings : Brings stores file target exclusive entry)
    (same : file.sameStore target = true) :
    file.path ≠ target.path ∧ ¬file.path.names <+: target.path.dropLast.names := by
  have store : file.root.store = target.root.store := by
    simpa [sameStore] using same
  refine ⟨?_, fun along => ?_⟩
  · simpa [FileHandle.same, same] using brings.elsewhere
  · have seen := brings.seen
    rw [store] at seen
    exact brings.leads _ _ along seen

/-- What is put at the target is not seen where the file is. -/
theorem Brings.put_aside
    {exclusive : Bool}
    (brings : Brings stores file target exclusive entry)
    (same : file.sameStore target = true)
    (sights : Sights)
    (version : Version) :
    sights.put target.path version file.path = sights file.path := by
  obtain ⟨elsewhere, away⟩ := brings.aside same
  rw [Sights.put, Sights.set_of_ne elsewhere, Sights.lead_elsewhere away]

/-- A copy of a file: the target has its bytes, and it is where it was as it was. -/
structure Copies (before : StoreId → Store) (file target : FileHandle) (entry : Entry) (time : Int)
    (after : StoreId → Store) : Prop where
  brings : Brings before file target false entry
  arrives : Arrives before file target entry time after
  there :
    ∃ version,
      (after target.root.store).tables.sights target.path = some (.file version) ∧
        version.bytes = ((before file.root.store).tables.versionOf entry).bytes
  stays :
    (after file.root.store).tables.sights file.path =
      (before file.root.store).tables.sights file.path

/-- A file that can be brought and has arrived at the target is copied. -/
theorem Brings.copies
    {time : Int}
    (brings : Brings before file target false entry)
    (arrives : Arrives before file target entry time after) :
    Copies before file target entry time after where
  brings := brings
  arrives := arrives
  there := arrives.seen
  stays := by
    obtain ⟨tables, seen, alters⟩ := arrives
    cases same : file.sameStore target with
    | true =>
        have store : file.root.store = target.root.store := by
          simpa [sameStore] using same
        rw [store, alters.self, seen, brings.put_aside same]
    | false =>
        rw [alters.others]
        simpa [sameStore] using same

/-- A move of a file: the target has its bytes, and nothing is where it was. -/
structure Moves (before : StoreId → Store) (file target : FileHandle) (entry : Entry) (time : Int)
    (after : StoreId → Store) : Prop where
  brings : Brings before file target true entry
  moved : Moved before file target entry time after
  there :
    ∃ version,
      (after target.root.store).tables.sights target.path = some (.file version) ∧
        version.bytes = ((before file.root.store).tables.versionOf entry).bytes
  gone : (after file.root.store).tables.sights file.path = none

/-- A file that can be brought and was moved has the target for its place. -/
theorem Brings.moves
    {time : Int}
    (brings : Brings before file target true entry)
    (moved : Moved before file target entry time after) :
    Moves before file target entry time after where
  brings := brings
  moved := moved
  there := by
    refine ⟨arrived file target true _ time, ?_, bytes_arrived true _ time⟩
    rw [moved.there, Sights.put, Sights.set_self]
  gone := by
    cases same : file.sameStore target with
    | true =>
        have store : file.root.store = target.root.store := by
          simpa [sameStore] using same
        have there := moved.there
        rw [if_pos same] at there
        rw [store, there, brings.put_aside same, Sights.set_self]
    | false =>
        rw [moved.gone same, Sights.set_self]

/-- What comes of a copy of a file to a handle, by the stores before and after. -/
def CopyEnds (strict : Prop) (known : List Entry) (before : StoreId → Store)
    (file target : FileHandle) (time : Int) (after : StoreId → Store) :
    Except Fault Entry → Prop
  | .ok _ => ∃ entry, Copies before file target entry time after
  | .error _ => Fails strict known before file target false after

/-- What comes of a move of a file to a handle, by the stores before and after. -/
def MoveEnds (strict : Prop) (known : List Entry) (before : StoreId → Store)
    (file target : FileHandle) (time : Int) (after : StoreId → Store) :
    Except Fault Entry → Prop
  | .ok _ => ∃ entry, Moves before file target entry time after
  | .error _ =>
      Fails strict known before file target (file.sameStore target) after ∨
        file.sameStore target = false ∧
          ∃ entry,
            ¬Brings before file target true entry ∧ Copies before file target entry time after

/-- Two handles in stores at rest, of which either may be the other's: a file is copied or moved
from one to the other exactly when it can be brought, and then the target has its bytes. When it
cannot be, a file at the target is nevertheless gone if the transfer could be prepared. Nothing
else is lost. -/
theorem transfers_of_rests
    {host : Host}
    (rests :
      host.Rests strict known (fun id => id = file.root.store ∨ id = target.root.store) stores)
    (now : Int)
    (time? : Option Int) :
    (∃ after,
      ((file.copyTo now target time?).runOn host).2.Rests strict known
          (fun id => id = file.root.store ∨ id = target.root.store) after ∧
        CopyEnds strict known stores file target (time?.getD now) after
          ((file.copyTo now target time?).runOn host).1) ∧
      ∃ after,
        ((file.moveTo now target time?).runOn host).2.Rests strict known
            (fun id => id = file.root.store ∨ id = target.root.store) after ∧
          MoveEnds strict known stores file target (time?.getD now) after
            ((file.moveTo now target time?).runOn host).1 := by
  obtain ⟨copied, restsCopied, copyEnded⟩ :=
    copyTo_turns now time? (.inl rfl) (.inr rfl) host rests
  obtain ⟨moved, restsMoved, moveEnded⟩ :=
    moveTo_turns now time? (.inl rfl) (.inr rfl) host rests
  refine ⟨⟨copied, restsCopied, ?_⟩, moved, restsMoved, ?_⟩
  · cases outcome : ((file.copyTo now target time?).runOn host).1 with
    | ok value =>
        rw [outcome] at copyEnded
        obtain ⟨entry, brings, arrives⟩ := copyEnded
        exact ⟨entry, brings.copies arrives⟩
    | error fault =>
        rw [outcome] at copyEnded
        exact copyEnded
  · cases outcome : ((file.moveTo now target time?).runOn host).1 with
    | ok value =>
        rw [outcome] at moveEnded
        obtain ⟨entry, brings, isMoved⟩ := moveEnded
        exact ⟨entry, brings.moves isMoved⟩
    | error fault =>
        rw [outcome] at moveEnded
        rcases moveEnded with fails | ⟨apart, entry, brings, held, arrives⟩
        · exact .inl fails
        · exact .inr ⟨apart, entry, held, brings.copies arrives⟩

/-- A file that a writer has open is not copied, and the file at the target is lost. -/
theorem transfers_lose :
    let first := (Session.start {} false 0).after 1 (.whole (.write "home/a" ⟨#[1]⟩ none none))
    let second := first.after 2 (.whole (.write "home/b" ⟨#[2]⟩ none none))
    let session := second.after 3 (.openWriter "home/a" true)
    let host : Host := { stores := #[session.store] }
    let home : Root := ⟨0, ⟨"home", by decide⟩, default⟩
    let file : FileHandle := ⟨home, ⟨[⟨"a", by decide⟩]⟩⟩
    let target : FileHandle := ⟨home, ⟨[⟨"b", by decide⟩]⟩⟩
    let ends : StoreId → Prop := fun id => id = file.root.store ∨ id = target.root.store
    host.Rests False [] ends host.store ∧
      (session.store.tables.sights target.path).isSome = true ∧
        ∃ fault after,
          ((file.copyTo 4 target none).runOn host).1 = .error fault ∧
            ((file.copyTo 4 target none).runOn host).2.Rests False [] ends after ∧
              (after 0).tables.sights target.path = none := by
  intro first second session host home file target ends
  have proceeds
      {before : Session}
      {now : Int}
      {event : Event}
      (possible : before.Possible event)
      (notClose : event ≠ .close)
      (notInside : ∀ call, event ≠ .inside call)
      (open_ : ((before.after now event).writers.all fun writer => writer.guard.isSome) = true) :
      before.Advances (before.after now event) ∧
        Session.Step (fun _ _ _ => True) before (before.after now event) :=
    ⟨.of_open possible notClose notInside open_, .event possible trivial⟩
  have toFirst : (Session.start {} false 0).Advances first ∧
      Session.Step (fun _ _ _ => True) (Session.start {} false 0) first :=
    proceeds trivial (by simp) (by simp) (by decide)
  have toSecond : first.Advances second ∧ Session.Step (fun _ _ _ => True) first second :=
    proceeds trivial (by simp) (by simp) (by decide)
  have toSession : second.Advances session ∧ Session.Step (fun _ _ _ => True) second session :=
    proceeds trivial (by simp) (by simp) (by decide +kernel)
  have filed : session.Filed :=
    Session.filed_of_advances
      (((Relation.ReflTransGen.single toFirst.1).tail toSecond.1).tail toSession.1)
  have sound : session.Sound False :=
    Session.Sound.of_reachable (.start (by decide) (by decide) false 0) (fun absurd => absurd.elim)
      (((Relation.ReflTransGen.single toFirst.2).tail toSecond.2).tail toSession.2)
  have free :
      session.store.savepoints.isEmpty = true ∧ session.store.closed = false ∧
        session.store.connected = true ∧ session.store.closing = false ∧
          session.store.file = none := by
    decide +kernel
  have atSource :
      ∃ entry ∈ session.store.tables.lookupAt? file.path,
        entry.isDirectory = false ∧ session.store.locks.gives entry.id false = false := by
    decide +kernel
  have atTarget :
      ∃ entry ∈ session.store.tables.lookupAt? target.path,
        entry.isDirectory = false ∧ session.store.locks.gives entry.id true = true := by
    decide +kernel
  clear_value session
  obtain ⟨outside, opened, connected, staying, unfiled⟩ := free
  obtain ⟨entry, found, isFile, refused⟩ := atSource
  obtain ⟨old, foundOld, oldIsFile, given⟩ := atTarget
  have isStore (id : StoreId) (isHere : ends id) : host.store id = session.store := by
    rcases isHere with rfl | rfl <;> rfl
  have rests : host.Rests False [] ends host.store := by
    refine .of_unfiled (fun id isHere => ?_) (fun id isHere => ?_) fun id isHere => ?_
    · rcases isHere with rfl | rfl <;> exact Nat.zero_lt_one
    · rw [isStore id isHere]
      exact filed.atRest sound (List.isEmpty_iff.mp outside) opened connected staying
    · rw [isStore id isHere, unfiled]
  have ready : Ready host.store file target entry :=
    ⟨⟨found, isFile⟩, fun existing isThere =>
      Option.some.inj (foundOld.symm.trans isThere) ▸ ⟨oldIsFile, given⟩⟩
  obtain ⟨⟨after, left, ended⟩, -⟩ := transfers_of_rests rests 4 none
  refine ⟨rests, ?_, ?_⟩
  · rw [Tables.sights, foundOld, Option.map_some]
    rfl
  cases outcome : ((file.copyTo 4 target none).runOn host).1 with
  | ok value =>
      rw [outcome] at ended
      obtain ⟨copied, copies⟩ := ended
      have same : copied = entry := Option.some.inj (copies.brings.here.found.symm.trans found)
      exact absurd (refused.symm.trans (same ▸ copies.brings.given)) Bool.false_ne_true
  | error fault =>
      rw [outcome] at ended
      refine ⟨fault, after, rfl, left, ?_⟩
      cases ended with
      | unready never =>
          exact absurd ready (never entry)
      | cleared _ _ without alters =>
          rw [alters.self, without.seen, Sights.set_self]

end FileHandle

end VersionStore
