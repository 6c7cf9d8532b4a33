import VersionStore.Proofs.Content.Replacing
import VersionStore.Proofs.Session.Fresh
import VersionStore.Proofs.Stream.Giving

namespace VersionStore

/-!
# Files that are replaced in a session

Whatever happened in a session before, a file that is written or copied takes the place of what
was at its path, be it inside a scope that is open or in one of its own. Once it is there outside
of every scope it is given out as what was written. A source that fails is not written, and what
does not make way is not replaced.
-/

open VersionStore.Action Tables

/-- Someone has a file open. -/
def Store.InUse (store : Store) (id : Int) : Prop :=
  store.locks.hold? id ≠ none

/-- Who has a file open is what a call knows of the locks. -/
theorem Store.fits_inUse
    (store : Store) :
    store.Fits (store.setting (fun _ => False) store.InUse) :=
  ⟨rfl, fun _ absurd => absurd.elim, fun _ inUse => inUse⟩

/-- What comes of writing to the path of a text in a store: the file is replaced, and given out as
its new bytes once no scope is open, or nothing changes, unless the call was cut off. -/
structure Store.Writes
    (store : Store)
    (cut : Fault → Prop)
    (now : Int)
    (text : String)
    (source : Source)
    (modified : Int)
    (run : Except Fault Entry × Store) :
    Prop where
  written :
    ∀ row,
      run.1 = .ok row →
      Txn.Written store.config.keepHistory store.InUse now store.tables text source modified row
        run.2.tables
  gives : ∀ row, run.1 = .ok row → run.2.savepoints = [] → run.2.Gives text source.bytes
  undone : ∀ fault, run.1 = .error fault → run.2.tables = store.tables ∨ cut fault
  failed : source.failure? ≠ none → ∃ fault, run.1 = .error fault
  refused :
    ∀ path,
      CleanPath.ofText text = .ok path →
      store.tables.Occupied store.InUse path →
      ∃ fault, run.1 = .error fault ∧ run.2.tables = store.tables

/-- What comes of copying a file in a store: the copy takes the place of what was at its path, and
is given out as what its source contains once no scope is open, or nothing changes. -/
structure Store.Copies
    (store : Store)
    (now : Int)
    (target source : String)
    (modified : Int)
    (run : Except Fault Entry × Store) :
    Prop where
  copied :
    ∀ row,
      run.1 = .ok row →
      ∃ path origin entry,
        CleanPath.ofText target = .ok path ∧
          CleanPath.ofText source = .ok origin ∧
            store.tables.FileAt origin entry ∧
              Txn.Copied store.config.keepHistory store.InUse now store.tables entry modified path
                  row run.2.tables ∧
                (run.2.tables.FileAt origin entry ∧
                    Untouched entry.id store.tables run.2.tables) ∧
                  ∀ data,
                    run.2.savepoints = [] →
                    store.tables.Contains entry.id data →
                    run.2.Gives target data
  undone : ∀ fault, run.1 = .error fault → run.2.tables = store.tables
  refused :
    ∀ path,
      CleanPath.ofText target = .ok path →
      store.tables.Occupied store.InUse path →
      ∃ fault, run.1 = .error fault ∧ run.2.tables = store.tables

/-- What is written when it succeeds, and changes nothing else where something does not make way,
is refused there, and so is a source that fails. -/
theorem Store.Writes.of_outcome
    {store : Store}
    {cut : Fault → Prop}
    {now : Int}
    {text : String}
    {source : Source}
    {modified : Int}
    {run : Except Fault Entry × Store}
    (written :
      ∀ row,
        run.1 = .ok row →
        Txn.Written store.config.keepHistory store.InUse now store.tables text source modified row
          run.2.tables)
    (gives : ∀ row, run.1 = .ok row → run.2.savepoints = [] → run.2.Gives text source.bytes)
    (undone : ∀ fault, run.1 = .error fault → run.2.tables = store.tables ∨ cut fault)
    (barred :
      ∀ fault path,
        run.1 = .error fault →
        CleanPath.ofText text = .ok path →
        store.tables.Occupied store.InUse path →
        run.2.tables = store.tables) :
    store.Writes cut now text source modified run where
  written := written
  gives := gives
  undone := undone
  failed fails := by
    cases outcome : run.1 with
    | error fault =>
        exact ⟨fault, rfl⟩
    | ok row =>
        exact absurd (written row outcome).ends fails
  refused path isPath occupied := by
    cases outcome : run.1 with
    | error fault =>
        exact ⟨fault, rfl, barred fault path outcome isPath occupied⟩
    | ok row =>
        obtain ⟨other, isOther, replaced⟩ := (written row outcome).replaced
        cases isPath.symm.trans isOther
        exact absurd occupied replaced.free

/-- What is copied when it succeeds, and changes nothing else, is refused where something does not
make way. -/
theorem Store.Copies.of_outcome
    {store : Store}
    {now : Int}
    {target source : String}
    {modified : Int}
    {run : Except Fault Entry × Store}
    (copied :
      ∀ row,
        run.1 = .ok row →
        ∃ path origin entry,
          CleanPath.ofText target = .ok path ∧
            CleanPath.ofText source = .ok origin ∧
              store.tables.FileAt origin entry ∧
                Txn.Copied store.config.keepHistory store.InUse now store.tables entry modified path
                    row run.2.tables ∧
                  (run.2.tables.FileAt origin entry ∧
                      Untouched entry.id store.tables run.2.tables) ∧
                    ∀ data,
                      run.2.savepoints = [] →
                      store.tables.Contains entry.id data →
                      run.2.Gives target data)
    (undone : ∀ fault, run.1 = .error fault → run.2.tables = store.tables) :
    store.Copies now target source modified run where
  copied := copied
  undone := undone
  refused path isPath occupied := by
    cases outcome : run.1 with
    | error fault =>
        exact ⟨fault, rfl, undone fault outcome⟩
    | ok row =>
        obtain ⟨other, _, _, isOther, -, -, replaced, -⟩ := copied row outcome
        cases isPath.symm.trans isOther
        exact absurd occupied replaced.free

namespace Action

/-- A change succeeds only on a store that is open, and that is not about to close. -/
theorem opened_of_writing
    {store : Store}
    (alone : store.Alone)
    {action : Action α}
    {value : α}
    (isDone : ((writing action).runOn store).1 = .ok value) :
    store.closing = false ∧ store.closed = false := by
  rw [runOn_writing] at isDone
  by_cases closing : store.closing = true
  · rw [if_pos closing] at isDone
    cases isDone
  rw [if_neg closing, streaming, reading, runOn_bind, runOn_enter alone] at isDone
  by_cases entered : store.entered = true
  · rw [if_pos entered] at isDone
    cases isDone
  rw [if_neg entered] at isDone
  by_cases closed : store.closed = true
  · rw [if_pos closed] at isDone
    cases isDone
  exact ⟨Bool.eq_false_iff.mpr closing, Bool.eq_false_iff.mpr closed⟩

/-- A change that succeeded leaves an open store in no scope. -/
theorem idle_of_writing
    {store : Store}
    (steady : store.Steady)
    {action : Action α}
    {post : α → LockTable → Tables → Prop}
    (leaves : Leaves store post ((writing action).runOn store))
    {value : α}
    (isDone : ((writing action).runOn store).1 = .ok value) :
    store.closing = false ∧ ((writing action).runOn store).2.Idle := by
  obtain ⟨staying, opened⟩ := opened_of_writing steady.toAlone isDone
  obtain ⟨outside, -⟩ := leaves.done value isDone
  exact ⟨staying, leaves.steady, leaves.savepoints.trans outside, leaves.closed.trans opened⟩

end Action

namespace Session

variable {session : Session}

/-- A file that took the place of another is given out once no scope is open. -/
theorem gives_replaced
    (modest : session.Modest)
    (staying : session.store.closing = false)
    {left : Store}
    (idle : left.Idle)
    (same : session.store.locks.Same left.locks)
    (ordered : left.tables.Ordered)
    {text : String}
    {path : CleanPath}
    (isPath : CleanPath.ofText text = .ok path)
    {history : Bool}
    {held : Int → Prop}
    {now : Int}
    {row : Entry}
    (replaced : session.store.tables.Replaced history held now path row left.tables)
    {data : ByteArray}
    (contains : left.tables.Contains row.id data) :
    left.Gives text data :=
  idle.gives isPath ⟨replaced.placed, replaced.isFile⟩ contains replaced.found ordered
    (modest.lends staying same replaced.isNew)

/-- A file is written in a scope of its own. -/
theorem writes_whole
    {strict : Prop}
    (sound : session.Sound strict)
    (modest : session.Modest)
    (now : Int)
    (text : String)
    (source : Source)
    (links? : Option (List String))
    (time? : Option Int) :
    session.store.Writes (fun _ => False) now text source (time?.getD now)
      ((Store.writeFrom now text source links? time?).runOn session.store) := by
  have numbered := modest.numbered sound
  have works :=
    (@Txn.writeFrom_writes (session.store.setting (fun _ => False) session.store.InUse) strict _ _
      now sound.all.tables numbered text source links? time?).both
      (Txn.carrying_writeFrom numbered now text source links? time?)
  have leaves :=
    leaves_writing sound.steady
      (works.leaves sound.steady session.store.fits_inUse ⟨rfl, .refl numbered⟩)
  refine .of_outcome (fun row isDone => (leaves.done row isDone).2.2.1) (fun row isDone _ => ?_)
    (fun fault isUndone => .inl (leaves.undone fault isUndone).1)
    fun fault _ isUndone _ _ => (leaves.undone fault isUndone).1
  obtain ⟨staying, idle⟩ := idle_of_writing sound.steady leaves isDone
  obtain ⟨-, same, written, carries⟩ := leaves.done row isDone
  obtain ⟨path, isPath, replaced⟩ := written.replaced
  exact gives_replaced modest staying idle same carries.toOrdered isPath replaced written.contains

/-- A file is written in a scope that is open. -/
theorem writes_inside
    {strict : Prop}
    (sound : session.Sound strict)
    (modest : session.Modest)
    (opened : session.store.savepoints ≠ [])
    (now : Int)
    (text : String)
    (source : Source)
    (links? : Option (List String))
    (time? : Option Int) :
    session.store.Writes source.FailsWith now text source (time?.getD now)
      ((Txn.writeFrom now text source links? time?).runOn session.store) := by
  have numbered := modest.numbered sound
  have works :=
    (@Txn.writeFrom_writes (session.store.setting (fun _ => False) session.store.InUse) strict _ _
      now sound.all.tables numbered text source links? time?).both
      (Txn.writeFrom_spares now sound.all.tables text source links? time?)
  obtain ⟨alike, ended⟩ :=
    works session.store (sound.steady.inScope opened session.store.fits_inUse) ⟨rfl, rfl⟩
  refine .of_outcome (fun row isDone => ?_) (fun _ _ outside => ?_) (fun fault isUndone => ?_)
    fun fault path isUndone isPath occupied => ?_
  · rw [isDone] at ended
    exact ended.1
  · exact absurd (alike.savepoints.symm.trans outside) opened
  · rw [isUndone] at ended
    exact ended.2
  · rw [isUndone] at ended
    exact ended.1 path isPath occupied

/-- A file is copied in a scope of its own. -/
theorem copies_whole
    {strict : Prop}
    (sound : session.Sound strict)
    (modest : session.Modest)
    (now : Int)
    (target source : String)
    (time? : Option Int) :
    session.store.Copies now target source (time?.getD now)
      ((Store.copy now target source time?).runOn session.store) := by
  have works :=
    (@Txn.copy_copies (session.store.setting (fun _ => False) session.store.InUse) strict _ _ now
      sound.all.tables (modest.numbered sound) target source time?).both
      (Txn.copy_endures endures_ordered now target source time? fun _ _ _ => trivial)
  have leaves :=
    leaves_writing sound.steady
      (works.leaves sound.steady session.store.fits_inUse ⟨rfl, modest.ordered.tables⟩)
  refine .of_outcome (fun row isDone => ?_) fun fault isUndone => (leaves.undone fault isUndone).1
  obtain ⟨staying, idle⟩ := idle_of_writing sound.steady leaves isDone
  obtain ⟨-, same, ⟨path, origin, entry, isPath, isOrigin, here, copied, stays⟩, ordered⟩ :=
    leaves.done row isDone
  refine ⟨path, origin, entry, isPath, isOrigin, here, copied, stays, fun data _ contains => ?_⟩
  have coherent := sound.all.tables.coherent
  have isSource : session.store.tables.entry? entry.id = some entry :=
    coherent.entry?_eq_some_iff.mpr ⟨(coherent.lookupAt?_eq_some_iff.mp here.found).member, rfl⟩
  exact gives_replaced modest staying idle same ordered isPath copied.toReplaced
    (copied.contains contains isSource)

/-- A file is copied in a scope that is open. -/
theorem copies_inside
    {strict : Prop}
    (sound : session.Sound strict)
    (modest : session.Modest)
    (opened : session.store.savepoints ≠ [])
    (now : Int)
    (target source : String)
    (time? : Option Int) :
    session.store.Copies now target source (time?.getD now)
      ((Txn.copy now target source time?).runOn session.store) := by
  have works :=
    @Txn.copy_copies (session.store.setting (fun _ => False) session.store.InUse) strict _ _ now
      sound.all.tables (modest.numbered sound) target source time?
  obtain ⟨alike, ended⟩ :=
    works session.store (sound.steady.inScope opened session.store.fits_inUse) rfl
  refine .of_outcome (fun row isDone => ?_) fun fault isUndone => ?_
  · rw [isDone] at ended
    obtain ⟨path, origin, entry, isPath, isOrigin, here, copied, stays⟩ := ended
    exact ⟨path, origin, entry, isPath, isOrigin, here, copied, stays,
      fun _ outside _ => absurd (alike.savepoints.symm.trans outside) opened⟩
  · rw [isUndone] at ended
    exact ended

/-- Bytes that are written in a scope that is open are never cut off. -/
theorem writes_bytes_inside
    {strict : Prop}
    (sound : session.Sound strict)
    (modest : session.Modest)
    (opened : session.store.savepoints ≠ [])
    (now : Int)
    (text : String)
    (data : ByteArray)
    (links? : Option (List String))
    (time? : Option Int) :
    session.store.Writes (fun _ => False) now text (.ofBytes data) (time?.getD now)
      ((Txn.write now text data links? time?).runOn session.store) where
  __ := writes_inside sound modest opened now text (.ofBytes data) links? time?
  undone fault isUndone := by
    have writes := writes_inside sound modest opened now text (.ofBytes data) links? time?
    rcases writes.undone fault isUndone with same | ⟨failure, fails, -⟩
    · exact .inl same
    · rw [(Source.bytes_ofBytes data).2] at fails
      cases fails

/-- Whatever happened in a session on a new store, what is written from a source, written as
bytes or copied takes the place of the file at its path, be it in a scope that is open or in one
of its own. -/
theorem replaces_of_reachable
    {config : Config}
    (named : ∀ root ∈ config.roots, IsName root)
    (distinct : config.roots.Nodup)
    {timed : Bool}
    {since : Int}
    (reachable : Reachable (fun _ _ _ => True) (start config timed since) session)
    (now : Int) :
    (∀ text source links? time?,
      (session.store.savepoints ≠ [] →
        session.store.Writes source.FailsWith now text source (time?.getD now)
          ((Txn.writeFrom now text source links? time?).runOn session.store)) ∧
        session.store.Writes (fun _ => False) now text source (time?.getD now)
          ((Store.writeFrom now text source links? time?).runOn session.store)) ∧
      (∀ text data links? time?,
        (Source.ofBytes data).bytes = data ∧
          (session.store.savepoints ≠ [] →
            session.store.Writes (fun _ => False) now text (.ofBytes data) (time?.getD now)
              ((Txn.write now text data links? time?).runOn session.store)) ∧
            session.store.Writes (fun _ => False) now text (.ofBytes data) (time?.getD now)
              ((Store.write now text data links? time?).runOn session.store)) ∧
        ∀ target source time?,
          (session.store.savepoints ≠ [] →
            session.store.Copies now target source (time?.getD now)
              ((Txn.copy now target source time?).runOn session.store)) ∧
            session.store.Copies now target source (time?.getD now)
              ((Store.copy now target source time?).runOn session.store) := by
  obtain ⟨sound, modest⟩ := Modest.of_reachable named distinct reachable
  refine ⟨fun text source links? time? => ⟨fun opened => ?_, ?_⟩,
    fun text data links? time? => ⟨(Source.bytes_ofBytes data).1, fun opened => ?_, ?_⟩,
    fun target source time? => ⟨fun opened => ?_, ?_⟩⟩
  · exact writes_inside sound modest opened now text source links? time?
  · exact writes_whole sound modest now text source links? time?
  · exact writes_bytes_inside sound modest opened now text data links? time?
  · exact writes_whole sound modest now text (.ofBytes data) links? time?
  · exact copies_inside sound modest opened now target source time?
  · exact copies_whole sound modest now target source time?

/-- A file is written again from a source that stutters. It is given out as its new bytes, and its
first version is in the trash. -/
theorem replaces_stuttering :
    let session := (start {} false 0).after 1 (.whole (.write "home/a" ⟨#[1]⟩ none none))
    let source : Source := ⟨[.bytes ⟨#[2]⟩, .interrupted, .bytes ⟨#[3, 4]⟩], none⟩
    ∃ row left,
      (Store.writeFrom 2 "home/a" source none none).runOn session.store = (.ok row, left) ∧
        row.length = 3 ∧
          left.Gives "home/a" ⟨#[2, 3, 4]⟩ ∧
            ∃ old ∈ session.store.tables.entries,
              old.trashed 2 ∈ left.tables.entries ∧
                Untouched old.id session.store.tables left.tables := by
  intro session source
  have reachable : Reachable (fun _ _ _ => True) (start {} false 0) session :=
    Relation.ReflTransGen.single (.event trivial trivial)
  have succeeds :
      ((Store.writeFrom 2 "home/a" source none none).runOn session.store).1.isOk = true := by
    decide +kernel
  have outside :
      ((Store.writeFrom 2 "home/a" source none none).runOn session.store).2.savepoints.isEmpty =
        true := by
    decide +kernel
  have writes :=
    ((replaces_of_reachable (by decide) (by decide) reachable 2).1 "home/a" source none none).2
  rcases ran : (Store.writeFrom 2 "home/a" source none none).runOn session.store with
    ⟨_ | row, left⟩
  · rw [ran] at succeeds
    cases succeeds
  rw [ran] at writes outside
  have written := writes.written row rfl
  obtain ⟨path, isPath, replaced⟩ := written.replaced
  have pathIs : CleanPath.ofText "home/a" = .ok ⟨[⟨"home", by decide⟩, ⟨"a", by decide⟩]⟩ := by
    decide
  cases pathIs.symm.trans isPath
  have stood :
      (session.store.tables.lookupAt? ⟨[⟨"home", by decide⟩, ⟨"a", by decide⟩]⟩).isSome = true := by
    decide +kernel
  obtain ⟨old, found⟩ := Option.isSome_iff_exists.mp stood
  have keeps : session.store.config.keepHistory = true := by
    decide +kernel
  have delivered : source.bytes = ⟨#[2, 3, 4]⟩ := by
    decide
  have length : row.length = source.bytes.size := written.length
  have gives : left.Gives "home/a" source.bytes :=
    writes.gives row rfl (List.isEmpty_iff.mp outside)
  rw [delivered] at length gives
  obtain ⟨trashed, untouched⟩ := replaced.trashed old found keeps
  have sound := (Modest.of_reachable (by decide) (by decide) reachable).1
  have member := (sound.all.tables.coherent.lookupAt?_eq_some_iff.mp found).member
  exact ⟨row, left, rfl, length, gives, old, member, trashed, untouched⟩

end Session

end VersionStore
