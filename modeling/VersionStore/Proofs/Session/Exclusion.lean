import VersionStore.Proofs.Action.Counting
import VersionStore.Proofs.Session.Tree
import VersionStore.Proofs.Stream.Guards

namespace VersionStore

/-!
# Streams and the lock table

At any time the lock table says how many streams have each file open, for reading and
for writing, as far as the streams were opened since it was cleared last. Of these, a
writer has its file to itself.

A close clears the table. When streams are open at that time they go on without their
locks, and nothing keeps others from their files when the store is used again.
-/

/-! ## Counting streams -/

section Holders

variable
  {σ : Type}
  {guardOf : σ → Option Guard}
  {streams : List σ}
  {index : Nat}
  {before after : σ}

/-- The number of streams that have a guard. -/
def holders (guardOf : σ → Option Guard) (streams : List σ) (guard : Guard) : Nat :=
  streams.countP fun stream => guardOf stream == some guard

/-- A stream with a guard counts. -/
theorem holders_pos
    {stream : σ}
    {guard : Guard}
    (member : stream ∈ streams)
    (held : guardOf stream = some guard) :
    0 < holders guardOf streams guard :=
  List.countP_pos_iff.mpr ⟨stream, member, by simp [held]⟩

/-- One more stream holds its guard. -/
theorem holders_append
    (stream : σ)
    (guard : Guard) :
    holders guardOf (streams ++ [stream]) guard =
      holders guardOf streams guard + if guardOf stream = some guard then 1 else 0 := by
  simp [holders, List.countP_append, List.countP_singleton]

/-- A new stream counts for its own guard only. -/
theorem holders_append_of_ne
    {stream : σ}
    {held guard : Guard}
    (had : guardOf stream = some held)
    (other : guard ≠ held) :
    holders guardOf (streams ++ [stream]) guard = holders guardOf streams guard := by
  rw [holders_append, had, if_neg (by simpa using Ne.symm other), Nat.add_zero]

/-- A stream that keeps its guard counts as it did. -/
theorem holders_set_same
    (found : streams[index]? = some before)
    (same : guardOf after = guardOf before)
    (guard : Guard) :
    holders guardOf (streams.set index after) guard = holders guardOf streams guard := by
  obtain ⟨inside, isStream⟩ := List.getElem?_eq_some_iff.mp found
  unfold holders
  rw [List.countP_set inside, isStream, same]
  split
  · have some_ : 0 < streams.countP fun stream => guardOf stream == some guard :=
      List.countP_pos_iff.mpr ⟨before, List.mem_of_getElem? found, by assumption⟩
    omega
  · rfl

/-- A stream that is closed counts no more. -/
theorem holders_set_closed
    {held : Guard}
    (found : streams[index]? = some before)
    (had : guardOf before = some held)
    (gone : guardOf after = none)
    (guard : Guard) :
    (guard = held → 0 < holders guardOf streams guard) ∧
      holders guardOf (streams.set index after) guard =
        holders guardOf streams guard - if guard = held then 1 else 0 := by
  obtain ⟨inside, isStream⟩ := List.getElem?_eq_some_iff.mp found
  unfold holders
  refine ⟨?_, ?_⟩
  · rintro rfl
    exact holders_pos (List.mem_of_getElem? found) had
  · rw [List.countP_set inside, isStream, had, gone]
    by_cases asked : guard = held
    · simp [asked]
    · simp [asked, Ne.symm asked]

/-- Streams that have the same guard are one stream when it is counted once. -/
theorem index_eq_of_holders
    {first second : Nat}
    {guard : Guard}
    (once : holders guardOf streams guard ≤ 1)
    (foundFirst : streams[first]? = some before)
    (foundSecond : streams[second]? = some after)
    (heldFirst : guardOf before = some guard)
    (heldSecond : guardOf after = some guard) :
    first = second := by
  by_contra different
  wlog ordered : first < second generalizing first second before after
  · exact this foundSecond foundFirst heldSecond heldFirst (Ne.symm different) (by omega)
  obtain ⟨insideFirst, isFirst⟩ := List.getElem?_eq_some_iff.mp foundFirst
  obtain ⟨insideSecond, isSecond⟩ := List.getElem?_eq_some_iff.mp foundSecond
  have inFront : 0 < holders guardOf (streams.take second) guard :=
    holders_pos (List.mem_of_getElem? (List.getElem?_take_of_lt ordered ▸ foundFirst)) heldFirst
  have behind : 0 < holders guardOf (streams.drop second) guard := by
    refine holders_pos (List.mem_of_getElem? (i := 0) ?_) heldSecond
    rw [List.getElem?_drop]
    exact foundSecond
  have both : holders guardOf streams guard =
      holders guardOf (streams.take second) guard +
        holders guardOf (streams.drop second) guard := by
    unfold holders
    rw [← List.countP_append, List.take_append_drop]
  omega

/-- Streams without a guard hold none. -/
theorem holders_eq_zero
    {guard : Guard}
    (none_ : ∀ stream ∈ streams, guardOf stream ≠ some guard) :
    holders guardOf streams guard = 0 := by
  rw [holders, List.countP_eq_zero]
  intro stream member held
  exact none_ stream member (by simpa using held)

end Holders

/-! ## Scopes that come and go -/

/-- What the beginning or the end of a scope leaves of a store. -/
structure Store.Rescopes (before after : Store) : Prop where
  steady : after.Steady
  config : after.config = before.config
  closing : after.closing = before.closing
  closed : after.closed = before.closed
  locks : after.locks = before.locks
  all : ∀ holds, before.All holds → after.All holds

namespace Store.Rescopes

open VersionStore.Action

variable {store : Store}

/-- A transaction begins, or is refused. -/
theorem of_begin
    (steady : store.Steady) :
    store.Rescopes (beginWriting.runOn store).2 := by
  have same : store.Rescopes store :=
    ⟨steady, rfl, rfl, rfl, rfl, fun _ all => all⟩
  rw [runOn_beginWriting steady.toAlone]
  by_cases closing : store.closing = true
  · rw [if_pos closing]
    exact same
  rw [if_neg closing]
  by_cases entered : store.entered = true
  · rw [if_pos entered]
    exact same
  rw [if_neg entered]
  by_cases closed : store.closed = true
  · rw [if_pos closed]
    exact same
  rw [if_neg closed]
  exact ⟨steady.entering (steady.outside entered), rfl, rfl, rfl, rfl, fun _ all => all.entering⟩

/-- A scope begins in another one. -/
theorem of_nest
    (steady : store.Steady)
    (opened : store.savepoints ≠ []) :
    store.Rescopes (beginScope.runOn store).2 :=
  ⟨steady.nested opened, rfl, rfl, rfl, rfl, fun _ all => all.nested⟩

/-- The innermost scope ends. -/
theorem of_finish
    (steady : store.Steady)
    (opened : store.savepoints ≠ [])
    (kept : Bool) :
    store.Rescopes
      ((if store.savepoints.length = 1 then endWriting kept else endScope kept).runOn store).2 := by
  obtain ⟨saved, outer, around⟩ := List.exists_cons_of_ne_nil opened
  cases outer with
  | nil =>
      rw [if_pos (by simp [around]), runOn_endWriting steady.toAlone around]
      obtain ⟨config, locks, closing, closed⟩ := store.ended_same kept saved
      exact ⟨steady.ended around kept, config, closing, closed, locks,
        fun _ all => all.ended steady.toAlone kept (all.saved saved (by simp [around]))⟩
  | cons next outer =>
      rw [if_neg (by simp [around])]
      cases kept with
      | true =>
          rw [show endScope true = commitScope from rfl, runOn_commitScope_inner around]
          exact ⟨steady.unnested around (.inl rfl), rfl, rfl, rfl, rfl,
            fun _ all => all.unnested around (.inl rfl)⟩
      | false =>
          rw [show endScope false = rollbackScope from rfl, runOn_rollbackScope_inner around]
          exact ⟨steady.unnested around (.inr rfl), rfl, rfl, rfl, rfl,
            fun _ all => all.unnested around (.inr rfl)⟩

end Store.Rescopes

/-- A close leaves a store steady. -/
theorem Store.Steady.close
    {store : Store}
    (steady : store.Steady)
    (outside : store.savepoints = []) :
    store.close.2.Steady := by
  refine ⟨⟨steady.damage, steady.writable, steady.others⟩, ?_, nofun, fun _ => rfl, nofun,
    fun _ => ⟨steady.tables_eq_kept outside, nofun⟩, nofun⟩
  have gate := steady.gate
  rw [outside] at gate
  exact gate

namespace Session

open VersionStore.Action

/-! ## Streams that the table knows -/

/-- Of the streams that have a guard one writes at most, and none reads then. -/
def Apart (session : Session) (guard : Guard) : Prop :=
  holders Writer.guard session.writers guard ≤ 1 ∧
    (0 < holders Writer.guard session.writers guard →
      holders Reader.guard session.readers guard = 0)

/-- The lock table and the streams of a session agree. -/
structure Accounted (session : Session) : Prop where
  steady : session.store.Steady
  writer :
    ∀ writer ∈ session.writers,
      ∀ guard,
        writer.guard = some guard →
        guard.id = writer.fileId ∧ guard.generation ≤ session.store.locks.generation ∧
          writer.result = none
  reader :
    ∀ reader ∈ session.readers,
      ∀ guard,
        reader.guard = some guard →
        guard.id = reader.entry.id ∧ guard.generation ≤ session.store.locks.generation
  tally :
    ∀ id,
      tally (session.store.locks.hold? id) =
        (holders Writer.guard session.writers ⟨id, session.store.locks.generation⟩,
          holders Reader.guard session.readers ⟨id, session.store.locks.generation⟩)
  apart : ∀ guard, session.Apart guard

/-- A session after something that cleared no locks. Only streams from after the last
clearing can have become more. -/
structure Follows (session next : Session) : Prop where
  accounted : next.Accounted
  config : next.store.config = session.store.config
  generation : next.store.locks.generation = session.store.locks.generation
  older :
    ∀ guard : Guard,
      guard.generation ≠ session.store.locks.generation →
      holders Writer.guard next.writers guard ≤ holders Writer.guard session.writers guard ∧
        holders Reader.guard next.readers guard ≤ holders Reader.guard session.readers guard

namespace Accounted

variable {session next : Session}

/-- Streams that the table knows are apart. Those from before a clearing were, and they
can only be closed. -/
theorem follows
    (accounted : session.Accounted)
    (steady : next.store.Steady)
    (config : next.store.config = session.store.config)
    (generation : next.store.locks.generation = session.store.locks.generation)
    (writer :
      ∀ writer ∈ next.writers,
        ∀ guard,
          writer.guard = some guard →
          guard.id = writer.fileId ∧ guard.generation ≤ session.store.locks.generation ∧
            writer.result = none)
    (reader :
      ∀ reader ∈ next.readers,
        ∀ guard,
          reader.guard = some guard →
          guard.id = reader.entry.id ∧ guard.generation ≤ session.store.locks.generation)
    (tallied :
      ∀ id,
        VersionStore.tally (next.store.locks.hold? id) =
          (holders Writer.guard next.writers ⟨id, session.store.locks.generation⟩,
            holders Reader.guard next.readers ⟨id, session.store.locks.generation⟩))
    (older :
      ∀ guard : Guard,
        guard.generation ≠ session.store.locks.generation →
        holders Writer.guard next.writers guard ≤ holders Writer.guard session.writers guard ∧
          holders Reader.guard next.readers guard ≤ holders Reader.guard session.readers guard) :
    session.Follows next := by
  rw [← generation] at writer reader tallied
  refine ⟨⟨steady, writer, reader, tallied, fun guard => ?_⟩, config, generation, older⟩
  by_cases current : guard.generation = next.store.locks.generation
  · have apart := LockTable.tally_apart (next.store.locks.hold? guard.id)
    rw [tallied, ← current] at apart
    exact apart
  · obtain ⟨one, alone⟩ := accounted.apart guard
    obtain ⟨writers, readers⟩ := older guard (generation ▸ current)
    refine ⟨writers.trans one, fun some_ => ?_⟩
    have none_ := alone (some_.trans_le writers)
    omega

/-- What is neither about streams nor about locks changes nothing about them. -/
theorem continuing
    (accounted : session.Accounted)
    (steady : next.store.Steady)
    (config : next.store.config = session.store.config)
    (generation : next.store.locks.generation = session.store.locks.generation)
    (hold? : ∀ id, next.store.locks.hold? id = session.store.locks.hold? id)
    (writers : next.writers = session.writers)
    (readers : next.readers = session.readers) :
    session.Follows next := by
  refine accounted.follows steady config generation ?_ ?_ (fun id => ?_) fun guard _ => ?_
  · rw [writers]
    exact accounted.writer
  · rw [readers]
    exact accounted.reader
  · rw [hold?, writers, readers]
    exact accounted.tally id
  · rw [writers, readers]
    exact ⟨le_rfl, le_rfl⟩

/-- A session goes on while its store does. -/
theorem running
    (accounted : session.Accounted)
    {store : Store}
    (continues : session.store.Continues store) :
    session.Follows { session with store } :=
  accounted.continuing continues.steady continues.config continues.locks.generation continues.locks.hold? rfl rfl

/-- A writer that was opened is the only stream on its file. -/
theorem holdWriter
    (accounted : session.Accounted)
    {opening : Action Writer}
    (lends : session.store.Lends true Writer.Holds (opening.runOn session.store)) :
    session.Follows (session.holdWriter opening) := by
  unfold Session.holdWriter
  rcases ran : opening.runOn session.store with ⟨fault | writer, left⟩
  · rw [ran] at lends
    have same := lends.refused fault rfl
    exact accounted.continuing lends.steady lends.config same.generation same.hold? rfl rfl
  · rw [ran] at lends
    obtain ⟨guard, given, taken, same, held, isFile, open_⟩ := lends.lent writer rfl
    obtain ⟨isGuard, sameGeneration⟩ := LockTable.guard_of_lock? taken
    replace sameGeneration := same.generation.trans sameGeneration
    refine accounted.follows lends.steady lends.config sameGeneration ?_ accounted.reader (fun id => ?_)
      fun old notCurrent => ⟨(holders_append_of_ne held fun same => notCurrent ?_).le, le_rfl⟩
    · intro other member otherGuard otherHeld
      rcases List.mem_append.mp member with old | new
      · exact accounted.writer other old otherGuard otherHeld
      · cases List.mem_singleton.mp new
        cases held.symm.trans otherHeld
        exact ⟨isFile, by rw [isGuard], open_⟩
    · obtain ⟨free, tallied⟩ := LockTable.tally_lock?_exclusive taken id
      rw [same.hold?, tallied, holders_append, held]
      by_cases asked : id = guard.id
      · subst asked
        have before := accounted.tally guard.id
        rw [free, ← isGuard] at before
        obtain ⟨noWriter, noReader⟩ := Prod.mk.inj before
        rw [if_pos rfl, ← isGuard, if_pos rfl, ← noWriter, ← noReader]
      · have other : some guard ≠ some (⟨id, session.store.locks.generation⟩ : Guard) := by
          rw [isGuard]
          simpa using Ne.symm asked
        rw [if_neg asked, if_neg other]
        exact accounted.tally id
    · rw [same, isGuard]

/-- A reader that was opened shares its file with readers only. -/
theorem holdReader
    (accounted : session.Accounted)
    {opening : Action Reader}
    (opened : Reader.Opened session.store (opening.runOn session.store)) :
    session.Follows (session.holdReader opening) := by
  unfold Session.holdReader
  rcases ran : opening.runOn session.store with ⟨fault | reader, left⟩
  · rw [ran] at opened
    have same := opened.failed fault rfl
    exact accounted.continuing opened.steady opened.config same.generation same.hold? rfl rfl
  · rw [ran] at opened
    obtain ⟨guard, given, taken, same, starts⟩ := opened.done reader rfl
    obtain ⟨isGuard, sameGeneration⟩ := LockTable.guard_of_lock? taken
    replace sameGeneration := same.generation.trans sameGeneration
    refine accounted.follows opened.steady opened.config sameGeneration accounted.writer ?_ (fun id => ?_)
      fun old notCurrent =>
        ⟨le_rfl, (holders_append_of_ne starts.held fun same => notCurrent ?_).le⟩
    · intro other member otherGuard otherHeld
      rcases List.mem_append.mp member with old | new
      · exact accounted.reader other old otherGuard otherHeld
      · cases List.mem_singleton.mp new
        cases starts.held.symm.trans otherHeld
        exact ⟨starts.file, by rw [isGuard]⟩
    · obtain ⟨noWriter, tallied⟩ := LockTable.tally_lock?_shared taken id
      have before := accounted.tally id
      rw [same.hold?, tallied, holders_append, starts.held]
      by_cases asked : id = guard.id
      · subst asked
        rw [← isGuard] at before
        rw [before] at noWriter ⊢
        rw [if_pos rfl, ← isGuard, if_pos rfl]
        exact Prod.ext noWriter.symm rfl
      · have other : some guard ≠ some (⟨id, session.store.locks.generation⟩ : Guard) := by
          rw [isGuard]
          simpa using Ne.symm asked
        rw [if_neg asked, if_neg other]
        exact before
    · rw [same, isGuard]

/-- The use of a writer leaves its lock in the table, or takes it out when it goes. -/
theorem onWriter
    (accounted : session.Accounted)
    (now : Int)
    (index : Nat)
    (use : WriterUse) :
    session.Follows (session.onWriter index (use.run now)) := by
  unfold Session.onWriter
  cases found : session.writers[index]? with
  | none =>
      exact accounted.continuing accounted.steady rfl rfl (fun _ => rfl) rfl rfl
  | some writer =>
      have used := Writer.used_run writer accounted.steady now use
      have member := List.mem_of_getElem? found
      dsimp only
      rcases ran : (use.run now).runOn writer session.store with ⟨outcome, after, left⟩
      rw [ran] at used
      dsimp only at used ⊢
      rcases used.locks with ⟨sameGuard, sameResult, same⟩ | ⟨guard, held, gone, same⟩
      · refine accounted.follows used.steady used.config same.generation ?_ accounted.reader
          (fun id => ?_) fun old _ => ⟨(holders_set_same found sameGuard old).le, le_rfl⟩
        · intro other isIn otherGuard otherHeld
          rcases List.mem_or_eq_of_mem_set isIn with old | rfl
          · exact accounted.writer other old otherGuard otherHeld
          · rw [used.fileId, sameResult]
            exact accounted.writer writer member otherGuard (sameGuard ▸ otherHeld)
        · rw [same.hold?, holders_set_same found sameGuard]
          exact accounted.tally id
      · have sameGeneration : left.locks.generation = session.store.locks.generation :=
          same.generation.trans (LockTable.generation_release _ _)
        refine accounted.follows used.steady used.config sameGeneration ?_ accounted.reader (fun id => ?_)
          fun old _ =>
            ⟨(holders_set_closed found held gone old).2.trans_le (Nat.sub_le _ _), le_rfl⟩
        · intro other isIn otherGuard otherHeld
          rcases List.mem_or_eq_of_mem_set isIn with old | rfl
          · exact accounted.writer other old otherGuard otherHeld
          · cases gone.symm.trans otherHeld
        · have before := accounted.tally id
          obtain ⟨counted, less⟩ :=
            holders_set_closed found held gone ⟨id, session.store.locks.generation⟩
          have writing (isGuard : guard = ⟨id, session.store.locks.generation⟩) :
              0 < (VersionStore.tally (session.store.locks.hold? id)).1 := by
            rw [before]
            exact counted isGuard.symm
          rw [same.hold?, less, LockTable.tally_release_writer guard id writing]
          by_cases isGuard : guard = ⟨id, session.store.locks.generation⟩
          · have alone := LockTable.tally_of_writer (writing isGuard)
            rw [before] at alone
            obtain ⟨one, noReader⟩ := Prod.mk.inj alone
            rw [if_pos isGuard, if_pos isGuard.symm, one, noReader]
          · rw [if_neg isGuard, if_neg (Ne.symm isGuard)]
            exact before

/-- The use of a reader leaves its lock in the table, or takes it out when it goes. -/
theorem onReader
    (accounted : session.Accounted)
    (index : Nat)
    (use : ReaderUse) :
    session.Follows (session.onReader index use.run) := by
  unfold Session.onReader
  cases found : session.readers[index]? with
  | none =>
      exact accounted.continuing accounted.steady rfl rfl (fun _ => rfl) rfl rfl
  | some reader =>
      have used := Reader.used_run reader accounted.steady use
      have member := List.mem_of_getElem? found
      dsimp only
      rcases ran : use.run.runOn reader session.store with ⟨outcome, after, left⟩
      rw [ran] at used
      dsimp only at used ⊢
      rcases used with ⟨fixed, connected⟩ | ⟨guard, held, fixed, rfl⟩
      · have steady := connected.steady accounted.steady
        obtain ⟨_, -, rfl⟩ := connected
        have sameGuard : after.guard = reader.guard := congrArg Prod.fst fixed
        have sameEntry : after.entry = reader.entry := congrArg (fun parts => parts.2.1) fixed
        refine accounted.follows steady rfl rfl accounted.writer ?_ (fun id => ?_) fun old _ =>
          ⟨le_rfl, (holders_set_same found sameGuard old).le⟩
        · intro other isIn otherGuard otherHeld
          rcases List.mem_or_eq_of_mem_set isIn with old | rfl
          · exact accounted.reader other old otherGuard otherHeld
          · rw [sameEntry]
            exact accounted.reader reader member otherGuard (sameGuard ▸ otherHeld)
        · dsimp only
          rw [holders_set_same found sameGuard]
          exact accounted.tally id
      · have gone : after.guard = none := congrArg Prod.fst fixed
        have sameGeneration :=
          LockTable.generation_release session.store.locks guard
        have sane := accounted.steady.sane.release guard
        refine accounted.follows (accounted.steady.withLocks sane) rfl sameGeneration
          accounted.writer ?_ (fun id => ?_) fun old _ =>
            ⟨le_rfl, (holders_set_closed found held gone old).2.trans_le (Nat.sub_le _ _)⟩
        · intro other isIn otherGuard otherHeld
          rcases List.mem_or_eq_of_mem_set isIn with old | rfl
          · exact accounted.reader other old otherGuard otherHeld
          · cases gone.symm.trans otherHeld
        · have before := accounted.tally id
          obtain ⟨counted, less⟩ :=
            holders_set_closed found held gone ⟨id, session.store.locks.generation⟩
          have reading (isGuard : guard = ⟨id, session.store.locks.generation⟩) :
              0 < (VersionStore.tally (session.store.locks.hold? id)).2 := by
            rw [before]
            exact counted isGuard.symm
          dsimp only
          rw [less, LockTable.tally_release_reader guard id reading, before]
          simp only [eq_comm]

/-- Beginning and ending scopes has nothing to do with streams. -/
theorem rescoped
    (accounted : session.Accounted)
    {store : Store}
    (rescopes : session.store.Rescopes store) :
    session.Follows { session with store } := by
  refine accounted.continuing rescopes.steady rescopes.config ?_ (fun id => ?_) rfl rfl
  · exact congrArg LockTable.generation rescopes.locks
  · exact congrArg (fun table : LockTable => table.hold? id) rescopes.locks

/-- A close clears the table, so that it knows no stream any longer. -/
theorem closed
    (accounted : session.Accounted)
    (outside : session.store.savepoints = []) :
    Accounted { session with store := session.store.close.2 } where
  steady := accounted.steady.close outside
  writer writer member guard held := by
    obtain ⟨isFile, older, open_⟩ := accounted.writer writer member guard held
    exact ⟨isFile, Nat.le_succ_of_le older, open_⟩
  reader reader member guard held := by
    obtain ⟨isFile, older⟩ := accounted.reader reader member guard held
    exact ⟨isFile, Nat.le_succ_of_le older⟩
  apart := accounted.apart
  tally id := by
    change (0, 0) = _
    rw [holders_eq_zero, holders_eq_zero]
    · intro reader member held
      have older := (accounted.reader reader member _ held).2
      exact Nat.not_succ_le_self _ older
    · intro writer member held
      have older := (accounted.writer writer member _ held).2.1
      exact Nat.not_succ_le_self _ older

/-- Streams that are closed hold no lock. -/
theorem holders_of_closed
    (accounted : session.Accounted)
    (streamsClosed : session.StreamsClosed)
    (guard : Guard) :
    holders Writer.guard session.writers guard = 0 ∧
      holders Reader.guard session.readers guard = 0 := by
  refine ⟨holders_eq_zero fun writer member held => ?_, holders_eq_zero fun reader member held => ?_⟩
  · obtain ⟨-, -, open_⟩ := accounted.writer writer member guard held
    have closed := streamsClosed.1 writer member
    simp [Writer.isClosed, held, open_] at closed
  · have closed := streamsClosed.2 reader member
    simp [Reader.isClosed, held] at closed

/-- A store that is opened anew has no streams to account for. -/
theorem reopened
    (accounted : session.Accounted)
    (streamsClosed : session.StreamsClosed)
    (config : Config)
    (timed : Bool) :
    Accounted { session with store := opened config timed session.store.kept } := by
  have noHolder := accounted.holders_of_closed streamsClosed
  refine ⟨Sound.steady_opened _ _ _, ?_, ?_, fun id => ?_, accounted.apart⟩
  · intro writer member guard held
    exact absurd (noHolder guard).1 (holders_pos member held).ne'
  · intro reader member guard held
    exact absurd (noHolder guard).2 (holders_pos member held).ne'
  · change (0, 0) = _
    rw [(noHolder _).1, (noHolder _).2]

/-- Every event but a close or a new opening clears no locks. -/
theorem perform
    (accounted : session.Accounted)
    (now : Int)
    {event : Event}
    (feasible : session.Feasible event)
    (notClose : event ≠ .close)
    (notReopen : ∀ config timed, event ≠ .reopen config timed) :
    session.Follows (session.perform now event) := by
  have steady := accounted.steady
  cases event with
  | begin =>
      exact accounted.rescoped (.of_begin steady)
  | nest =>
      exact accounted.rescoped (.of_nest steady feasible)
  | finish kept =>
      exact accounted.rescoped (.of_finish steady feasible kept)
  | inside call =>
      exact accounted.running (call.continues_inside steady now)
  | whole call =>
      exact accounted.running (call.continues_whole steady now)
  | ask question =>
      exact accounted.running (question.passes_ask steady trivial)
  | openWriter text append =>
      exact accounted.holdWriter (Writer.lends_openPath steady now text append)
  | useWriter index use =>
      exact accounted.onWriter now index use
  | openReader text =>
      exact accounted.holdReader (Reader.opened_openPath steady text)
  | openReaderOf entry =>
      exact accounted.holdReader (Reader.opened_openEntry steady entry)
  | useReader index use =>
      exact accounted.onReader index use
  | drain paused =>
      have same (table : LockTable) :
          (if paused then table.pause else table).generation = table.generation ∧
            ∀ id, (if paused then table.pause else table).hold? id = table.hold? id := by
        cases paused <;> exact ⟨rfl, fun _ => rfl⟩
      obtain ⟨generation, hold?⟩ := same session.store.locks
      refine accounted.continuing { steady with sane := fun id none_ => ?_ } rfl generation hold? rfl
        rfl
      exact steady.sane id ((hold? id).symm.trans none_)
  | close =>
      exact absurd rfl notClose
  | resume =>
      exact accounted.continuing { steady with sane := steady.sane } rfl rfl (fun _ => rfl) rfl rfl
  | reopen config timed =>
      exact absurd rfl (notReopen config timed)

/-- Noting what a store keeps is not about streams. -/
theorem remembering
    (accounted : session.Accounted) :
    session.remembering.Accounted :=
  ⟨accounted.steady, accounted.writer, accounted.reader, accounted.tally, accounted.apart⟩

/-- Every event leaves the lock table and the streams in agreement. -/
theorem after
    (accounted : session.Accounted)
    (now : Int)
    {event : Event}
    (feasible : session.Feasible event) :
    (session.after now event).Accounted := by
  apply remembering
  by_cases isClose : event = .close
  · subst isClose
    exact accounted.closed feasible
  by_cases isReopen : ∃ config timed, event = .reopen config timed
  · obtain ⟨config, timed, rfl⟩ := isReopen
    exact accounted.reopened feasible.2 config timed
  · exact (accounted.perform now feasible isClose
      fun config timed same => isReopen ⟨config, timed, same⟩).accounted

/-- Only a new opening changes how a store is configured. -/
theorem config_after
    (accounted : session.Accounted)
    (now : Int)
    {event : Event}
    (feasible : session.Feasible event)
    (notReopen : ∀ config timed, event ≠ .reopen config timed) :
    (session.after now event).store.config = session.store.config := by
  by_cases isClose : event = .close
  · subst isClose
    rfl
  · exact (accounted.perform now feasible isClose notReopen).config

/-- A store without streams has nothing to account for. -/
theorem start
    (config : Config)
    (timed : Bool)
    (now : Int) :
    (Session.start config timed now).Accounted := by
  apply remembering
  refine ⟨Sound.steady_opened _ _ _, ?_, ?_, fun _ => rfl, fun _ => ⟨Nat.zero_le _, fun _ => rfl⟩⟩
  · intro _ member
    exact absurd member List.not_mem_nil
  · intro _ member
    exact absurd member List.not_mem_nil

/-- The lock table and the streams agree all the time. -/
theorem of_run
    {allowed : Session → Int → Event → Prop}
    {first : Session}
    (accounted : first.Accounted)
    (run : Run allowed first session) :
    session.Accounted := by
  induction run with
  | refl =>
      exact accounted
  | tail _ move before =>
      obtain ⟨feasible, -⟩ := move
      exact before.after _ feasible

/-- A file is locked for a writer whose lock the table knows, and the lock is not shared. -/
theorem exclusive_of_current
    (accounted : session.Accounted)
    {writer : Writer}
    {guard : Guard}
    (member : writer ∈ session.writers)
    (held : writer.guard = some guard)
    (current : guard.generation = session.store.locks.generation) :
    session.store.locks.hold? writer.fileId = some .exclusive := by
  obtain ⟨file, generation⟩ := guard
  obtain rfl : file = writer.fileId := (accounted.writer writer member _ held).1
  obtain rfl : generation = session.store.locks.generation := current
  have some_ := holders_pos member held
  have tallied := accounted.tally writer.fileId
  rcases isHold : session.store.locks.hold? writer.fileId with _ | (readers | _)
  · rw [isHold] at tallied
    exact absurd (Prod.mk.inj tallied).1 some_.ne
  · rw [isHold] at tallied
    exact absurd (Prod.mk.inj tallied).1 some_.ne
  · rfl

/-- A file is locked for a reader whose lock the table knows. -/
theorem held_of_current
    (accounted : session.Accounted)
    {reader : Reader}
    {guard : Guard}
    (member : reader ∈ session.readers)
    (held : reader.guard = some guard)
    (current : guard.generation = session.store.locks.generation) :
    session.store.locks.hold? reader.entry.id ≠ none := by
  intro free
  obtain ⟨file, generation⟩ := guard
  obtain rfl : file = reader.entry.id := (accounted.reader reader member _ held).1
  obtain rfl : generation = session.store.locks.generation := current
  have some_ := holders_pos member held
  have tallied := accounted.tally reader.entry.id
  rw [free] at tallied
  exact some_.ne (Prod.mk.inj tallied).2

end Accounted

/-! ## Streams of one time -/

/-- All streams that are not closed were opened since the table was cleared last. -/
def Current (session : Session) : Prop :=
  ∀ guard : Guard,
    guard.generation ≠ session.store.locks.generation →
    holders Writer.guard session.writers guard = 0 ∧
      holders Reader.guard session.readers guard = 0

namespace Current

variable {session next : Session}

/-- Streams from before a clearing do not come into being. -/
theorem of_follows
    (current : session.Current)
    (follows : session.Follows next) :
    next.Current := by
  intro guard older
  rw [follows.generation] at older
  obtain ⟨writers, readers⟩ := follows.older guard older
  obtain ⟨noWriter, noReader⟩ := current guard older
  omega

/-- A store that nothing holds a lock of is closed without leaving streams behind. -/
theorem closed
    (current : session.Current)
    (accounted : session.Accounted)
    (drained : session.store.isDrained = true) :
    Current { session with store := session.store.close.2 } := by
  intro guard _
  by_cases older : guard.generation = session.store.locks.generation
  · have free : session.store.locks.hold? guard.id = none := by
      have idle : session.store.locks.holds = [] := by
        simpa [Store.isDrained, LockTable.isIdle] using (Bool.and_eq_true_iff.mp drained).2
      simp [LockTable.hold?, idle]
    have none_ := accounted.tally guard.id
    rw [free, ← older] at none_
    exact ⟨(Prod.mk.inj none_).1.symm, (Prod.mk.inj none_).2.symm⟩
  · exact current guard older

/-- Every event but a close that does not wait leaves no stream behind. -/
theorem after
    (current : session.Current)
    (accounted : session.Accounted)
    (now : Int)
    {event : Event}
    (feasible : session.Feasible event)
    (drained : event = .close → session.store.isDrained = true) :
    (session.after now event).Current := by
  change (session.perform now event).Current
  by_cases isClose : event = .close
  · subst isClose
    exact current.closed accounted (drained rfl)
  by_cases isReopen : ∃ config timed, event = .reopen config timed
  · obtain ⟨config, timed, rfl⟩ := isReopen
    exact fun guard _ => accounted.holders_of_closed feasible.2 guard
  · exact current.of_follows (accounted.perform now feasible isClose
      fun config timed same => isReopen ⟨config, timed, same⟩)

/-- No stream is ever left behind when every close waits for the streams to end. -/
theorem of_run
    {allowed : Session → Int → Event → Prop}
    {first : Session}
    (current : first.Current)
    (accounted : first.Accounted)
    (drained : ∀ session now, allowed session now .close → session.store.isDrained = true)
    (run : Run allowed first session) :
    session.Current := by
  induction run with
  | refl =>
      exact current
  | tail run move before =>
      obtain ⟨feasible, isAllowed⟩ := move
      refine before.after (accounted.of_run run) _ feasible fun isClose => ?_
      subst isClose
      exact drained _ _ isAllowed

variable (current : session.Current) (accounted : session.Accounted)

include current accounted

omit accounted in
/-- A stream that is not closed has its lock from after the last clearing. -/
theorem generation_eq
    {guard : Guard}
    (some_ :
      0 < holders Writer.guard session.writers guard ∨
        0 < holders Reader.guard session.readers guard) :
    guard.generation = session.store.locks.generation := by
  by_contra older
  obtain ⟨noWriter, noReader⟩ := current guard older
  omega

/-- A file that a writer has open is locked, and the lock is not shared. -/
theorem exclusive_of_writer
    {writer : Writer}
    (member : writer ∈ session.writers)
    (open_ : writer.isClosed = false) :
    session.store.locks.hold? writer.fileId = some .exclusive := by
  obtain ⟨guard, held⟩ := Writer.guard_of_open open_
  exact accounted.exclusive_of_current member held
    (current.generation_eq (.inl (holders_pos member held)))

end Current

/-! ## Exclusion -/

/-- Of the streams that are not closed, any two that meet are on different files unless
both of them read. -/
structure Excludes (session : Session) (meets : Option Guard → Option Guard → Prop) : Prop where
  writer :
    ∀ (first second : Nat) (one other : Writer),
      session.writers[first]? = some one →
      session.writers[second]? = some other →
      one.isClosed = false →
      other.isClosed = false →
      meets one.guard other.guard →
      one.fileId = other.fileId →
      first = second
  reader :
    ∀ writer ∈ session.writers,
      ∀ reader ∈ session.readers,
        writer.isClosed = false →
        meets writer.guard reader.guard →
        writer.fileId = reader.entry.id →
        reader.isClosed = true

/-- Streams that were opened between the same two clearings exclude each other. -/
theorem Accounted.excludes
    {session : Session}
    (accounted : session.Accounted) :
    session.Excludes fun one other =>
      one.map Guard.generation = other.map Guard.generation := by
  have same {one other : Guard}
      (isId : one.id = other.id)
      (isGeneration : some one.generation = some other.generation) :
      one = other := by
    obtain ⟨id, generation⟩ := one
    cases other
    cases isId
    cases isGeneration
    rfl
  constructor
  case writer =>
    intro first second one other foundFirst foundSecond oneOpen otherOpen meets sameFile
    obtain ⟨guard, held⟩ := Writer.guard_of_open oneOpen
    obtain ⟨otherGuard, otherHeld⟩ := Writer.guard_of_open otherOpen
    obtain ⟨isFile, -⟩ := accounted.writer one (List.mem_of_getElem? foundFirst) guard held
    obtain ⟨otherFile, -⟩ :=
      accounted.writer other (List.mem_of_getElem? foundSecond) otherGuard otherHeld
    rw [held, otherHeld] at meets
    obtain rfl := same (isFile.trans (sameFile.trans otherFile.symm)) meets
    exact index_eq_of_holders (accounted.apart guard).1 foundFirst foundSecond held otherHeld
  case reader =>
    intro writer writerMember reader readerMember writerOpen meets sameFile
    obtain ⟨guard, held⟩ := Writer.guard_of_open writerOpen
    obtain ⟨isFile, -⟩ := accounted.writer writer writerMember guard held
    cases readerHeld : reader.guard with
    | none =>
        simp [Reader.isClosed, readerHeld]
    | some readerGuard =>
        obtain ⟨readerFile, -⟩ := accounted.reader reader readerMember readerGuard readerHeld
        rw [held, readerHeld] at meets
        obtain rfl := same (isFile.trans (sameFile.trans readerFile.symm)) meets
        have noReader := (accounted.apart guard).2 (holders_pos writerMember held)
        exact absurd noReader (holders_pos readerMember readerHeld).ne'

/-- Streams that are not left behind exclude each other. -/
theorem Current.excludes
    {session : Session}
    (current : session.Current)
    (accounted : session.Accounted) :
    session.Excludes fun _ _ => True := by
  have ofWriter {writer : Writer}
      (member : writer ∈ session.writers)
      (open_ : writer.isClosed = false) :
      writer.guard.map Guard.generation = some session.store.locks.generation := by
    obtain ⟨guard, held⟩ := Writer.guard_of_open open_
    rw [held, Option.map_some, current.generation_eq (.inl (holders_pos member held))]
  constructor
  case writer =>
    intro first second one other foundFirst foundSecond oneOpen otherOpen _ sameFile
    refine accounted.excludes.writer first second one other foundFirst foundSecond oneOpen
      otherOpen ?_ sameFile
    rw [ofWriter (List.mem_of_getElem? foundFirst) oneOpen,
      ofWriter (List.mem_of_getElem? foundSecond) otherOpen]
  case reader =>
    intro writer writerMember reader readerMember writerOpen _ sameFile
    cases held : reader.guard with
    | none =>
        simp [Reader.isClosed, held]
    | some guard =>
        refine accounted.excludes.reader writer writerMember reader readerMember writerOpen ?_
          sameFile
        rw [ofWriter writerMember writerOpen, held, Option.map_some,
          current.generation_eq (.inr (holders_pos readerMember held))]

/-- Streams that were opened between the same two clearings of the lock table exclude each
other at any time, and a writer that was closed writes nothing. All streams exclude each
other when no close is forced, so that every close finds the table empty. -/
theorem streams_exclude
    {allowed : Session → Int → Event → Prop}
    {config : Config}
    {timed : Bool}
    {now : Int}
    {session : Session}
    (run : Run allowed (start config timed now) session) :
    session.Excludes
        (fun one other => one.map Guard.generation = other.map Guard.generation) ∧
      (∀ writer ∈ session.writers,
        writer.isClosed = true →
        ∀ (later : Int) (use : WriterUse),
          ((use.run later).runOn writer session.store).2.2 = session.store) ∧
      ((∀ session now, allowed session now .close → session.store.isDrained = true) →
        session.Excludes fun _ _ => True) := by
  have first := Accounted.start config timed now
  have accounted := first.of_run run
  refine ⟨accounted.excludes, ?_, ?_⟩
  · intro writer _ closed later use
    exact (Writer.run_closed closed later use session.store).2
  · intro drained
    have current : (start config timed now).Current := fun _ _ => ⟨rfl, rfl⟩
    exact (current.of_run first drained run).excludes accounted

/-- After a forced close a second writer is let into a file that one was left on. The two
do not exclude each other, because they were opened at different times. -/
theorem streams_exclude_resumed :
    let session :=
      ((((start {} false 0).after 1 (.openWriter "home/a" false)).after 2 .close).after 3
        .resume).after 4 (.openWriter "home/a" true)
    session.Excludes
        (fun one other => one.map Guard.generation = other.map Guard.generation) ∧
      ¬session.Excludes fun _ _ => True := by
  intro session
  have ended :
      ((start {} false 0).after 1 (.openWriter "home/a" false)).store.savepoints.isEmpty = true := by
    decide
  have opened :
      Run (fun _ _ _ => True) (start {} false 0)
        ((start {} false 0).after 1 (.openWriter "home/a" false)) :=
    Run.next .refl _ _ trivial trivial
  have run : Run (fun _ _ _ => True) (start {} false 0) session :=
    ((opened.next 2 .close (List.isEmpty_iff.mp ended) trivial).next 3 .resume trivial
      trivial).next 4 (.openWriter "home/a" true) trivial trivial
  refine ⟨(streams_exclude run).1, fun excludes => ?_⟩
  have bothOpen :
      session.writers.map (fun writer => (writer.isClosed, writer.fileId)) =
        [(false, 5), (false, 5)] := by
    decide +kernel
  obtain ⟨one, rest, isList, isOne, others⟩ := List.map_eq_cons_iff.mp bothOpen
  obtain ⟨other, rest, rfl, isOther, -⟩ := List.map_eq_cons_iff.mp others
  obtain ⟨oneOpen, oneFile⟩ := Prod.mk.inj isOne
  obtain ⟨otherOpen, otherFile⟩ := Prod.mk.inj isOther
  have same := excludes.writer 0 1 one other (by rw [isList]; rfl) (by rw [isList]; rfl)
    oneOpen otherOpen trivial (oneFile.trans otherFile.symm)
  cases same

end Session

end VersionStore
