import VersionStore.Proofs.Content.Placing
import VersionStore.Proofs.Stream.Cursor

namespace VersionStore

/-!
# Stores at rest

A store is at rest while it is open and nothing is under way on it. What is done to it then
changes its tables and its locks only, and it is known exactly when it succeeds.
-/

open VersionStore.Action Tables

namespace Store

/-- A store with other tables and locks. -/
def holding (store : Store) (tables : Tables) (locks : LockTable) : Store :=
  { store with tables, kept := tables, locks }

/-- A file is being written. -/
def Busy (store : Store) (id : Int) : Prop :=
  store.locks.hold? id = some .exclusive

/-- A store is open and nothing is under way on it, and its tables are in order. -/
structure AtRest (strict : Prop) (known : List Entry) (store : Store) : Prop
    extends store.Idle where
  connected : store.connected = true
  staying : store.closing = false
  sound : store.tables.Sound strict known
  filed : store.tables.Filed store.Busy

variable {strict : Prop} {known : List Entry} {store left : Store}

/-- What is left of a store after its outermost scope. -/
theorem Idle.ended_eq
    (idle : store.Idle)
    (connected : store.connected = true)
    {locks : LockTable}
    (alike : Store.Alike { store.entering with locks } left)
    (kept : Bool) :
    left.ended kept store.tables =
      store.holding (if kept then left.tables else store.tables) left.locks := by
  have framed : left.frame = store.entering.frame := alike.frame
  have shape :
      left = { store.entering with
        tables := left.tables
        access := left.access
        locks := left.locks } :=
    calc
      left = { left.frame with
          tables := left.tables
          access := left.access
          locks := left.locks } := rfl
      _ = { store.entering.frame with
          tables := left.tables
          access := left.access
          locks := left.locks } := by rw [framed]
      _ = _ := rfl
  obtain ⟨tables, access, locks, rfl⟩ :
      ∃ tables access locks, left = { store.entering with tables, access, locks } :=
    ⟨_, _, _, shape⟩
  have free : store.entered = false := idle.entered_eq idle.outside
  have isKept := idle.tables_eq_kept idle.outside
  have resting := idle.idle idle.outside
  cases kept with
  | false =>
      refine (ended_false (alike.alone ⟨idle.damage, idle.writable, idle.others⟩) _).trans ?_
      simp [entering, holding, free, connected, ← isKept, idle.outside, resting]
  | true =>
      have isWritten : (if access = .writing then tables else store.kept) = tables := by
        split
        · rfl
        · rename_i unwritten
          rw [← isKept]
          by_contra changed
          exact unwritten (alike.wrote idle.free fun same => changed same.symm)
      simp [Store.ended, settled, entering, holding, free, connected, isWritten, idle.outside, resting]

/-- Tables and locks may be held by a store at rest when they are in order. -/
theorem AtRest.holding
    (atRest : store.AtRest strict known)
    {tables : Tables}
    {locks : LockTable}
    (sane : locks.Sane)
    (sound : tables.Sound strict known)
    (filed : tables.Filed fun id => locks.hold? id = some .exclusive) :
    (store.holding tables locks).AtRest strict known where
  damage := atRest.damage
  writable := atRest.writable
  others := atRest.others
  gate := atRest.gate
  free := atRest.free
  idle := atRest.idle
  sane := sane
  unwritten _ := ⟨rfl, by
    rw [Store.holding, atRest.outside]
    exact fun _ member => absurd member List.not_mem_nil⟩
  outermost saved isLast := by
    rw [Store.holding, atRest.outside] at isLast
    cases isLast
  outside := atRest.outside
  opened := atRest.opened
  connected := atRest.connected
  staying := atRest.staying
  sound := sound
  filed := filed

/-- Nothing changes when a store holds what it held. -/
theorem AtRest.holding_self
    (atRest : store.AtRest strict known) :
    store.holding store.tables store.locks = store := by
  have isKept := atRest.tables_eq_kept atRest.outside
  cases store
  cases isKept
  rfl

/-- Other locks are all that is other about a store at rest. -/
theorem AtRest.withLocks_eq
    (atRest : store.AtRest strict known)
    (locks : LockTable) :
    { store with locks } = store.holding store.tables locks := by
  rw [Store.holding, ← atRest.tables_eq_kept atRest.outside]

/-- What an operation leaves of a store at rest: it succeeds exactly when it is able to. Then it
has its effect on the tables, and none otherwise. -/
structure Done (strict : Prop) (known : List Entry) (store : Store) (able : Prop)
    (post : α → Tables → Prop) (left : Except Fault α × Store) : Prop where
  atRest : left.2.AtRest strict known
  holds : left.2 = store.holding left.2.tables left.2.locks
  locks : store.locks.Same left.2.locks
  done : ∀ value, left.1 = .ok value → able ∧ post value left.2.tables
  undone : ∀ fault, left.1 = .error fault → ¬able ∧ left.2.tables = store.tables

/-- A change of a store at rest that keeps its tables in order, and minds that some files are
open. -/
theorem AtRest.writes_minding
    (atRest : store.AtRest strict known)
    {held : Int → Prop}
    (isHeld : ∀ id, held id → store.locks.hold? id ≠ none)
    {action : Action α}
    {able : Prop}
    {post : α → Tables → Prop}
    (decides :
      Decides (store.setting store.Busy held) store.locks.gives (· = store.tables) action able post)
    (sound : ∀ value tables, post value tables → tables.Sound strict known)
    (carrying :
      Txn.Carrying (store.setting store.Busy held) store.tables (fun _ => False) action) :
    Done strict known store able post ((writing action).runOn store) := by
  have idle := atRest.toIdle
  have inScope : store.entering.InScope (store.setting store.Busy held) :=
    (idle.entering idle.outside).inScope (List.cons_ne_nil _ _)
      ⟨rfl, fun _ busy => busy, isHeld⟩
  have knows := decides.knowing carrying <| by
    rintro _ rfl
    exact .refl atRest.filed.toNumbered
  obtain ⟨alike, ended⟩ := knows store.entering inScope rfl rfl
  have savepoints : (action.runOn store.entering).2.savepoints = [store.tables] := by
    rw [alike.savepoints]
    exact congrArg (store.tables :: ·) idle.outside
  have free : store.entered = false := idle.entered_eq idle.outside
  have ran :
      (writing action).runOn store =
        ((action.runOn store.entering).1,
          store.holding
            (if (action.runOn store.entering).1.isOk then (action.runOn store.entering).2.tables
              else store.tables)
            (action.runOn store.entering).2.locks) := by
    rw [← idle.ended_eq atRest.connected alike, runOn_writing, if_neg (by simp [atRest.staying]),
      runOn_streaming idle.toSteady fun _ => ⟨alike.alone inScope.toAlone, savepoints⟩,
      if_neg (by simp [free]), if_neg (by simp [idle.opened])]
  have busy : (fun id => (action.runOn store.entering).2.locks.hold? id = some .exclusive) =
      store.Busy := by
    funext id
    rw [alike.locks.hold? id]
    rfl
  rw [ran]
  rcases isRun : action.runOn store.entering with ⟨outcome, left⟩
  rw [isRun] at ended alike busy
  have sane := alike.locks.sane atRest.sane
  cases outcome with
  | ok value =>
      obtain ⟨isAble, after, carries⟩ := ended
      refine ⟨atRest.holding sane (sound value _ after) ?_, rfl, alike.locks, ?_, nofun⟩
      · rw [busy]
        exact carries.filed atRest.filed
      · rintro _ ⟨rfl⟩
        exact ⟨isAble, after⟩
  | error fault =>
      refine ⟨atRest.holding sane atRest.sound ?_, rfl, alike.locks, nofun, fun _ _ => ⟨ended, rfl⟩⟩
      rw [busy]
      exact atRest.filed

/-- A change of a store at rest that keeps its tables in order. -/
theorem AtRest.writes
    (atRest : store.AtRest strict known)
    {action : Action α}
    {able : Prop}
    {post : α → Tables → Prop}
    (decides :
      Decides (store.setting store.Busy) store.locks.gives (· = store.tables) action able post)
    (sound : ∀ value tables, post value tables → tables.Sound strict known)
    (carrying : Txn.Carrying (store.setting store.Busy) store.tables (fun _ => False) action) :
    Done strict known store able post ((writing action).runOn store) :=
  atRest.writes_minding (fun _ absurd => absurd.elim) decides sound carrying

namespace Done

variable
  {able able' : Prop}
  {post : α → Tables → Prop}
  {result : Except Fault α × Store}

/-- The same condition may be put in other words. -/
theorem exactly
    (does : Done strict known store able post result)
    (same : able ↔ able') :
    Done strict known store able' post result := by
  rwa [← propext same]

/-- Less may be promised. -/
theorem promising
    {post' : α → Tables → Prop}
    (does : Done strict known store able post result)
    (weaker : ∀ value tables, post value tables → post' value tables) :
    Done strict known store able post' result :=
  ⟨does.atRest, does.holds, does.locks,
    fun value isValue => ⟨(does.done value isValue).1, weaker _ _ (does.done value isValue).2⟩,
    does.undone⟩

end Done

/-! ## What can be done to it -/

variable {path source : CleanPath} {text : String} {entry : Entry}

/-- A store at rest is connected behind the gate. -/
theorem AtRest.connected_eq
    (atRest : store.AtRest strict known) :
    ({ store with entered := true, connected := true } : Store) = { store with entered := true } := by
  have connected := atRest.connected
  cases store
  cases connected
  rfl

/-- Asking inside the gate leaves a store at rest. -/
theorem AtRest.runOn_reading
    (atRest : store.AtRest strict known)
    {action : Action α}
    {outcome : Except Fault α}
    {locks : LockTable}
    (ran :
      action.runOn { store with entered := true } = (outcome, { store with entered := true, locks })) :
    (reading action).runOn store = (outcome, { store with locks }) := by
  have free : store.entered = false := atRest.entered_eq atRest.outside
  rw [VersionStore.Action.runOn_reading atRest.toIdle, atRest.connected_eq, ran]
  cases store
  cases free
  rfl

/-- Looking up the entry at a path leaves a store at rest. -/
theorem AtRest.stat
    (atRest : store.AtRest strict known)
    (isPath : CleanPath.ofText text = .ok path) :
    (Store.stat text).runOn store = (.ok (store.tables.lookupAt? path), store) := by
  rw [Store.stat, runOn_bind, Txn.clean, runOn_ofExcept, isPath]
  dsimp only
  have alone : ({ store with entered := true } : Store).Alone :=
    ⟨atRest.damage, atRest.writable, atRest.others⟩
  refine atRest.runOn_reading ?_
  rw [Txn.entryAt?, runOn_query alone]
  simp [noting, atRest.outside, Tables.lookupAt?]

/-- A file that may be locked is stored, be it live or in the trash. -/
theorem AtRest.stored_of_mem
    (atRest : store.AtRest strict known)
    (member : entry ∈ store.tables.entries)
    {exclusive : Bool}
    (given : store.locks.gives entry.id exclusive = true) :
    store.tables.Stored entry := by
  obtain ⟨⟨guard, locks⟩, isGiven⟩ := Option.isSome_iff_exists.mp given
  exact atRest.filed.stored entry member (LockTable.hold?_ne_exclusive_of_lock? isGiven)

/-- The file at a path is stored if it may be locked. -/
theorem AtRest.stored
    (atRest : store.AtRest strict known)
    (here : store.tables.FileAt path entry)
    {exclusive : Bool}
    (given : store.locks.gives entry.id exclusive = true) :
    store.tables.Stored entry :=
  atRest.stored_of_mem (atRest.sound.coherent.lookupAt?_eq_some_iff.mp here.found).member given

/-- The file at a path is deleted exactly when no one has it open. -/
theorem AtRest.delete
    (atRest : store.AtRest strict known)
    (now : Int)
    (isPath : CleanPath.ofText text = .ok path)
    (here : store.tables.FileAt path entry) :
    Done strict known store (store.locks.gives entry.id true = true)
      (fun gone tables => gone = true ∧ Txn.Without strict known store.tables path tables)
      ((Store.delete now text).runOn store) :=
  atRest.writes (Txn.delete_decides now isPath atRest.sound here) (fun _ _ after => after.2.sound)
    (Txn.delete_endures (Txn.endures_carries _ _).toEnduresRemoving now text
      fun _ _ _ => id).loosely

/-- A source that does not fail is written to a path exactly where a file is accepted. -/
theorem AtRest.writeFrom
    (atRest : store.AtRest strict known)
    (now : Int)
    (isPath : CleanPath.ofText text = .ok path)
    (bytes : Source)
    (ends : bytes.failure? = none)
    (links? : Option (List String))
    (time? : Option Int) :
    Done strict known store (store.tables.Accepts store.locks.gives path)
      (Txn.Put strict known store.tables.sights path (.ofBytes (time?.getD now) bytes.bytes))
      ((Store.writeFrom now text bytes links? time?).runOn store) :=
  atRest.writes
    (Txn.writeFrom_decides now isPath bytes ends links? time? atRest.sound atRest.filed.toNumbered)
    (fun _ _ put => put.sound)
    (Txn.carrying_writeFrom atRest.filed.toNumbered now text bytes links? time?)

/-- The file at a path is copied to another one exactly when it can be. -/
theorem AtRest.copy
    (atRest : store.AtRest strict known)
    (now : Int)
    {sourceText : String}
    (isSource : CleanPath.ofText sourceText = .ok source)
    (isTarget : CleanPath.ofText text = .ok path)
    (time? : Option Int)
    (here : store.tables.FileAt source entry) :
    Done strict known store (Txn.Copies store.locks.gives store.tables entry path)
      (Txn.Put strict known store.tables.sights path
        ((store.tables.versionOf entry).copied (time?.getD now)))
      ((Store.copy now text sourceText time?).runOn store) :=
  atRest.writes
    (Txn.copy_decides now isSource isTarget time? atRest.sound atRest.filed.toNumbered here
      (atRest.stored here))
    (fun _ _ put => put.sound) (Txn.carrying_copy atRest.filed now text sourceText time?)

/-- The file at a path is moved to another one exactly when it can be. -/
theorem AtRest.moveTo
    (atRest : store.AtRest strict known)
    (now : Int)
    {sourceText : String}
    (isSource : CleanPath.ofText sourceText = .ok source)
    (isTarget : CleanPath.ofText text = .ok path)
    (time? : Option Int)
    (here : store.tables.FileAt source entry) :
    Done strict known store (Txn.Moves store.locks.gives store.tables entry path)
      (Txn.Put strict known (store.tables.sights.set source none) path
        ((store.tables.versionOf entry).moved (time?.getD now)))
      ((Store.moveTo now text sourceText time?).runOn store) :=
  atRest.writes
    (Txn.moveTo_decides now isSource isTarget time? atRest.sound atRest.filed.toNumbered here)
    (fun _ _ put => put.sound)
    (Txn.moveTo_endures (Txn.endures_carries _ _) now text sourceText time?).loosely

/-- Where there is nothing there is nothing to copy. -/
theorem AtRest.copy_missing
    (atRest : store.AtRest strict known)
    (now : Int)
    {sourceText : String}
    (isSource : CleanPath.ofText sourceText = .ok source)
    (text : String)
    (time? : Option Int)
    (missing : store.tables.lookupAt? source = none) :
    Done strict known store False (fun _ _ => False)
      ((Store.copy now text sourceText time?).runOn store) :=
  atRest.writes (.never (Txn.copy_missing now isSource text time? missing))
    (fun _ _ absurd => absurd.elim) (Txn.carrying_copy atRest.filed now text sourceText time?)

/-- Where there is nothing there is nothing to move. -/
theorem AtRest.moveTo_missing
    (atRest : store.AtRest strict known)
    (now : Int)
    {sourceText : String}
    (isSource : CleanPath.ofText sourceText = .ok source)
    (text : String)
    (time? : Option Int)
    (missing : store.tables.lookupAt? source = none) :
    Done strict known store False (fun _ _ => False)
      ((Store.moveTo now text sourceText time?).runOn store) :=
  atRest.writes (.never (Txn.moveTo_missing now isSource text time? missing))
    (fun _ _ absurd => absurd.elim)
    (Txn.moveTo_endures (Txn.endures_carries _ _) now text sourceText time?).loosely

/-! ## What can be brought to a path that was cleared -/

section Cleared

variable {before : Tables} (without : Txn.Without strict known before path store.tables)

include without

/-- Nothing is at a path that was cleared. -/
theorem lookupAt?_of_cleared :
    store.tables.lookupAt? path = none := by
  have nothing : store.tables.sights path = none := by
    rw [without.seen, Sights.set_self]
  exact Option.map_eq_none_iff.mp nothing

/-- A file is accepted at a path that was cleared when no file is in the way to it. -/
theorem accepts_of_cleared
    (proper : ¬path.isRoot = true) :
    store.tables.Accepts store.locks.gives path ↔ before.sights.Leads path.dropLast := by
  have vacant := lookupAt?_of_cleared without
  have leads := @Sights.leads_set_iff before.sights path none proper
  rw [← without.seen] at leads
  refine ⟨fun accepts => leads.mp accepts.leads, fun isLed => ⟨proper, ?_, leads.mpr isLed⟩⟩
  intro entry found
  rw [vacant] at found
  cases found

/-- A file is copied to a path that was cleared, unless it was there itself. -/
theorem AtRest.copy_cleared
    (atRest : store.AtRest strict known)
    (now : Int)
    {sourceText : String}
    (isSource : CleanPath.ofText sourceText = .ok source)
    (isTarget : CleanPath.ofText text = .ok path)
    (proper : ¬path.isRoot = true)
    (time? : Option Int)
    (here : before.FileAt source entry) :
    Done strict known store
      (store.locks.gives entry.id false = true ∧ source ≠ path ∧
        before.sights.Leads path.dropLast)
      (fun _ tables =>
        tables.sights = before.sights.put path ((before.versionOf entry).copied (time?.getD now)))
      ((Store.copy now text sourceText time?).runOn store) := by
  have vacant := lookupAt?_of_cleared without
  by_cases same : source = path
  · exact ((atRest.copy_missing now isSource text time? (same ▸ vacant)).exactly
      ⟨False.elim, fun able => able.2.1 same⟩).promising fun _ _ absurd => absurd.elim
  obtain ⟨still, version⟩ := without.stays source entry same here
  refine ((atRest.copy now isSource isTarget time? still).exactly ?_).promising ?_
  · refine ⟨fun copies => ⟨copies.given, same, ?_⟩, fun able => ⟨able.1, ?_, ?_⟩⟩
    · exact (accepts_of_cleared without proper).mp copies.accepts
    · exact fun existing found => absurd (vacant.symm.trans found) (Option.some_ne_none existing).symm
    · exact (accepts_of_cleared without proper).mpr able.2.2
  · intro result tables put
    rw [put.seen, without.seen, version]
    exact Sights.put_set _

/-- A file is moved to a path that was cleared, unless it was there itself. -/
theorem AtRest.moveTo_cleared
    (atRest : store.AtRest strict known)
    (now : Int)
    {sourceText : String}
    (isSource : CleanPath.ofText sourceText = .ok source)
    (isTarget : CleanPath.ofText text = .ok path)
    (proper : ¬path.isRoot = true)
    (time? : Option Int)
    (here : before.FileAt source entry) :
    Done strict known store
      (store.locks.gives entry.id true = true ∧ source ≠ path ∧ before.sights.Leads path.dropLast)
      (fun _ tables =>
        tables.sights =
          (before.sights.set source none).put path
            ((before.versionOf entry).moved (time?.getD now)))
      ((Store.moveTo now text sourceText time?).runOn store) := by
  have vacant := lookupAt?_of_cleared without
  by_cases same : source = path
  · exact ((atRest.moveTo_missing now isSource text time? (same ▸ vacant)).exactly
      ⟨False.elim, fun able => able.2.1 same⟩).promising fun _ _ absurd => absurd.elim
  obtain ⟨still, version⟩ := without.stays source entry same here
  have leads := @Sights.leads_set_iff before.sights path none proper
  rw [← without.seen] at leads
  refine ((atRest.moveTo now isSource isTarget time? still).exactly ?_).promising ?_
  · exact ⟨fun moves => ⟨moves.given, same, leads.mp moves.leads⟩,
      fun able => ⟨able.1, proper, vacant, leads.mpr able.2.2⟩⟩
  · intro result tables put
    rw [put.seen, without.seen, version, Sights.set_comm same]
    exact Sights.put_set _

/-- A source that does not fail is written to a path that was cleared. -/
theorem AtRest.writeFrom_cleared
    (atRest : store.AtRest strict known)
    (now : Int)
    (isTarget : CleanPath.ofText text = .ok path)
    (proper : ¬path.isRoot = true)
    (bytes : Source)
    (ends : bytes.failure? = none)
    (links? : Option (List String))
    (time? : Option Int) :
    Done strict known store (before.sights.Leads path.dropLast)
      (fun _ tables =>
        tables.sights = before.sights.put path (.ofBytes (time?.getD now) bytes.bytes))
      ((Store.writeFrom now text bytes links? time?).runOn store) := by
  refine ((atRest.writeFrom now isTarget bytes ends links? time?).exactly
    (accepts_of_cleared without proper)).promising fun result tables put => ?_
  rw [put.seen, without.seen]
  exact Sights.put_set _

end Cleared

/-! ## Reading its files -/

/-- A lock for reading leaves a store at rest. -/
theorem AtRest.lent
    (atRest : store.AtRest strict known)
    {id : Int}
    {guard : Guard}
    {locks : LockTable}
    (given : store.locks.lock? id false = some (guard, locks)) :
    (store.holding store.tables locks).AtRest strict known := by
  have busy : (fun other => locks.hold? other = some .exclusive) = store.Busy := by
    have notBefore := LockTable.hold?_ne_exclusive_of_lock? given
    obtain ⟨-, -, hold, next, rfl⟩ := LockTable.lock?_eq_some_iff.mp given
    funext other
    rw [LockTable.hold?_put, Store.Busy]
    split
    · rename_i same
      have shared : hold ≠ .exclusive := by
        rintro rfl
        unfold LockTable.nextHold? at next
        split at next <;> cases next
      simp [same, notBefore, shared]
    · rfl
  refine atRest.holding (atRest.sane.lock? given) atRest.sound ?_
  rw [busy]
  exact atRest.filed

/-- A store at rest has the parts of its files. -/
theorem AtRest.offers
    (atRest : store.AtRest strict known)
    (stored : store.tables.Stored entry) :
    store.Offers entry.id (store.tables.pieces entry.id) :=
  ⟨atRest.toIdle, partsOf_eq_pieces stored.laid,
    atRest.filed.parts.imp fun less => Int.ne_of_lt less⟩

/-- A file that is there is found inside the gate. -/
theorem AtRest.runOn_requireFile
    (atRest : store.AtRest strict known)
    (here : store.tables.FileAt path entry) :
    (Txn.requireFile path).runOn { store with entered := true } =
      (.ok entry, { store with entered := true }) := by
  have found := atRest.toIdle.runOn_requireFile here.found here.isFile
  rwa [atRest.connected_eq] at found

/-- What a reader that was just opened leaves of a store at rest. -/
theorem AtRest.opened_eq
    (atRest : store.AtRest strict known)
    (locks : LockTable) :
    ({ store with entered := false, connected := true, locks } : Store) =
      store.holding store.tables locks := by
  have free : store.entered = false := atRest.entered_eq atRest.outside
  rw [← atRest.withLocks_eq, ← free, ← atRest.connected]

/-- A reader is opened on a file that no one writes to. It holds a lock, and is ready to read the
file from its beginning. -/
theorem AtRest.openPath
    (atRest : store.AtRest strict known)
    (isPath : CleanPath.ofText text = .ok path)
    (here : store.tables.FileAt path entry)
    {guard : Guard}
    {locks : LockTable}
    (given : store.locks.lock? entry.id false = some (guard, locks)) :
    ∃ reader,
      (Reader.openPath text).runOn store = (.ok reader, store.holding store.tables locks) ∧
        reader.guard = some guard ∧
          reader.Ready entry.id (store.tables.pieces entry.id) 0
            (store.holding store.tables locks) := by
  have lends : store.locks.gives entry.id false = true := by
    rw [LockTable.gives, given]
    rfl
  have stored := atRest.stored here lends
  obtain ⟨reader, ran, held, ready⟩ :=
    (atRest.offers stored).openPath stored.laid.contiguous isPath here.found here.isFile given
  rw [atRest.opened_eq] at ran
  exact ⟨reader, ran, held, { ready with offers := (atRest.lent given).offers stored }⟩

/-- A reader is opened on a file by its id as it is opened at a path. -/
theorem AtRest.openEntry
    (atRest : store.AtRest strict known)
    (stored : store.tables.Stored entry)
    {info : Entry}
    (isFile : info.isDirectory = false)
    (found : store.tables.entry? info.id = some entry)
    {guard : Guard}
    {locks : LockTable}
    (given : store.locks.lock? entry.id false = some (guard, locks)) :
    ∃ reader,
      (Reader.openEntry info).runOn store = (.ok reader, store.holding store.tables locks) ∧
        reader.guard = some guard ∧
          reader.Ready entry.id (store.tables.pieces entry.id) 0
            (store.holding store.tables locks) := by
  obtain ⟨reader, ran, held, ready⟩ :=
    (atRest.offers stored).openEntry stored.laid.contiguous isFile found given
  rw [atRest.opened_eq] at ran
  exact ⟨reader, ran, held, { ready with offers := (atRest.lent given).offers stored }⟩

/-- No reader is opened on a directory, nor by an id that nothing has. -/
theorem AtRest.openEntry_refused
    (atRest : store.AtRest strict known)
    {info : Entry}
    (missing : info.isDirectory = false → store.tables.entry? info.id = none) :
    ∃ fault, (Reader.openEntry info).runOn store = (.error fault, store) := by
  unfold Reader.openEntry
  simp only [throw_bind]
  cases isDirectory : info.isDirectory with
  | true =>
      exact ⟨_, rfl⟩
  | false =>
      refine ⟨.notFound info.name, atRest.runOn_reading ?_⟩
      have alone : ({ store with entered := true } : Store).Alone :=
        ⟨atRest.damage, atRest.writable, atRest.others⟩
      rw [runOn_bind, runOn_query alone, noting_of_outside { store with entered := true } atRest.outside]
      dsimp only
      rw [missing isDirectory]
      rfl

/-- No reader is opened on a file that someone writes to. -/
theorem AtRest.openPath_refused
    (atRest : store.AtRest strict known)
    (isPath : CleanPath.ofText text = .ok path)
    (here : store.tables.FileAt path entry)
    (refused : store.locks.lock? entry.id false = none) :
    ∃ fault, (Reader.openPath text).runOn store = (.error fault, store) := by
  refine ⟨.inUse entry.name, ?_⟩
  rw [Reader.openPath, runOn_bind, Txn.clean, runOn_ofExcept, isPath]
  dsimp only
  refine atRest.runOn_reading ?_
  rw [runOn_bind, atRest.runOn_requireFile here]
  dsimp only
  rw [Reader.ofEntry, runOn_bind, lock, runOn_lockId, refused]

/-- A reader at the beginning of a file is a source of its bytes that does not fail. It keeps its
lock, and leaves the store. -/
theorem AtRest.toSource
    (atRest : store.AtRest strict known)
    {reader : Reader}
    {file : Int}
    {parts : List Part}
    (ready : reader.Ready file parts 0 store)
    (contiguous : Contiguous 0 parts) :
    ∃ source after,
      Reader.toSource.runOn reader store = (.ok source, after, store) ∧
        source.bytes = bytesOf parts ∧ source.failure? = none ∧ after.guard = reader.guard := by
  obtain ⟨source, after, left, ran, ⟨bytes, ends⟩, -⟩ :=
    Reader.toSource_yields contiguous reader store ready
  have looks : Reader.Looks Reader.toSource :=
    .bind .current fun _ => .bind (Reader.looks_deliver _) fun _ => .pure _
  have stays := looks reader store atRest.toSteady reader store (.refl reader store)
  rw [ran] at stays
  obtain ⟨connected, still, same⟩ := stays.connected
  have isStore : left = store := by
    refine same.trans ?_
    rw [still atRest.connected, ← atRest.connected]
  refine ⟨source, after, ?_, bytes, ends, congrArg Prod.fst stays.fixed⟩
  rw [ran, isStore]

/-- A reader that is closed gives its lock back. -/
theorem AtRest.finish
    (atRest : store.AtRest strict known)
    {reader : Reader}
    {guard : Guard}
    (held : reader.guard = some guard) :
    Reader.finish.runOn reader store =
      (.ok ⟨⟩, { reader with watchdog := none, guard := none },
        store.holding store.tables (store.locks.release guard)) := by
  rw [← atRest.withLocks_eq, Reader.finish, StreamAction.runOn_bind, StreamAction.runOn_change]
  dsimp only
  rw [Reader.close, StreamAction.runOn_bind, StreamAction.runOn_current]
  dsimp only
  rw [held]
  rfl

end Store

end VersionStore
