import VersionStore.Proofs.Host.Turning
import VersionStore.Proofs.Host.Handles

namespace VersionStore

/-!
# Asking without a change in between

A host presents tables under a store's number as long as work on the store finds it open and idle
with these tables. A question is answered from them and leaves them presented, so that any number
of questions after each other is answered as if they were put at once. The first of them may
have to connect the store with its database, and this changes nothing that is presented.
-/

open VersionStore.Action Tables

namespace Host

/-- Work on the store of a number finds it open and idle, with some tables. -/
structure Presents (host : Host) (id : StoreId) (tables : Tables) : Prop where
  there : id < host.stores.size
  idle : (host.found id).Idle
  tables_eq : (host.found id).tables = tables

variable
  {host : Host}
  {id : StoreId}
  {tables : Tables}
  {left : Store}

/-! ## Finding a store again -/

/-- An idle store does nothing that would be in anyone's way. -/
theorem foldl_access_set
    (keeps : Store × Nat → Bool)
    (stores : List Store)
    (start index : Nat)
    (store : Store)
    (most : Access)
    (before : ∀ old, stores[index]? = some old → old.access = .idle)
    (after : store.access = .idle) :
    (((stores.set index store).zipIdx start).filter keeps).foldl
        (fun most (pair : Store × Nat) => most.max pair.1.access) most =
      ((stores.zipIdx start).filter keeps).foldl
        (fun most (pair : Store × Nat) => most.max pair.1.access) most := by
  have passes (most : Access) : most.max .idle = most := by
    cases most <;> rfl
  induction stores generalizing start index most with
  | nil =>
      rfl
  | cons first rest inductionHypothesis =>
      cases index with
      | zero =>
          have isIdle : first.access = .idle := before first rfl
          simp only [List.set_cons_zero, List.zipIdx_cons, List.filter_cons]
          split <;> split <;> simp [after, isIdle, passes]
      | succ index =>
          have beforeRest : ∀ old, rest[index]? = some old → old.access = .idle :=
            fun old found => before old (by simpa using found)
          simp only [List.set_cons_succ, List.zipIdx_cons, List.filter_cons]
          split
          · rw [List.foldl_cons, List.foldl_cons, inductionHypothesis _ _ _ beforeRest]
          · exact inductionHypothesis _ _ _ beforeRest

/-- What is done with a file stays when an idle store is left idle. -/
theorem accessTo_keep_of_idle
    (before : (host.store id).access = .idle)
    (after : left.access = .idle)
    (name : String)
    (except? : Option StoreId) :
    (host.keep id left).accessTo name except? = host.accessTo name except? := by
  obtain ⟨files, kept⟩ := host.keep_eq id left
  rw [kept, accessTo, accessTo, Array.toList_setIfInBounds]
  refine foldl_access_set _ _ _ _ _ _ (fun old found => ?_) after
  have isOld : host.store id = old := by
    rw [store, Array.getD_eq_getD_getElem?, ← Array.getElem?_toList, found]
    rfl
  rw [← isOld, before]

/-- What a store is opened on depends on the files and on what is done with them. -/
theorem opening_congr
    {other : Host}
    (files : other.files = host.files)
    (access : ∀ name except?, other.accessTo name except? = host.accessTo name except?)
    (config : Config)
    (discard : Bool)
    (now : Int) :
    other.opening config discard now = host.opening config discard now := by
  unfold opening requireReadable databaseFile?
  simp only [files, access]

/-- A look at its file leaves what a store does with it, and whether it is connected. -/
theorem found_same
    (host : Host)
    (id : StoreId) :
    (host.found id).config = (host.store id).config ∧
      (host.found id).connected = (host.store id).connected ∧
      (host.found id).access = (host.store id).access := by
  rw [found, attach, upToDate]
  dsimp only
  split
  · split
    · unfold refresh
      split <;> exact ⟨rfl, rfl, rfl⟩
    · exact ⟨rfl, rfl, rfl⟩
  · split <;> exact ⟨rfl, rfl, rfl⟩

/-- A store is found again if its file makes it what it is and no one else is at that file. -/
theorem found_keep_eq
    (there : id < host.stores.size)
    (upToDate : (host.keep id left).upToDate left = left)
    (others : left.others = .idle)
    (unhindered : ∀ name, left.file = some name → host.accessTo name (some id) = .idle) :
    (host.keep id left).found id = left := by
  have stays :
      (left.file.map fun name => (host.keep id left).accessTo name (some id)).getD .idle =
        left.others := by
    rw [others]
    cases isFile : left.file with
    | none =>
        rfl
    | some name =>
        rw [Option.map_some, Option.getD_some, accessTo_keep_self, unhindered name isFile]
  rw [found, store_keep_self, if_pos there, attach, upToDate, stays]

/-- No other store does anything with the file of a store that is not hindered by others. -/
theorem accessTo_eq_idle_of_found
    (others : (host.found id).others = .idle)
    {name : String}
    (isFile : (host.found id).file = some name) :
    host.accessTo name (some id) = .idle := by
  rw [found, attach] at others isFile
  dsimp only at others isFile
  rwa [isFile] at others

end Host

/-- A connected store that its file has nothing new for: it has no file, or no scope is open. -/
structure Store.Lasting (store : Store) : Prop extends store.Steady where
  connected : store.connected = true
  outside : store.file ≠ none → store.savepoints = []

namespace Host

variable
  {host : Host}
  {id : StoreId}
  {tables : Tables}
  {left : Store}

/-- A file that holds what a steady store keeps has nothing new for it outside of scopes. -/
theorem refresh_of_outside
    (steady : left.Steady)
    (outside : left.savepoints = []) :
    refresh left (.database left.tables) = left := by
  have isKept := steady.tables_eq_kept outside
  have access := steady.idle outside
  have damage := steady.damage
  clear steady
  cases left
  cases isKept
  cases access
  cases damage
  cases outside
  rfl

/-- A store that is left with nothing new in its file is found as it was left. -/
theorem found_keep_of_lasting
    (there : id < host.stores.size)
    (others : (host.found id).others = .idle)
    (lasting : left.Lasting)
    (sameFile : left.file = (host.found id).file) :
    (host.keep id left).found id = left := by
  refine found_keep_eq there ?_ lasting.others fun name isFile =>
    accessTo_eq_idle_of_found others (sameFile ▸ isFile)
  rw [upToDate, if_pos lasting.connected]
  cases isFile : left.file with
  | none =>
      rfl
  | some name =>
      have outside : left.savepoints = [] := lasting.outside (by simp [isFile])
      have isKept := lasting.tables_eq_kept outside
      have lookup : (host.keep id left).files.lookup name = some (.database left.tables) := by
        simp [keep, save, isFile, lasting.connected, lasting.damage, Folder.put, isKept]
      rw [Option.bind_some, lookup]
      exact refresh_of_outside lasting.toSteady outside

namespace Presents

variable (presents : host.Presents id tables)

include presents

/-- A store that is left idle and connected on its file is found as it was left. -/
theorem found_keep
    (idle : left.Idle)
    (connected : left.connected = true)
    (sameFile : left.file = (host.found id).file) :
    (host.keep id left).found id = left :=
  found_keep_of_lasting presents.there presents.idle.others
    { idle with connected, outside := fun _ => idle.outside } sameFile

/-- A store is found as it was when nothing was done to it, also if it waits to be connected. -/
theorem found_keep_found :
    (host.keep id (host.found id)).found id = host.found id := by
  cases connected : (host.found id).connected with
  | true =>
      exact presents.found_keep presents.idle connected rfl
  | false =>
      obtain ⟨config, sameConnected, sameAccess⟩ := host.found_same id
      have unconnected : (host.store id).connected = false := sameConnected.symm.trans connected
      have access : (host.found id).access = .idle := presents.idle.idle presents.idle.outside
      have files : (host.keep id (host.found id)).files = host.files := by
        simp [keep, save, connected]
      have clock : (host.keep id (host.found id)).clock = host.clock := by
        simp [keep, save, connected]
      -- What the store was opened on it is opened on again, since no one does more with the file.
      have again := opening_congr files fun name except? =>
        accessTo_keep_of_idle (sameAccess.symm.trans access) access name except?
      refine found_keep_eq presents.there ?_ presents.idle.others fun name isFile =>
        accessTo_eq_idle_of_found presents.idle.others isFile
      rw [upToDate, connected, if_neg Bool.false_ne_true, again, clock, config]
      rw [found, attach, upToDate, unconnected, if_neg Bool.false_ne_true]
      cases host.opening (host.store id).config false host.clock <;> rfl

/-- Tables stay presented when the store is left idle and connected with them. -/
theorem keep
    (idle : left.Idle)
    (connected : left.connected = true)
    (sameFile : left.file = (host.found id).file)
    (same : left.tables = tables) :
    (host.keep id left).Presents id tables := by
  have found := presents.found_keep idle connected sameFile
  refine ⟨?_, found.symm ▸ idle, found.symm ▸ same⟩
  obtain ⟨files, kept⟩ := host.keep_eq id left
  rw [kept, Array.size_setIfInBounds]
  exact presents.there

/-- Tables stay presented when nothing is done to the store. -/
theorem keep_found :
    (host.keep id (host.found id)).Presents id tables := by
  have found := presents.found_keep_found
  refine ⟨?_, found.symm ▸ presents.idle, found.symm ▸ presents.tables_eq⟩
  obtain ⟨files, kept⟩ := host.keep_eq id (host.found id)
  rw [kept, Array.size_setIfInBounds]
  exact presents.there

/-- A question that is put inside the gate is answered, and the tables stay. -/
theorem runOn_reading
    {action : Action α}
    {value : α}
    (answers :
      ∀ store : Store,
        store.Alone →
        store.savepoints = [] →
        store.tables = tables →
        action.runOn store = (.ok value, store)) :
    ∃ left : Store,
      (Action.reading action).runOn (host.found id) = (.ok value, left) ∧
        left.tables = tables ∧ (host.keep id left).Presents id tables := by
  have idle := presents.idle
  let inside : Store := { host.found id with entered := true, connected := true }
  let left : Store := { host.found id with entered := false, connected := true }
  have answered : action.runOn inside = (.ok value, inside) :=
    answers inside ⟨idle.damage, idle.writable, idle.others⟩ idle.outside presents.tables_eq
  have ran : (Action.reading action).runOn (host.found id) = (.ok value, left) := by
    rw [Action.runOn_reading idle, answered]
  have idleAfter : left.Idle :=
    { idle with gate := by rw [idle.outside]; rfl }
  exact ⟨left, ran, presents.tables_eq, presents.keep idleAfter rfl rfl presents.tables_eq⟩

end Presents

end Host

namespace HostAction

variable
  {id : StoreId}
  {tables : Tables}
  {value : α}

/-- What an action gives wherever tables are presented. They are presented after it. -/
def Tells (id : StoreId) (tables : Tables) (action : HostAction α) (value : α) : Prop :=
  ∀ host : Host,
    host.Presents id tables →
    ∃ left, action.runOn host = (.ok value, left) ∧ left.Presents id tables

namespace Tells

/-- A value alone. -/
theorem pure
    (value : α) :
    Tells id tables (Pure.pure value) value :=
  fun host presents => ⟨host, rfl, presents⟩

/-- A value that was computed. -/
theorem ofExcept
    {outcome : Except Fault α}
    (isOk : outcome = .ok value) :
    Tells id tables (liftM outcome : HostAction α) value := by
  subst isOk
  exact pure value

/-- One action and what follows it. -/
theorem bind
    {action : HostAction α}
    {next : α → HostAction β}
    {final : β}
    (first : Tells id tables action value)
    (second : Tells id tables (next value) final) :
    Tells id tables (action >>= next) final := by
  intro host presents
  obtain ⟨middle, ran, presentsMiddle⟩ := first host presents
  rw [runOn_bind, ran]
  exact second middle presentsMiddle

/-- A failure that would be handed over as a value. -/
theorem attempt
    {action : HostAction α}
    (tells : Tells id tables action value) :
    Tells id tables (HostAction.attempt action) (.ok value) := by
  intro host presents
  obtain ⟨left, ran, presentsLeft⟩ := tells host presents
  refine ⟨left, ?_, presentsLeft⟩
  change ((.ok (action.runOn host).1 : Except Fault (Except Fault α)), (action.runOn host).2) = _
  rw [ran]

/-- Something is learned from the tables without access to the database. -/
theorem peek
    (question : Tables → α) :
    Tells id tables (HostAction.on id (Action.peek question)) (question tables) := by
  intro host presents
  refine ⟨host.keep id (host.found id), ?_, presents.keep_found⟩
  rw [← presents.tables_eq]
  rfl

/-- A question is put inside the gate. -/
theorem reading
    {action : Action α}
    (answers :
      ∀ store : Store,
        store.Alone →
        store.savepoints = [] →
        store.tables = tables →
        action.runOn store = (.ok value, store)) :
    Tells id tables (HostAction.on id (Action.reading action)) value := by
  intro host presents
  obtain ⟨left, ran, -, presentsLeft⟩ := presents.runOn_reading answers
  refine ⟨host.keep id left, ?_, presentsLeft⟩
  change
    (((Action.reading action).runOn (host.found id)).1,
      host.keep id ((Action.reading action).runOn (host.found id)).2) = _
  rw [ran]

end Tells

end HostAction

namespace FileHandle

variable {tables : Tables} {entry : Entry}

/-- The path of a handle needs no cleaning. -/
theorem clean_bind
    (file : FileHandle)
    (next : CleanPath → Action α) :
    (Txn.clean file.text >>= next) = next file.path := by
  rw [Txn.clean, file.isPath_text]
  rfl

/-- A handle is told what is at its path. -/
theorem stat_tells
    (file : FileHandle)
    (tables : Tables) :
    HostAction.Tells file.root.store tables file.stat (tables.lookupAt? file.path) := by
  rw [stat, onPath, Store.stat, clean_bind]
  refine .reading fun store alone outside same => ?_
  rw [Txn.entryAt?, runOn_query alone, noting_of_outside store outside, ← same]
  rfl

/-- A handle that something is at is told what it is. -/
theorem require_tells
    {file : FileHandle}
    (found : tables.lookupAt? file.path = some entry) :
    HostAction.Tells file.root.store tables file.require entry := by
  refine (file.stat_tells tables).bind ?_
  rw [found]
  exact .pure entry

/-- A handle of a live directory is told what is in it. -/
theorem list_tells
    {file : FileHandle}
    (found : tables.lookupAt? file.path = some entry)
    (isDirectory : entry.isDirectory = true) :
    HostAction.Tells file.root.store tables file.list (tables.listing entry.id) := by
  rw [list, onPath, Store.list, clean_bind]
  refine .reading fun store alone outside same => ?_
  have asked {α : Type} (question : Tables → α) :
      (query question).runOn store = (.ok (question tables), store) := by
    rw [runOn_query alone, noting_of_outside store outside, same]
  have required : (Txn.requireEntry file.path).runOn store = (.ok entry, store) := by
    rw [Txn.requireEntry, runOn_bind, Txn.entryAt?, asked]
    change (Action.require _ (tables.lookupAt? file.path)).runOn store = _
    rw [found]
    rfl
  rw [Txn.listAt, runOn_bind, required]
  dsimp only
  rw [isDirectory]
  change (query fun tables => tables.listing entry.id).runOn store = _
  rw [asked]

end FileHandle

end VersionStore
