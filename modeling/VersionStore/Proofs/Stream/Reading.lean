import VersionStore.Proofs.Session.Calls
import VersionStore.Proofs.Stream.Run

namespace VersionStore

/-!
# What readers do to a store

A reader takes a shared lock when it is opened and lets it go when it is closed. All it
does in between is to ask the store, which connects the store with its database and
changes nothing else.
-/

open StreamAction

/-- Touching a watchdog once more makes no difference. -/
theorem Watchdog.map_touch_touch
    (watchdog : Option Watchdog) :
    (watchdog.map touch).map touch = watchdog.map touch := by
  cases watchdog <;> rfl

/-- A part is found under its own id. -/
theorem Tables.id_of_content?
    {tables : Tables}
    {id : Int}
    {content : Content}
    (found : tables.content? id = some content) :
    content.id = id := by
  obtain ⟨part, isPart, rfl⟩ := Option.map_eq_some_iff.mp found
  change part.id = id
  simpa using List.find?_some isPart

/-- A store that may have been connected with its database. -/
def Store.Connected (before after : Store) : Prop :=
  ∃ connected, (before.connected = true → connected = true) ∧ after = { before with connected }

namespace Store.Connected

variable {before middle after : Store}

/-- A store may have been left alone. -/
theorem refl
    (store : Store) :
    store.Connected store :=
  ⟨store.connected, id, rfl⟩

/-- Connecting passes on. -/
theorem trans
    (first : before.Connected middle)
    (second : middle.Connected after) :
    before.Connected after := by
  obtain ⟨_, stays, rfl⟩ := first
  obtain ⟨connected, staysToo, rfl⟩ := second
  exact ⟨connected, fun before => staysToo (stays before), rfl⟩

/-- Connecting leaves a store steady. -/
theorem steady
    (connected : before.Connected after)
    (steady : before.Steady) :
    after.Steady := by
  obtain ⟨_, -, rfl⟩ := connected
  exact ⟨⟨steady.damage, steady.writable, steady.others⟩, steady.gate, steady.free, steady.idle,
    steady.sane, steady.unwritten, steady.outermost⟩

end Store.Connected

namespace Reader

/-- What a reader is made of but for its cursor, its cache and its watchdog. -/
def fixed (reader : Reader) : Option Guard × Entry × List Extent × Int :=
  (reader.guard, reader.entry, reader.extents, reader.length)

/-- What using a reader leaves of it and of its store as long as it keeps its lock. It knows of
its file what it knew, and the parts that it cached meanwhile are those that the store has. -/
structure Stays (start : Reader) (before : Store) (reader : Reader) (store : Store) : Prop where
  fixed : reader.fixed = start.fixed
  watched : reader.watchdog = start.watchdog ∨ reader.watchdog = start.watchdog.map Watchdog.touch
  connected : before.Connected store
  cached :
    ∀ content ∈ reader.cache.contents,
      content ∈ start.cache.contents ∨ before.tables.content? content.id = some content
  position : 0 ≤ start.position → 0 ≤ reader.position

/-- A reader stays as it is. -/
theorem Stays.refl
    (reader : Reader)
    (store : Store) :
    reader.Stays store reader store :=
  ⟨rfl, .inl rfl, .refl store, fun _ => .inl, id⟩

/-- An action of a reader that leaves it and the store as they are, but for its cursor, its cache,
a touch of its watchdog and the connection of the store. -/
def Looks (action : StreamAction Reader α) : Prop :=
  ∀ (start : Reader) (before : Store),
    before.Steady →
    Keeps (start.Stays before) action

namespace Looks

/-- A value alone. -/
theorem pure
    (value : α) :
    Looks (Pure.pure value) :=
  fun _ _ _ => .pure value

/-- A failure alone. -/
theorem throw
    (fault : Fault) :
    Looks (MonadExcept.throw fault : StreamAction Reader α) :=
  fun _ _ _ => .throw fault

/-- One look and another. -/
theorem bind
    {action : StreamAction Reader α}
    {next : α → StreamAction Reader β}
    (first : Looks action)
    (second : ∀ value, Looks (next value)) :
    Looks (action >>= next) :=
  fun start before steady =>
    .bind (first start before steady) fun value => second value start before steady

/-- An attempt. -/
theorem attempt
    {action : StreamAction Reader α}
    (looks : Looks action) :
    Looks (StreamAction.attempt action) :=
  fun start before steady => .attempt (looks start before steady)

/-- The reader is looked at. -/
theorem current :
    Looks StreamAction.current :=
  fun _ _ _ _ _ => id

/-- The cursor is moved. -/
theorem move
    {next : Reader → Int}
    (position : ∀ reader : Reader, 0 ≤ reader.position → 0 ≤ next reader) :
    Looks (StreamAction.change fun reader => { reader with position := next reader }) :=
  fun _ _ _ => .change fun reader _ stays =>
    ⟨stays.fixed, stays.watched, stays.connected, stays.cached,
      fun from_ => position reader (stays.position from_)⟩

/-- A case distinction. -/
theorem ite
    {condition : Prop}
    [Decidable condition]
    {yes no : StreamAction Reader α}
    (positive : Looks yes)
    (negative : Looks no) :
    Looks (if condition then yes else no) := by
  split
  · exact positive
  · exact negative

/-- The reader was used. -/
theorem touch :
    Looks Reader.touch := by
  refine fun start before _ => .change fun reader store stays => ?_
  refine ⟨stays.fixed, .inr ?_, stays.connected, stays.cached, stays.position⟩
  rcases stays.watched with same | touched
  · exact congrArg (Option.map Watchdog.touch) same
  · change reader.watchdog.map Watchdog.touch = start.watchdog.map Watchdog.touch
    rw [touched, Watchdog.map_touch_touch]

end Looks

/-- Asking inside the gate connects the store at most. -/
theorem connected_reading
    {store : Store}
    (steady : store.Steady)
    (question : Tables → α)
    (first : TableName) :
    store.Connected ((Action.reading (Action.query question first)).runOn store).2 := by
  rw [Action.reading, Action.runOn_bind, Action.runOn_enter steady.toAlone]
  by_cases entered : store.entered = true
  · rw [if_pos entered]
    exact .refl store
  rw [if_neg entered]
  by_cases closed : store.closed = true
  · rw [if_pos closed]
    exact .refl store
  rw [if_neg closed]
  dsimp only
  have alone : ({ store with entered := true, connected := true } : Store).Alone :=
    ⟨steady.damage, steady.writable, steady.others⟩
  rw [Action.runOn_leaveAfter, Action.runOn_query alone]
  refine ⟨true, fun _ => rfl, ?_⟩
  have outside := steady.outside entered
  have left : store.entered = false := Bool.eq_false_iff.mpr entered
  simp [Store.noting, outside, left]

/-- What a question inside the gate gives, if anything, is what the tables say. -/
theorem answer_reading
    {store : Store}
    {question : Tables → α}
    {first : TableName}
    {answer : α}
    (answered : ((Action.reading (Action.query question first)).runOn store).1 = .ok answer) :
    answer = question store.tables := by
  have same : (Action.enter.runOn store).2.tables = store.tables := by
    rw [Action.enter, Action.runOn_bind, Action.runOn_get]
    dsimp only
    cases store.entered <;> cases store.closed <;> cases store.connected <;>
      cases store.damage <;> rfl
  rw [Action.reading, Action.runOn_bind] at answered
  rcases entered : Action.enter.runOn store with ⟨fault | _, inside⟩
  · rw [entered] at answered
    cases answered
  rw [entered] at answered same
  dsimp only at answered same
  rw [Action.runOn_leaveAfter, Action.query, Action.runOn_bind, Action.runOn_get] at answered
  dsimp only at answered
  cases unreadable : inside.unreadable? first with
  | some cause =>
      rw [unreadable] at answered
      cases answered
  | none =>
      rw [unreadable] at answered
      cases answered
      exact congrArg question same

/-- Loading a part leaves the reader, and asks the store. -/
theorem left_load
    (name : String)
    (id : Int)
    (reader : Reader)
    (store : Store) :
    ((load name id).runOn reader store).2 =
      (reader,
        ((Action.reading
          (Action.query (fun tables => tables.content? id) .parts)).runOn store).2) := by
  rw [load, runOn_bind, runOn_onStore]
  rcases ((Action.reading (Action.query (fun tables => tables.content? id) .parts)).runOn store).1
    with fault | _ | content <;> rfl

/-- A part that is loaded is the one that the store has under the id. -/
theorem content?_of_load
    {name : String}
    {id : Int}
    {reader : Reader}
    {store : Store}
    {content : Content}
    (loaded : ((load name id).runOn reader store).1 = .ok content) :
    store.tables.content? id = some content := by
  rw [load, runOn_bind, runOn_onStore] at loaded
  rcases answered :
    ((Action.reading (Action.query (fun tables => tables.content? id) .parts)).runOn store).1
    with fault | _ | found
  · rw [answered] at loaded
    cases loaded
  · rw [answered] at loaded
    cases loaded
  · rw [answered] at loaded
    cases loaded
    exact (answer_reading answered).symm

/-- Loading a part leaves reader and store, and what comes of it is what the store has. -/
theorem stays_load
    {start reader : Reader}
    {before store : Store}
    (steady : before.Steady)
    (stays : start.Stays before reader store)
    (name : String)
    (id : Int) :
    start.Stays before reader ((load name id).runOn reader store).2.2 ∧
      ((load name id).runOn reader store).2.1 = reader ∧
        ∀ content,
          ((load name id).runOn reader store).1 = .ok content →
          before.tables.content? content.id = some content := by
  have asked :=
    connected_reading (stays.connected.steady steady) (fun tables => tables.content? id) .parts
  obtain ⟨_, -, same⟩ := stays.connected
  rw [left_load]
  refine ⟨{ stays with connected := stays.connected.trans asked }, rfl, fun content loaded => ?_⟩
  have found := content?_of_load loaded
  rw [Tables.id_of_content? found]
  rw [same] at found
  exact found

/-- The bytes of a part come from the cache or from the store. -/
theorem looks_contentOf
    (id : Int) :
    Looks (contentOf id) := by
  intro start before steady reader store stays
  rw [contentOf, runOn_bind, runOn_current]
  dsimp only
  rw [runOn_bind]
  cases found : reader.cache.find? id with
  | some content =>
      rw [PartCache.get_of_cached found]
      refine ⟨stays.fixed, stays.watched, stays.connected, fun other member => ?_, stays.position⟩
      rcases PartCache.mem_promote member with rfl | kept
      · exact stays.cached _ (List.mem_of_find?_eq_some found)
      · exact stays.cached other kept
  | none =>
      obtain ⟨left, same, isPart⟩ := stays_load steady stays reader.entry.name id
      rw [PartCache.get_of_missing found, runOn_bind]
      rcases ran : (load reader.entry.name id).runOn reader store with ⟨fault | content, after⟩
      · rw [ran] at left same
        dsimp only at left same ⊢
        rw [same]
        exact left
      · rw [ran] at left same isPart
        dsimp only at left same isPart ⊢
        have isStored := isPart content rfl
        refine ⟨?_, ?_, left.connected, fun other member => ?_, ?_⟩
        · exact (congrArg fixed same).trans left.fixed
        · exact (congrArg Reader.watchdog same).symm ▸ left.watched
        · rcases PartCache.mem_admitted member with rfl | kept
          · exact .inr isStored
          · exact left.cached other kept
        · exact fun from_ => (congrArg position same).symm ▸ left.position from_

/-- Gathering bytes leaves the store. -/
theorem looks_gather
    (position : Int)
    (room : Nat)
    (gathered : ByteArray) :
    Looks (gather position room gathered) := by
  induction room using Nat.strongRecOn generalizing position gathered with
  | _ room inductionHypothesis =>
      rw [gather]
      refine .bind .current fun reader => ?_
      split
      · exact .pure _
      · split
        · exact .pure _
        · refine .bind (looks_contentOf _) fun content => ?_
          dsimp only
          split
          · exact inductionHypothesis _ (by omega) _ _
          · exact .pure _

/-- Reading at a place leaves the store. -/
theorem looks_readFrom
    (position : Int)
    (room : Nat) :
    Looks (readFrom position room) := by
  refine .bind .current fun reader => ?_
  simp only [throw_bind]
  exact .ite (.throw _) (looks_gather _ _ _)

/-- Reading at the cursor leaves the store. -/
theorem looks_read
    (room : Nat) :
    Looks (read room) :=
  .bind .touch fun _ => .bind .current fun _ => .bind (looks_readFrom _ _) fun _ =>
    .bind (.move fun _ from_ => by omega) fun _ => .pure _

/-- Reading at a place, unless it is behind the end, leaves the store. -/
theorem looks_readAt
    (position room : Nat) :
    Looks (readAt position room) := by
  refine .bind .touch fun _ => .bind .current fun reader => ?_
  simp only [throw_bind]
  exact .ite (.throw _) (looks_readFrom _ _)

/-- Reading until there is enough leaves the store. -/
theorem looks_readUntil
    (fuel room : Nat)
    (gathered : ByteArray) :
    Looks (readUntil fuel room gathered) := by
  induction fuel generalizing room gathered with
  | zero =>
      exact .pure _
  | succ fuel inductionHypothesis =>
      rw [readUntil]
      refine .ite (.pure _) (.bind (looks_read _) fun data => ?_)
      exact .ite (.pure _) (inductionHypothesis _ _)

/-- Reading an exact number of bytes leaves the store. -/
theorem looks_readExact
    (count : Nat) :
    Looks (readExact count) := by
  refine .bind (looks_readUntil _ _ _) fun data => ?_
  simp only [throw_bind]
  exact .ite (.throw _) (.pure _)

/-- Reading ever more leaves the store. -/
theorem looks_readDoubling
    (fuel room : Nat)
    (gathered : ByteArray) :
    Looks (readDoubling fuel room gathered) := by
  induction fuel generalizing room gathered with
  | zero =>
      exact .pure _
  | succ fuel inductionHypothesis =>
      exact .bind (looks_read _) fun data => .ite (.pure _) (inductionHypothesis _ _)

/-- Reading to the end leaves the store. -/
theorem looks_readAll :
    Looks readAll := by
  refine .bind .current fun reader => .bind (.attempt (looks_readDoubling _ _ _)) fun outcome => ?_
  cases outcome with
  | ok data =>
      exact .pure _
  | error fault =>
      exact .throw _

/-- Moving the cursor leaves the store. -/
theorem looks_seek
    (target : SeekFrom) :
    Looks (seek target) := by
  refine .bind .touch fun _ => .bind .current fun reader => ?_
  simp only [throw_bind]
  refine .ite (.throw _) ?_
  have moved
      (place : Int) :
      Looks (if (place < 0 || place > reader.length) = true then throw .endOfStream
        else (do
          StreamAction.change fun reader => { reader with position := place }
          return place.toNat : StreamAction Reader Nat)) := by
    split
    · exact .throw _
    · rename_i within
      refine .bind (.move fun _ _ => ?_) fun _ => .pure _
      simp only [Bool.or_eq_true, decide_eq_true_eq, not_or] at within
      exact Int.not_lt.mp within.1
  cases target <;> exact moved _

/-- Delivering what is left of a file leaves the store. -/
theorem looks_deliver
    (fuel : Nat) :
    Looks (deliver fuel) := by
  induction fuel with
  | zero =>
      exact .pure _
  | succ fuel inductionHypothesis =>
      refine .bind (.attempt (looks_read _)) fun outcome => ?_
      cases outcome with
      | error fault =>
          exact .pure _
      | ok data =>
          exact .ite (.pure _) (.bind inductionHypothesis fun _ => .pure _)

/-- What is left of a reader after its use, and of the store: the lock may have been let
go. -/
def Used (before : Reader) (store : Store) (reader : Reader) (left : Store) : Prop :=
  reader.fixed = before.fixed ∧ store.Connected left ∨
    ∃ guard,
      before.guard = some guard ∧
        reader.fixed = fixed { before with guard := none } ∧
          left = { store with locks := store.locks.release guard }

/-- A close lets the lock go, if it is still held. -/
theorem used_close
    (reader : Reader)
    (store : Store) :
    Used reader store (close.runOn reader store).2.1 (close.runOn reader store).2.2 := by
  rw [close, runOn_bind, runOn_current]
  dsimp only
  cases held : reader.guard with
  | some guard =>
      exact .inr ⟨guard, held, rfl, rfl⟩
  | none =>
      exact .inl ⟨rfl, .refl store⟩

/-- A use of a reader is a look, unless it lets the lock go. -/
theorem used_run
    (reader : Reader)
    {store : Store}
    (steady : store.Steady)
    (use : ReaderUse) :
    Used reader store (use.run.runOn reader store).2.1 (use.run.runOn reader store).2.2 := by
  have looked :
      ∀ action : StreamAction Reader Unit,
        Looks action →
        Used reader store (action.runOn reader store).2.1 (action.runOn reader store).2.2 :=
    fun action looks =>
      have stays := looks reader store steady reader store (.refl reader store)
      .inl ⟨stays.fixed, stays.connected⟩
  cases use with
  | read room =>
      exact looked _ (.bind (looks_read room) fun _ => .pure _)
  | readAt position room =>
      exact looked _ (.bind (looks_readAt position room) fun _ => .pure _)
  | readExact count =>
      exact looked _ (.bind (looks_readExact count) fun _ => .pure _)
  | readAll =>
      exact looked _ (.bind looks_readAll fun _ => .pure _)
  | toSource =>
      exact looked _ (.bind (.bind .current fun _ => .bind (looks_deliver _) fun _ => .pure _)
        fun _ => .pure _)
  | seek target =>
      exact looked _ (.bind (looks_seek target) fun _ => .pure _)
  | finish =>
      exact used_close { reader with watchdog := none } store
  | elapse milliseconds =>
      rw [ReaderUse.run, elapse, runOn_bind, runOn_change]
      dsimp only
      rw [runOn_bind, runOn_current]
      dsimp only
      split
      · exact used_close { reader with watchdog := _ } store
      · exact .inl ⟨rfl, .refl store⟩

/-! ## Opening -/

/-- A reader as it is opened: it has a lock on its file, and knows where the parts lie. -/
structure Starts (reader : Reader) (guard : Guard) (tables : Tables) : Prop where
  held : reader.guard = some guard
  file : guard.id = reader.entry.id
  extents : reader.extents = tables.extents reader.entry.id
  length : reader.length = lengthOf reader.extents
  position : reader.position = 0
  cache : reader.cache.contents = []

/-- What is left of a store after a reader was to be opened. If it was, it holds a lock that
the store gave. -/
structure Opened (store : Store) (left : Except Fault Reader × Store) : Prop where
  steady : left.2.Steady
  config : left.2.config = store.config
  closing : left.2.closing = store.closing
  kept : left.2.kept = store.kept
  tables : left.2.tables = store.tables
  savepoints : left.2.savepoints = store.savepoints
  failed : ∀ fault, left.1 = .error fault → store.locks.Same left.2.locks
  done :
    ∀ reader,
      left.1 = .ok reader →
      ∃ guard given,
        store.locks.lock? guard.id false = some (guard, given) ∧
          given.Same left.2.locks ∧ reader.Starts guard store.tables
  watched : ∀ reader, left.1 = .ok reader → reader.watchdog = Watchdog.ofStore? store

/-- An action that opens a reader outside of every scope. -/
def Opens (action : Action Reader) : Prop :=
  ∀ store : Store,
    store.Alone →
    store.savepoints = [] →
    store.locks.Sane →
    ∃ locks,
      (action.runOn store).2 = { store with locks } ∧
        (∀ fault, (action.runOn store).1 = .error fault → store.locks.Same locks) ∧
        (∀ reader,
          (action.runOn store).1 = .ok reader →
          ∃ guard given,
            store.locks.lock? guard.id false = some (guard, given) ∧
              given.Same locks ∧ reader.Starts guard store.tables) ∧
        ∀ reader,
          (action.runOn store).1 = .ok reader →
          reader.watchdog = Watchdog.ofStore? store

/-- Looking and opening a reader then. -/
theorem Opens.bind
    {action : Action α}
    {next : α → Action Reader}
    (looks : Action.Looks action)
    (opens : ∀ value, Opens (next value)) :
    Opens (action >>= next) := by
  intro store alone outside sane
  obtain ⟨middle, same, isLeft⟩ := looks store alone outside sane
  rw [Action.runOn_bind]
  rcases ran : action.runOn store with ⟨fault | value, left⟩
  · rw [ran] at isLeft
    dsimp only at isLeft ⊢
    exact ⟨middle, isLeft, fun _ _ => same, (fun _ isReader => by cases isReader),
      fun _ isReader => by cases isReader⟩
  · rw [ran] at isLeft
    dsimp only at isLeft ⊢
    subst isLeft
    obtain ⟨locks, isAfter, failed, done, watched⟩ :=
      opens value { store with locks := middle } ⟨alone.damage, alone.writable, alone.others⟩
        outside (same.sane sane)
    refine ⟨locks, isAfter, fun fault isFault => same.trans (failed fault isFault), ?_, watched⟩
    intro reader isReader
    obtain ⟨guard, given, taken, sameGiven, held⟩ := done reader isReader
    obtain ⟨first, takenFirst, sameFirst⟩ := same.lock? taken
    exact ⟨guard, first, takenFirst, sameFirst.trans sameGiven, held⟩

/-- A reader over an entry locks it. -/
theorem opens_ofEntry
    (entry : Entry) :
    Opens (ofEntry entry) := by
  intro store alone outside _
  rw [ofEntry, Action.lock, Action.runOn_bind, Action.runOn_lockId]
  cases taken : store.locks.lock? entry.id false with
  | none =>
      dsimp only
      exact ⟨store.locks, rfl, fun _ _ => .refl _, (fun _ isReader => by cases isReader),
        fun _ isReader => by cases isReader⟩
  | some pair =>
      obtain ⟨guard, locks⟩ := pair
      have alone : ({ store with locks } : Store).Alone :=
        ⟨alone.damage, alone.writable, alone.others⟩
      have same : guard.id = entry.id := by
        obtain ⟨-, rfl, -⟩ := LockTable.lock?_eq_some_iff.mp taken
        rfl
      dsimp only
      rw [Action.runOn_bind, Action.runOn_query alone,
        Action.noting_of_outside { store with locks } outside]
      refine ⟨locks, rfl, ?_, ?_, ?_⟩
      · intro fault isFault
        cases isFault
      · intro reader isReader
        cases isReader
        refine ⟨guard, locks, ?_, .refl _, ⟨rfl, same, rfl, rfl, rfl, rfl⟩⟩
        rw [same]
        exact taken
      · intro reader isReader
        cases isReader
        rfl

/-- A reader that is opened inside the gate. -/
theorem opened_reading
    {store : Store}
    (steady : store.Steady)
    {action : Action Reader}
    (opens : Opens action) :
    Opened store ((Action.reading action).runOn store) := by
  have refused : ∀ fault, Opened store (.error fault, store) := fun fault =>
    ⟨steady, rfl, rfl, rfl, rfl, rfl, fun _ _ => .refl _, (fun _ isReader => by cases isReader),
      fun _ isReader => by cases isReader⟩
  rw [Action.reading, Action.runOn_bind, Action.runOn_enter steady.toAlone]
  by_cases entered : store.entered = true
  · rw [if_pos entered]
    dsimp only
    exact refused _
  rw [if_neg entered]
  by_cases closed : store.closed = true
  · rw [if_pos closed]
    dsimp only
    exact refused _
  rw [if_neg closed]
  have outside := steady.outside entered
  dsimp only
  rw [Action.runOn_leaveAfter]
  obtain ⟨locks, isLeft, failed, done, watched⟩ :=
    opens { store with entered := true, connected := true }
      ⟨steady.damage, steady.writable, steady.others⟩ outside steady.sane
  rw [isLeft]
  have sane : locks.Sane := by
    rcases outcome : (action.runOn { store with entered := true, connected := true }).1 with
      fault | reader
    · exact (failed fault outcome).sane steady.sane
    · obtain ⟨guard, given, taken, same, -⟩ := done reader outcome
      exact same.sane (steady.sane.lock? taken)
  refine ⟨⟨⟨steady.damage, steady.writable, steady.others⟩, ?_, steady.free, steady.idle,
    sane, steady.unwritten, steady.outermost⟩, rfl, rfl, rfl, rfl, rfl, failed, done, watched⟩
  simp [outside]

/-- A reader is opened on the file at a path. -/
theorem opened_openPath
    {store : Store}
    (steady : store.Steady)
    (text : String) :
    Opened store ((openPath text).runOn store) := by
  rw [openPath, Action.runOn_bind, Txn.clean, Action.runOn_ofExcept]
  cases CleanPath.ofText text with
  | ok path =>
      exact opened_reading steady (.bind (.requireFile path) opens_ofEntry)
  | error fault =>
      exact ⟨steady, rfl, rfl, rfl, rfl, rfl, fun _ _ => .refl _,
        (fun _ isReader => by cases isReader), fun _ isReader => by cases isReader⟩

/-- A reader is opened on any version of a file. -/
theorem opened_openEntry
    {store : Store}
    (steady : store.Steady)
    (entry : Entry) :
    Opened store ((openEntry entry).runOn store) := by
  unfold openEntry
  simp only [Action.throw_bind]
  split
  · exact ⟨steady, rfl, rfl, rfl, rfl, rfl, fun _ _ => .refl _,
      (fun _ isReader => by cases isReader), fun _ isReader => by cases isReader⟩
  · exact opened_reading steady
      (.bind (.query _ _) fun found => .bind (.require _ _) opens_ofEntry)

end Reader

end VersionStore
