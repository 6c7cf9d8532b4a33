import VersionStore.Proofs.Host.Apart
import VersionStore.Proofs.Store.Resting

namespace VersionStore

/-!
# Stores in turn

A host finds the stores that rest on files of their own as they were left, whatever was done
to others since. `HostAction.Turns` says what an action makes of such stores, by the way it
visits one after the other.
-/

open Tables

namespace Host

/-- A store as its next piece of work finds it. -/
def found (host : Host) (id : StoreId) : Store :=
  host.attach id (host.store id)

/-- Some stores of a host are at rest, each on a file of its own if on any. -/
structure Rests (strict : Prop) (known : List Entry) (calm : StoreId → Prop)
    (stores : StoreId → Store) (host : Host) : Prop where
  there : ∀ id, calm id → id < host.stores.size
  connected : ∀ id, calm id → (host.store id).connected = true
  found : ∀ id, calm id → host.found id = stores id
  atRest : ∀ id, calm id → (stores id).AtRest strict known
  filed :
    ∀ id name,
      calm id →
      (stores id).file = some name →
      (host.files.lookup name).isSome = true
  apart :
    ∀ id other name,
      calm id →
      calm other →
      other ≠ id →
      (stores id).file = some name →
      (stores other).file ≠ some name

namespace Rests

variable
  {strict : Prop}
  {known : List Entry}
  {calm : StoreId → Prop}
  {stores : StoreId → Store}
  {host : Host}
  {id : StoreId}

/-- Stores that are on no files are at rest together when each of them is. -/
theorem of_unfiled
    {host : Host}
    (there : ∀ id, calm id → id < host.stores.size)
    (atRest : ∀ id, calm id → (host.store id).AtRest strict known)
    (unfiled : ∀ id, calm id → (host.store id).file = none) :
    host.Rests strict known calm host.store where
  there := there
  connected id isCalm := (atRest id isCalm).connected
  found id isCalm := by
    have isUnfiled := unfiled id isCalm
    have others : (host.store id).others = .idle := (atRest id isCalm).others
    rw [Host.found, attach, upToDate, if_pos (atRest id isCalm).connected]
    generalize host.store id = store at *
    cases store
    cases isUnfiled
    cases others
    rfl
  atRest := atRest
  filed id name isCalm isFile := absurd (isFile.symm.trans (unfiled id isCalm)) (by simp)
  apart id other name isCalm _ _ isFile :=
    absurd (isFile.symm.trans (unfiled id isCalm)) (by simp)

/-- A store is on the file that it is found on. -/
theorem file_eq
    (rests : host.Rests strict known calm stores)
    (isCalm : calm id) :
    (host.store id).file = (stores id).file := by
  rw [← rests.found id isCalm, Host.found, attach, upToDate, rests.connected id isCalm, if_pos rfl]
  dsimp only
  split
  · exact (file_refresh _ _).symm
  · rfl

/-- No other store does anything with the file of a store at rest. -/
theorem accessTo_eq_idle
    (rests : host.Rests strict known calm stores)
    (isCalm : calm id)
    {name : String}
    (isFile : (stores id).file = some name) :
    host.accessTo name (some id) = .idle := by
  have found := rests.found id isCalm
  have file := congrArg (fun store : Store => store.file) found
  have others := congrArg (fun store : Store => store.others) found
  rw [Host.found, attach] at file others
  dsimp only at file others
  rw [file, isFile, (rests.atRest id isCalm).others] at others
  exact others

/-- A store at rest is found as it was left. -/
theorem found_keep_self
    (rests : host.Rests strict known calm stores)
    (isCalm : calm id)
    {tables : Tables}
    {locks : LockTable}
    (atRest : ((stores id).holding tables locks).AtRest strict known) :
    (host.keep id ((stores id).holding tables locks)).found id =
      (stores id).holding tables locks := by
  have idle : (stores id).access = .idle := atRest.idle atRest.outside
  have damage : (stores id).damage = none := atRest.damage
  have connected : (stores id).connected = true := atRest.connected
  have outside : (stores id).savepoints = [] := atRest.outside
  have others : (stores id).others = .idle := atRest.others
  rw [Host.found, store_keep_self, if_pos (rests.there id isCalm), attach, upToDate,
    if_pos atRest.connected]
  cases isFile : (stores id).file with
  | none =>
      simp [Store.holding, isFile, others]
  | some name =>
      have lookup :
          (host.keep id ((stores id).holding tables locks)).files.lookup name =
            some (.database tables) := by
        simp [keep, save, Store.holding, isFile, connected, damage, Folder.put]
      have accessed :
          (host.keep id ((stores id).holding tables locks)).accessTo name (some id) = .idle := by
        rw [accessTo_keep_self, rests.accessTo_eq_idle isCalm isFile]
      have refreshed :
          refresh ((stores id).holding tables locks) (.database tables) =
            (stores id).holding tables locks := by
        simp [refresh, Store.holding, idle, outside, damage]
      have file : ((stores id).holding tables locks).file = some name := isFile
      rw [file, Option.bind_some, lookup]
      dsimp only
      rw [refreshed, file, Option.map_some, accessed]
      simp [Store.holding, others, isFile]

/-- A store at rest is found as it was while another one is worked on. -/
theorem found_keep_of_ne
    (rests : host.Rests strict known calm stores)
    (isCalm : calm id)
    {other : StoreId}
    (isCalmToo : calm other)
    (different : other ≠ id)
    (tables : Tables)
    (locks : LockTable) :
    (host.keep id ((stores id).holding tables locks)).found other = host.found other := by
  refine attach_keep (rests.file_eq isCalm).symm (fun name isFile => rests.filed id name isCalm isFile)
    different fun name isFile => ⟨?_, fun closed => ?_⟩
  · rw [rests.file_eq isCalmToo]
    exact rests.apart id other name isCalm isCalmToo different isFile
  · exact absurd (closed.symm.trans (rests.connected other isCalmToo)) Bool.false_ne_true

/-- Stores at rest stay so when one of them is left with other tables and locks. -/
theorem keep
    (rests : host.Rests strict known calm stores)
    (isCalm : calm id)
    {tables : Tables}
    {locks : LockTable}
    (atRest : ((stores id).holding tables locks).AtRest strict known) :
    (host.keep id ((stores id).holding tables locks)).Rests strict known calm
      (Function.update stores id ((stores id).holding tables locks)) := by
  have sameFile (other : StoreId) :
      (Function.update stores id ((stores id).holding tables locks) other).file =
        (stores other).file := by
    by_cases same : other = id
    · subst same
      rw [Function.update_self]
      rfl
    · rw [Function.update_of_ne same]
  refine ⟨fun other isOther => ?_, fun other isOther => ?_, fun other isOther => ?_,
    fun other isOther => ?_, fun other name isOther isFile => ?_, ?_⟩
  · obtain ⟨files, kept⟩ := host.keep_eq id ((stores id).holding tables locks)
    rw [kept, Array.size_setIfInBounds]
    exact rests.there other isOther
  · by_cases same : other = id
    · rw [same, store_keep_self, if_pos (rests.there id isCalm)]
      exact atRest.connected
    · rw [store_keep_of_ne same]
      exact rests.connected other isOther
  · by_cases same : other = id
    · rw [same, Function.update_self]
      exact rests.found_keep_self isCalm atRest
    · rw [Function.update_of_ne same, rests.found_keep_of_ne isCalm isOther same]
      exact rests.found other isOther
  · by_cases same : other = id
    · rw [same, Function.update_self]
      exact atRest
    · rw [Function.update_of_ne same]
      exact rests.atRest other isOther
  · rw [sameFile] at isFile
    have there := rests.filed other name isOther isFile
    unfold Host.keep save
    split
    · rename_i held isHeld _ _
      rwa [Folder.isSome_lookup_put (rests.filed id held isCalm isHeld)]
    · exact there
  · intro first second name isFirst isSecond different isFile
    rw [sameFile] at isFile ⊢
    exact rests.apart first second name isFirst isSecond different isFile

end Rests

end Host

namespace HostAction

variable
  {strict : Prop}
  {known : List Entry}
  {calm : StoreId → Prop}
  {stores : StoreId → Store}
  {id : StoreId}

/-- What an action makes of stores at rest when it succeeds, and when it fails. -/
def Turns
    (strict : Prop)
    (known : List Entry)
    (calm : StoreId → Prop)
    (stores : StoreId → Store)
    (action : HostAction α)
    (done : α → (StoreId → Store) → Prop)
    (failed : (StoreId → Store) → Prop) :
    Prop :=
  ∀ host : Host,
    host.Rests strict known calm stores →
    ∃ after,
      (action.runOn host).2.Rests strict known calm after ∧
        match (action.runOn host).1 with
        | .ok value => done value after
        | .error _ => failed after

/-- Running what follows an action starts where the action left the host. -/
theorem runOn_bind
    (action : HostAction α)
    (next : α → HostAction β)
    (host : Host) :
    (action >>= next).runOn host =
      match action.runOn host with
      | (.ok value, left) => (next value).runOn left
      | (.error fault, left) => (.error fault, left) := by
  simp only [runOn, Id.run, ExceptT.run, bind, ExceptT.bind, ExceptT.mk, StateT.bind,
    StateT.run]
  rcases action host with ⟨fault | value, left⟩ <;> rfl

/-- Nothing follows a failure. -/
@[simp] theorem throw_bind
    (fault : Fault)
    (next : α → HostAction β) :
    (throw fault : HostAction α) >>= next = throw fault :=
  rfl

namespace Turns

variable {done : α → (StoreId → Store) → Prop} {failed : (StoreId → Store) → Prop}

/-- That the stores are at rest may be used. -/
theorem resting
    {action : HostAction α}
    (turns :
      (∀ id, calm id → (stores id).AtRest strict known) →
      Turns strict known calm stores action done failed) :
    Turns strict known calm stores action done failed :=
  fun host rests => turns rests.atRest host rests

/-- A value alone. -/
theorem pure
    {value : α}
    (holds : done value stores) :
    Turns strict known calm stores (Pure.pure value) done failed :=
  fun _ rests => ⟨stores, rests, holds⟩

/-- A failure alone. -/
theorem throw
    {fault : Fault}
    (holds : failed stores) :
    Turns strict known calm stores (MonadExcept.throw fault : HostAction α) done failed :=
  fun _ rests => ⟨stores, rests, holds⟩

/-- One action and what follows it. -/
theorem bind
    {action : HostAction β}
    {next : β → HostAction α}
    (middle : β → (StoreId → Store) → Prop)
    (first : Turns strict known calm stores action middle failed)
    (second :
      ∀ value after,
        middle value after →
        Turns strict known calm after (next value) done failed) :
    Turns strict known calm stores (action >>= next) done failed := by
  intro host rests
  obtain ⟨after, restsAfter, ended⟩ := first host rests
  rw [runOn_bind]
  rcases ran : action.runOn host with ⟨fault | value, left⟩
  · rw [ran] at restsAfter ended
    exact ⟨after, restsAfter, ended⟩
  · rw [ran] at restsAfter ended
    exact second value after ended left restsAfter

/-- Less may be promised after. -/
theorem promising
    {action : HostAction α}
    {done' : α → (StoreId → Store) → Prop}
    {failed' : (StoreId → Store) → Prop}
    (turns : Turns strict known calm stores action done' failed')
    (weaker : ∀ value after, done' value after → done value after)
    (weakerFailure : ∀ after, failed' after → failed after) :
    Turns strict known calm stores action done failed := by
  intro host rests
  obtain ⟨after, restsAfter, ended⟩ := turns host rests
  refine ⟨after, restsAfter, ?_⟩
  rcases ran : action.runOn host with ⟨fault | value, left⟩
  · rw [ran] at ended
    exact weakerFailure after ended
  · rw [ran] at ended
    exact weaker value after ended

/-- A failure that is handed over as a value. -/
theorem attempt
    {action : HostAction α}
    (turns : Turns strict known calm stores action done failed) :
    Turns strict known calm stores (HostAction.attempt action)
      (fun outcome after =>
        match outcome with
        | .ok value => done value after
        | .error _ => failed after)
      fun _ => False := by
  intro host rests
  exact turns host rests

/-- A piece of work on one store. -/
theorem visit
    (isCalm : calm id)
    {work : Store → Except Fault α × Store}
    (works :
      (stores id).AtRest strict known →
      ∃ tables locks,
        (work (stores id)).2 = (stores id).holding tables locks ∧
          ((stores id).holding tables locks).AtRest strict known ∧
            match (work (stores id)).1 with
            | .ok value => done value (Function.update stores id ((stores id).holding tables locks))
            | .error _ => failed (Function.update stores id ((stores id).holding tables locks))) :
    Turns strict known calm stores (ExceptT.mk fun host => host.visit id work) done failed := by
  intro host rests
  obtain ⟨tables, locks, isLeft, atRest, ended⟩ := works (rests.atRest id isCalm)
  have ran :
      HostAction.runOn (ExceptT.mk fun host => host.visit id work) host =
        ((work (stores id)).1, host.keep id ((stores id).holding tables locks)) := by
    change host.visit id work = _
    rw [← isLeft, ← rests.found id isCalm]
    rfl
  rw [ran]
  exact ⟨_, rests.keep isCalm atRest, ended⟩

end Turns

/-- The tables of one store are others now, and every store gives the locks that it gave. -/
structure Alters (stores : StoreId → Store) (id : StoreId) (tables : Tables)
    (after : StoreId → Store) : Prop where
  self : (after id).tables = tables
  others : ∀ other, other ≠ id → (after other).tables = (stores other).tables
  locks : ∀ other, (stores other).locks.Same (after other).locks

namespace Alters

variable {middle after : StoreId → Store} {tables tables' : Tables}

/-- Nothing was altered yet. -/
theorem refl
    (stores : StoreId → Store)
    (id : StoreId) :
    Alters stores id (stores id).tables stores where
  self := rfl
  others _ _ := rfl
  locks _ := .refl _

/-- What is altered twice is altered. -/
theorem trans
    (first : Alters stores id tables middle)
    (second : Alters middle id tables' after) :
    Alters stores id tables' after where
  self := second.self
  others other different := (second.others other different).trans (first.others other different)
  locks other := (first.locks other).trans (second.locks other)

/-- Locks that are given stay so. -/
theorem gives
    (alters : Alters stores id tables after)
    (other : StoreId) :
    (after other).locks.gives = (stores other).locks.gives :=
  (alters.locks other).gives

/-- A store that is left with other tables and like locks is altered. -/
theorem of_update
    {locks : LockTable}
    (same : (stores id).locks.Same locks) :
    Alters stores id tables (Function.update stores id ((stores id).holding tables locks)) where
  self := by
    rw [Function.update_self]
    rfl
  others other different := by
    rw [Function.update_of_ne different]
  locks other := by
    by_cases isId : other = id
    · subst isId
      rw [Function.update_self]
      exact same
    · rw [Function.update_of_ne isId]
      exact .refl _

end Alters

namespace Turns

/-- A change of a store at rest. -/
theorem change
    (isCalm : calm id)
    {action : Action α}
    {able : Prop}
    {post : α → Tables → Prop}
    (does :
      (stores id).AtRest strict known →
      Store.Done strict known (stores id) able post (action.runOn (stores id))) :
    Turns strict known calm stores (HostAction.on id action)
      (fun value after => able ∧ ∃ tables, post value tables ∧ Alters stores id tables after)
      fun after => ¬able ∧ Alters stores id (stores id).tables after := by
  refine visit isCalm fun atRest => ?_
  have done := does atRest
  refine ⟨_, _, done.holds, done.holds ▸ done.atRest, ?_⟩
  cases outcome : (action.runOn (stores id)).1 with
  | ok value =>
      obtain ⟨able, after⟩ := done.done value outcome
      exact ⟨able, _, after, .of_update done.locks⟩
  | error fault =>
      obtain ⟨unable, same⟩ := done.undone fault outcome
      refine ⟨unable, ?_⟩
      rw [same]
      exact .of_update done.locks

/-- A question to a store at rest. -/
theorem ask
    (isCalm : calm id)
    {action : Action α}
    {value : α}
    (asks : (stores id).AtRest strict known → action.runOn (stores id) = (.ok value, stores id)) :
    Turns strict known calm stores (HostAction.on id action)
      (fun result after => result = value ∧ after = stores) fun _ => False := by
  refine visit isCalm fun atRest => ⟨(stores id).tables, (stores id).locks, ?_⟩
  rw [asks atRest, atRest.holding_self, Function.update_eq_self]
  exact ⟨rfl, atRest, rfl, rfl⟩

/-- Work on a stream of a store at rest. -/
theorem stream
    (isCalm : calm id)
    {stream : σ}
    {action : StreamAction σ α}
    {post : Except Fault α × σ → (StoreId → Store) → Prop}
    (works :
      (stores id).AtRest strict known →
      ∃ outcome after tables locks,
        action.runOn stream (stores id) = (outcome, after, (stores id).holding tables locks) ∧
          ((stores id).holding tables locks).AtRest strict known ∧
            post (outcome, after)
              (Function.update stores id ((stores id).holding tables locks))) :
    Turns strict known calm stores (HostAction.onStream id stream action) post fun _ => False := by
  let work (store : Store) : Except Fault (Except Fault α × σ) × Store :=
    (.ok ((action.runOn stream store).1, (action.runOn stream store).2.1),
      (action.runOn stream store).2.2)
  have isVisit :
      HostAction.onStream id stream action = ExceptT.mk fun host => host.visit id work := rfl
  rw [isVisit]
  refine visit isCalm fun atRest => ?_
  obtain ⟨outcome, after, tables, locks, ran, atRestAfter, holds⟩ := works atRest
  refine ⟨tables, locks, ?_, atRestAfter, ?_⟩
  · exact congrArg (·.2.2) ran
  · simp only [work, ran]
    exact holds

end Turns

end HostAction

end VersionStore
