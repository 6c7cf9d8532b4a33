import VersionStore.Proofs.Action.Uniform
import VersionStore.Proofs.Session.Calls

namespace VersionStore

/-!
# Calls depend on what they see

Every call of a transaction is uniform: what comes of it depends on the tables, the
configuration and the lock table, and on no scope around it. There is a lemma for each
function that calls are made of, in the order in which they are defined.

Whatever its tables are, a steady store thus stays steady from call to call and from
question to question, and keeps its scopes and its locks.
-/

open VersionStore.Action

namespace Txn

/-! ## Looking things up -/

theorem clean_uniform
    (text : String) :
    Uniform (clean text) :=
  .ofExcept _

theorem entryAt?_uniform
    (path : CleanPath) :
    Uniform (entryAt? path) :=
  .query _ _

theorem requireEntry_uniform
    (path : CleanPath) :
    Uniform (requireEntry path) :=
  .bind (entryAt?_uniform path) fun _ => .require _ _

theorem requireFile_uniform
    (path : CleanPath) :
    Uniform (requireFile path) :=
  .bind (requireEntry_uniform path) fun _ => .ite (.throw _) (.pure _)

theorem stat_uniform
    (text : String) :
    Uniform (stat text) :=
  .bind (clean_uniform text) entryAt?_uniform

theorem list_uniform
    (text : String) :
    Uniform (list text) :=
  .bind (clean_uniform text) fun path =>
    .bind (requireEntry_uniform path) fun _ => .ite (.throw _) (.query _ _)

/-- A row that was just stored is asked for. -/
theorem requireEntry?_uniform
    (id : Int)
    (fault : Fault) :
    Uniform (do Action.require fault (← query fun tables => tables.entry? id)) :=
  .bind (.query _ _) fun _ => .require _ _

/-! ## Changing the tree -/

theorem makeDirectory_uniform
    (now parent : Int)
    (path : String)
    (name : Name) :
    Uniform (makeDirectory now parent path name) :=
  .bind (.insert _ _) fun id => .bind (.addDirectory id path) fun _ => .pure _

theorem makeAlong_uniform
    (now : Int)
    (steps : List (String × Name))
    (directory : Int) :
    Uniform (makeAlong now directory steps) := by
  induction steps generalizing directory with
  | nil =>
      exact .pure _
  | cons step rest inductionHypothesis =>
      refine .bind (.query _ _) fun found => ?_
      cases found with
      | none =>
          exact .bind (makeDirectory_uniform now directory _ _) inductionHypothesis
      | some entry =>
          exact .ite (inductionHypothesis _) (.throw _)

theorem makeDirectoriesAt_uniform
    (now : Int)
    (path : CleanPath) :
    Uniform (makeDirectoriesAt now path) :=
  makeAlong_uniform now _ _

theorem pruneRow_uniform
    (entry : Entry) :
    Uniform (pruneRow entry) :=
  .bind (.query _ _) fun _ => .bind (.update _ _) fun _ => .pure _

theorem trashRow_uniform
    (now : Int)
    (entry : Entry) :
    Uniform (trashRow now entry) :=
  .bind (.query _ _) fun _ => .bind (.update _ _) fun _ => .pure _

theorem deleteExisting_uniform
    (now : Int)
    (entry : Entry) :
    Uniform (deleteExisting now entry) := by
  refine .locked entry true ?_
  refine .get
    (fun view => do
      let count ← if view.config.keepHistory then trashRow now entry else pruneRow entry
      return decide (count > 0))
    (fun view store shows => ?_) fun view => ?_
  · rw [shows.config]
  · refine .ite ?_ ?_
    · exact .bind (trashRow_uniform now entry) fun _ => .pure _
    · exact .bind (pruneRow_uniform entry) fun _ => .pure _

theorem deleteEntry_uniform
    (now : Int)
    (entry : Entry) :
    Uniform (deleteEntry now entry) :=
  .ite (.pure _) <| .bind (.query _ _) fun _ =>
    .ite (.pure _) (deleteExisting_uniform now entry)

theorem delete_uniform
    (now : Int)
    (text : String) :
    Uniform (delete now text) := by
  refine .bind (stat_uniform text) fun found => ?_
  cases found with
  | none =>
      exact .pure _
  | some entry =>
      exact deleteEntry_uniform now entry

theorem prune_uniform
    (now : Int)
    (entry : Entry) :
    Uniform (prune now entry) := by
  refine .ite (.bind (.query _ _) fun _ => .ite ?_ (.pure _)) ?_
  · exact .bind (trashRow_uniform now entry) fun _ => .pure _
  · exact .bind (pruneRow_uniform entry) fun _ => .pure _

theorem moveTo_uniform
    (now : Int)
    (target source : String)
    (time? : Option Int) :
    Uniform (moveTo now target source time?) := by
  refine .bind (clean_uniform target) fun target => .bind (clean_uniform source) fun source =>
    .bind (requireEntry_uniform source) fun entry => .bind (entryAt?_uniform target) fun _ => ?_
  refine .ite (.throw _) (.ite (.throw _) (.locked entry true ?_))
  exact .bind (makeDirectoriesAt_uniform now _) fun _ =>
    .bind (.update _ _) fun _ => requireEntry?_uniform _ _

theorem changeAt_uniform
    (text : String)
    (change : Tables → Int → Tables) :
    Uniform (changeAt text change) := by
  refine .bind (stat_uniform text) fun found => ?_
  cases found with
  | none =>
      exact .pure _
  | some entry =>
      exact .bind (.update _ _) fun _ => .pure _

/-! ## Writing content -/

theorem storeParts_uniform
    (fileId : Int)
    (parts : List ByteArray)
    (offset : Int) :
    Uniform (storeParts fileId offset parts) := by
  induction parts generalizing offset with
  | nil =>
      exact .pure _
  | cons part rest inductionHypothesis =>
      exact .bind (.insert _ _) fun _ => inductionHypothesis _

theorem drain_uniform
    (fileId : Int)
    (failure : Option IoFault)
    (deliveries : List Delivery)
    (intake : Intake) :
    Uniform (intake.drain fileId failure deliveries) := by
  induction deliveries generalizing intake with
  | nil =>
      cases failure with
      | none =>
          exact .pure _
      | some fault =>
          exact .throw _
  | cons delivery rest inductionHypothesis =>
      cases delivery with
      | interrupted =>
          exact inductionHypothesis intake
      | bytes data =>
          rw [Intake.drain]
          refine .ite (.pure _) (.bind ?_ inductionHypothesis)
          exact .bind (storeParts_uniform fileId _ _) fun _ => .pure _

theorem storeContent_uniform
    (fileId : Int)
    (source : Source) :
    Uniform (storeContent fileId source) :=
  .bind (drain_uniform fileId source.failure source.deliveries {}) fun _ =>
    .bind (storeParts_uniform fileId _ _) fun _ => .pure _

theorem clearForWrite_uniform
    (now : Int)
    (path : CleanPath) :
    Uniform (clearForWrite now path) := by
  refine .ite (.throw _) (.bind (entryAt?_uniform path) fun found => ?_)
  cases found with
  | none =>
      exact makeDirectoriesAt_uniform now _
  | some entry =>
      refine .ite (.throw _) (.bind (deleteExisting_uniform now entry) fun _ => ?_)
      exact .ite (.throw _) (makeDirectoriesAt_uniform now _)

theorem writeFrom_uniform
    (now : Int)
    (text : String)
    (source : Source)
    (links? : Option (List String))
    (time? : Option Int) :
    Uniform (writeFrom now text source links? time?) := by
  refine .bind (clean_uniform text) fun path => .bind (clearForWrite_uniform now path) fun _ =>
    .bind (.insert _ _) fun id => .bind (storeContent_uniform id source) fun stored =>
      .bind (.update _ _) fun _ => ?_
  cases links? with
  | none =>
      exact requireEntry?_uniform id _
  | some links =>
      exact .bind (.update _ _) fun _ => requireEntry?_uniform id _

theorem copyEntry_uniform
    (now : Int)
    (path : CleanPath)
    (source : Entry)
    (time? : Option Int) :
    Uniform (copyEntry now path source time?) := by
  refine .locked source false (.bind (entryAt?_uniform path) fun found => ?_)
  have copying :
      Uniform (do
        let directory ← clearForWrite now path
        let modified := time?.getD now
        let id ← insert fun tables => tables.createEntry directory path.name false modified
        update fun tables =>
          (tables.copyParts id source.id).recordContent id source.length modified source.checksum
        Action.require (.notFound path.text) (← query fun tables => tables.entry? id)) :=
    .bind (clearForWrite_uniform now path) fun _ => .bind (.insert _ _) fun id =>
      .bind (.update _ _) fun _ => requireEntry?_uniform id _
  cases found with
  | none =>
      exact copying
  | some existing =>
      exact .ite (.throw _) copying

theorem copy_uniform
    (now : Int)
    (target source : String)
    (time? : Option Int) :
    Uniform (copy now target source time?) :=
  .bind (clean_uniform source) fun source => .bind (requireFile_uniform source) fun entry =>
    .bind (clean_uniform target) fun path => copyEntry_uniform now path entry time?

theorem snapshotDirectory_uniform
    (now : Int)
    (names : List Name) :
    Uniform (snapshotDirectory now names) := by
  induction names with
  | nil =>
      refine .bind (.query _ _) fun found => ?_
      cases found with
      | none =>
          exact .throw _
      | some id =>
          exact .pure _
  | cons name before inductionHypothesis =>
      refine .bind (.query _ _) fun found => ?_
      cases found with
      | none =>
          exact .bind inductionHypothesis fun _ => .bind (.insert _ _) fun id =>
            .bind (.addDirectory id _) fun _ => .pure _
      | some id =>
          exact .pure _

theorem snapshot_uniform
    (now : Int)
    (text : String)
    (source? : Option Source)
    (time? : Option Int) :
    Uniform (snapshot now text source? time?) := by
  refine .bind (clean_uniform text) fun path => .ite (.throw _) ?_
  cases source? with
  | none =>
      refine .bind (requireFile_uniform path) fun live => .locked live false ?_
      exact .bind (snapshotDirectory_uniform now _) fun _ => .bind (.insert _ _) fun _ =>
        .update _ _
  | some source =>
      exact .bind (snapshotDirectory_uniform now _) fun _ => .bind (.insert _ _) fun id =>
        .bind (storeContent_uniform id source) fun _ => .update _ _

/-! ## The trash -/

theorem sweep_uniform
    (select? : Option Selector) :
    Uniform (sweep select?) := by
  refine .bind (.query _ _) fun (counts, swept) => ?_
  refine .get
    (fun view => do
      if swept = view.tables then return counts
      update fun _ => swept
      return counts)
    (fun view store shows => ?_) fun view => ?_
  · rw [shows.tables, refusal?_of_alone shows.ready.alone]
    rfl
  · exact .ite (.pure _) (.bind (.update _ _) fun _ => .pure _)

theorem pruneRows_uniform
    (rows : List Entry) :
    Uniform (pruneRows rows) := by
  induction rows with
  | nil =>
      exact .pure _
  | cons entry rest inductionHypothesis =>
      exact .bind (pruneRow_uniform entry) fun _ => .bind inductionHypothesis fun _ => .pure _

theorem pruneVersions_uniform
    (all : Bool)
    (infos : List TrashEntry) :
    Uniform (pruneVersions all infos) := by
  induction infos with
  | nil =>
      exact .pure _
  | cons info rest inductionHypothesis =>
      refine .ite inductionHypothesis (.bind (.query _ _) fun _ => ?_)
      exact .bind (pruneRows_uniform _) fun _ => .bind inductionHypothesis fun _ => .pure _

theorem pruneHistory_uniform
    (infos : List TrashEntry)
    (all : Bool) :
    Uniform (pruneHistory infos all) :=
  .bind (pruneVersions_uniform all infos) fun _ => .bind (sweep_uniform none) fun _ => .pure _

theorem restore_uniform
    (now : Int)
    (path : CleanPath)
    (info : TrashEntry) :
    Uniform (restore now path info) :=
  .bind (.query _ _) fun _ => .bind (.require _ _) fun _ => copyEntry_uniform now path _ _

theorem restoreEach_uniform
    (now : Int)
    (target : CleanPath)
    (single : Bool)
    (infos : List TrashEntry) :
    Uniform (restoreEach now target single infos) := by
  induction infos with
  | nil =>
      exact .pure _
  | cons info rest inductionHypothesis =>
      have aiming : Uniform (restoreTarget target single info) :=
        .ite (.pure _) (.ofExcept _)
      refine .bind aiming fun path => ?_
      refine .bind (.attempt (.transaction (restore_uniform now path info))) fun _ => ?_
      exact .bind inductionHypothesis fun _ => .pure _

theorem recover_uniform
    (now : Int)
    (target : String)
    (infos : List TrashEntry) :
    Uniform (recover now target infos) :=
  .bind (clean_uniform target) fun _ => restoreEach_uniform now _ _ infos

end Txn

/-! ## Calls -/

/-- Ignoring what an action gives is as uniform as the action. -/
theorem Action.Uniform.ignoring
    {action : Action α}
    (uniform : Uniform action) :
    Uniform (ignoring action) :=
  .bind uniform fun _ => .pure _

/-- What comes of a call depends on what it sees. -/
theorem Call.inside_uniform
    (now : Int)
    (call : Call) :
    Uniform (call.inside now) := by
  cases call with
  | stat text =>
      exact (Txn.stat_uniform text).ignoring
  | list text =>
      exact (Txn.list_uniform text).ignoring
  | makeDirectories text =>
      have making : Uniform (Txn.makeDirectories now text) :=
        .bind (Txn.clean_uniform text) fun _ => Txn.makeDirectoriesAt_uniform now _
      exact making.ignoring
  | write text data links? time? =>
      exact (Txn.writeFrom_uniform now text _ links? time?).ignoring
  | writeFrom text source links? time? =>
      exact (Txn.writeFrom_uniform now text source links? time?).ignoring
  | snapshot text source? time? =>
      exact Txn.snapshot_uniform now text source? time?
  | delete text =>
      exact (Txn.delete_uniform now text).ignoring
  | deleteEntry entry =>
      exact (Txn.deleteEntry_uniform now entry).ignoring
  | copy target source time? =>
      exact (Txn.copy_uniform now target source time?).ignoring
  | moveTo target source time? =>
      exact (Txn.moveTo_uniform now target source time?).ignoring
  | setLastModified text time =>
      exact (Txn.changeAt_uniform text _).ignoring
  | setWritable text writable =>
      exact (Txn.changeAt_uniform text _).ignoring
  | setLinks text targets =>
      exact (Txn.changeAt_uniform text _).ignoring
  | prune entry =>
      exact (Txn.prune_uniform now entry).ignoring
  | pruneHistory infos all =>
      exact (Txn.pruneHistory_uniform infos all).ignoring
  | recover target infos =>
      exact (Txn.recover_uniform now target infos).ignoring
  | sweep select? =>
      exact (Txn.sweep_uniform select?).ignoring

/-! ## From outside -/

namespace Store

variable {store left : Store}

/-- What an operation leaves of a store, whatever becomes of the tables. -/
def Continues (store left : Store) : Prop :=
  store.Passes (fun _ => True) left

/-- A store continues as it is. -/
theorem Continues.refl
    (steady : store.Steady) :
    store.Continues store :=
  ⟨steady, rfl, rfl, rfl, rfl, .refl _, trivial⟩

/-- Work leaves a steady store to continue. -/
theorem Undergoes.continues
    (undergoes : store.Undergoes left)
    (steady : store.Steady) :
    store.Continues left where
  steady :=
    { undergoes.ready with
      gate := by
        rw [undergoes.entered, undergoes.savepoints]
        exact steady.gate }
  config := undergoes.config
  closing := undergoes.closing
  closed := undergoes.closed
  savepoints := undergoes.savepoints
  locks := undergoes.locks
  tables := trivial

/-- A steady store stays on its file, and connected if it was. -/
structure Remains (store left : Store) : Prop where
  steady : left.Steady
  file : left.file = store.file
  connected : store.connected = true → left.connected = true

/-- A store remains as it is. -/
theorem Remains.refl
    (steady : store.Steady) :
    store.Remains store :=
  ⟨steady, rfl, id⟩

/-- A store remains from one thing to the next. -/
theorem Remains.trans
    {middle : Store}
    (first : store.Remains middle)
    (second : middle.Remains left) :
    store.Remains left :=
  ⟨second.steady, second.file.trans first.file, second.connected ∘ first.connected⟩

end Store

namespace Action.Uniform

variable {store : Store} {action : Action α}

/-- Work in a scope of its own is refused, or it is done in a first scope that is ended. -/
theorem streaming_cases
    (uniform : Uniform action)
    (steady : store.Steady) :
    ((streaming action).runOn store).2 = store ∨
      ∃ left kept,
        store.savepoints = [] ∧ store.entering.Undergoes left ∧
          ((streaming action).runOn store).2 = left.ended kept store.tables := by
  have inside (outside : store.savepoints = []) :
      store.entering.Undergoes (action.runOn store.entering).2 := by
    have ready : store.entering.Ready := { steady.entering outside with gate := rfl }
    obtain ⟨outcome, tables, gives⟩ := uniform store.entering.view
    exact (gives store.entering ready.shows).2.2
  rw [runOn_streaming steady fun outside => ?_]
  · by_cases entered : store.entered = true
    · rw [if_pos entered]
      exact .inl rfl
    rw [if_neg entered]
    by_cases closed : store.closed = true
    · rw [if_pos closed]
      exact .inl rfl
    rw [if_neg closed]
    have outside := steady.outside entered
    exact .inr ⟨_, _, outside, inside outside, rfl⟩
  · refine ⟨(inside outside).ready.alone, ?_⟩
    rw [(inside outside).savepoints]
    exact congrArg (store.tables :: ·) outside

/-- Work in a scope of its own leaves a store to continue. -/
theorem continues_streaming
    (uniform : Uniform action)
    (steady : store.Steady) :
    store.Continues ((streaming action).runOn store).2 := by
  rcases uniform.streaming_cases steady with refused | ⟨left, kept, outside, undergoes, ended⟩
  · rw [refused]
    exact .refl steady
  · have continues := undergoes.continues (steady.entering outside)
    have savepoints : left.savepoints = [store.tables] := by
      rw [continues.savepoints]
      exact congrArg (store.tables :: ·) outside
    obtain ⟨config, locks, closing, closed⟩ := left.ended_same kept store.tables
    rw [ended]
    refine ⟨continues.steady.ended savepoints _, config.trans continues.config,
      closing.trans continues.closing, closed.trans continues.closed, ?_, ?_, trivial⟩
    · rw [outside]
      exact Store.ended_savepoints continues.steady.toAlone _ _
    · rw [locks]
      exact continues.locks

/-- A store remains where it is while work is done in a scope of its own. -/
theorem remains_streaming
    (uniform : Uniform action)
    (steady : store.Steady) :
    store.Remains ((streaming action).runOn store).2 := by
  have after := (uniform.continues_streaming steady).steady
  rcases uniform.streaming_cases steady with refused | ⟨left, kept, -, undergoes, ended⟩
  · rw [refused]
    exact .refl steady
  · have sameFile := congrArg Store.file undergoes.rest
    have isConnected := congrArg Store.connected undergoes.rest
    obtain ⟨-, file, connected⟩ := left.ended_place kept store.tables
    rw [ended] at after ⊢
    exact ⟨after, file.trans sameFile, fun _ => connected.trans isConnected⟩

/-- A change of the store leaves it to continue. -/
theorem continues_writing
    (uniform : Uniform action)
    (steady : store.Steady) :
    store.Continues ((writing action).runOn store).2 := by
  rw [runOn_writing]
  split
  · exact .refl steady
  · exact uniform.continues_streaming steady

end Action.Uniform

namespace Call

variable {store : Store}

/-- A call inside a transaction leaves a store to continue. -/
theorem continues_inside
    (steady : store.Steady)
    (now : Int)
    (call : Call) :
    store.Continues ((call.inside now).runOn store).2 := by
  have ready : store.Ready := { steady with gate := rfl }
  obtain ⟨outcome, tables, gives⟩ := call.inside_uniform now store.view
  exact (gives store ready.shows).2.2.continues steady

/-- A call by itself leaves a store to continue. -/
theorem continues_whole
    (steady : store.Steady)
    (now : Int)
    (call : Call) :
    store.Continues ((call.whole now).runOn store).2 := by
  have uniform := call.inside_uniform now
  cases call with
  | stat text =>
      rw [whole, runOn_ignoring]
      exact passes_clean steady trivial fun path => passes_reading steady trivial (.query _ _)
  | list text =>
      rw [whole, runOn_ignoring]
      refine passes_clean steady trivial fun path => passes_reading steady trivial ?_
      refine .bind (.requireEntry path) fun entry => ?_
      simp only [throw_bind]
      split
      · exact .throw _
      · exact .query _ _
  | snapshot text source? time? =>
      rw [whole, runOn_ignoring, Store.snapshot, runOn_bind, runOn_attempt]
      dsimp only
      rw [runOn_pure]
      exact uniform.continues_writing steady
  | sweep select? =>
      have thorough :
          Uniform (do
            let counts ← Txn.sweep select?
            if select?.isSome then claim .entries
            return counts) := by
        refine .bind (Txn.sweep_uniform select?) fun counts => ?_
        refine .ite (.bind ?_ fun _ => .pure _) (.pure _)
        exact fun view => ⟨.ok ⟨⟩, view.tables, fun store shows => by
          rw [runOn_claim shows.ready.alone]
          refine ⟨rfl, ?_, shows.ready.noting (by simp)⟩
          rw [noting_tables, shows.tables]⟩
      rw [whole, runOn_ignoring]
      exact thorough.continues_writing steady
  | makeDirectories | write | writeFrom | delete | deleteEntry | copy | moveTo
  | setLastModified | setWritable | setLinks | prune | pruneHistory | recover =>
      have continues := uniform.continues_writing steady
      rw [inside, ← runOn_writing_ignoring] at continues
      exact continues

end Call

end VersionStore
