import VersionStore.Proofs.Host.Apart
import VersionStore.Proofs.Session.Tree
import VersionStore.Proofs.Session.Uniform

namespace VersionStore

/-!
# Scopes in scopes

A transaction is a scope with calls and further scopes in it, each of which returns,
fails or panics on its own account. All that is left of the whole is what its calls
would have done without any scope, of those calls whose scopes have all returned.

While a scope is open nothing else is let into its store on the same thread.
-/

open VersionStore.Action

/-! ## What is done in a scope -/

/-- How the body of a scope comes to an end. -/
inductive Ending where
  | returned
  | failed
  | panicked
  deriving DecidableEq

/-- A scope keeps its work when its body returns. A failure undoes it, and so does a
panic that unwinds through the scope. -/
def Ending.keeps : Ending → Bool
  | returned => true
  | failed | panicked => false

/-- Calls and scopes, one after the other, each call with a reading of the clock. -/
inductive Script where
  | done
  | call (now : Int) (call : Call) (rest : Script)
  | scope (body : Script) (ending : Ending) (rest : Script)

/-- One thing that is done to a store in the course of a script. -/
inductive ScriptStep where
  | opens
  | call (now : Int) (call : Call)
  | closes (kept : Bool)

namespace ScriptStep

/-- Do one thing. The first scope is a transaction of the store, and those in it are
scopes of that transaction. What a call comes to is for the body to see. -/
def run : ScriptStep → Action Unit
  | opens => do
      if (← get).savepoints.isEmpty then beginWriting else beginScope
  | call now made => do
      let _ ← attempt (made.inside now)
  | closes kept => do
      if (← get).savepoints.length = 1 then endWriting kept else endScope kept

/-- Do one thing after the other. -/
def runAll : List ScriptStep → Action Unit
  | [] => pure ()
  | step :: rest => do
      step.run
      runAll rest

end ScriptStep

namespace Script

/-- Everything that a script does, in order. -/
def steps : Script → List ScriptStep
  | done => []
  | call now made rest => .call now made :: rest.steps
  | scope body ending rest => .opens :: (body.steps ++ .closes ending.keeps :: rest.steps)

/-- The calls of a script whose scopes in it have all returned, without these scopes. -/
def surviving : Script → List ScriptStep
  | done => []
  | call now made rest => .call now made :: rest.surviving
  | scope body ending rest =>
      (if ending.keeps then body.surviving else []) ++ rest.surviving

end Script

/-! ## What is asked past the scope -/

/-- Something that is asked of a store, not of the transaction that is open on it. -/
inductive Request where
  | transaction
  | call (now : Int) (call : Call)
  | ask (question : Question)
  | openWriter (now : Int) (text : String) (append : Bool)
  | openReader (text : String)
  | openReaderOf (entry : Entry)

namespace Request

/-- Put a request, and tell whether it was granted. A snapshot tells so itself. -/
def send : Request → Action Bool
  | transaction => do
      beginWriting
      return true
  | call now (.snapshot text source? time?) => Store.snapshot now text source? time?
  | call now made => do
      made.whole now
      return true
  | ask question => do
      question.ask
      return true
  | openWriter now text append => do
      let _ ← Writer.openPath now text append
      return true
  | openReader text => do
      let _ ← Reader.openPath text
      return true
  | openReaderOf entry => do
      let _ ← Reader.openEntry entry
      return true

/-- A change is refused once a close has begun. -/
def unlessClosing (store : Store) : Except Fault Unit :=
  if store.closing then .error .closed else .ok ()

/-- What a request looks at before it reaches the database. -/
def checked (store : Store) : Request → Except Fault Unit
  | transaction => unlessClosing store
  | call _ (.stat text) | call _ (.list text) => do
      let _ ← CleanPath.ofText text
  | call _ _ => unlessClosing store
  | ask (.linksFrom text) | ask (.linksTo text) | ask (.verify text) | ask (.copyOut text _) => do
      let _ ← CleanPath.ofText text
  | ask _ => .ok ()
  | openWriter _ text _ => do
      let _ ← CleanPath.ofText text
      unlessClosing store
  | openReader text => do
      let _ ← CleanPath.ofText text
  | openReaderOf entry => if entry.isDirectory then .error (.notAFile entry.name) else .ok ()

/-- The answer to a request from inside an open scope: a request that reaches the database
is refused as a re-entry. A snapshot tells that it was not made. -/
def refusal (store : Store) : Request → Except Fault Bool
  | call _ (.snapshot _ _ _) => .ok false
  | request => do
      request.checked store
      .error .reentered

/-- The answer to a request that does not get to the database, for some reason. -/
def unreached (store : Store) (fault : Fault) : Request → Except Fault Bool
  | call _ (.snapshot _ _ _) => .ok false
  | request => do
      request.checked store
      .error fault

variable {store : Store} {fault : Fault}

/-- The gate lets nobody through, for some reason. -/
def Barred (store : Store) (fault : Fault) : Prop :=
  ∀ {α : Type} (next : PUnit → Action α), (enter >>= next).runOn store = (.error fault, store)

/-- Nobody gets through a gate that is taken. -/
theorem runOn_enter_entered
    (entered : store.entered = true)
    (next : PUnit → Action α) :
    (enter >>= next).runOn store = (.error .reentered, store) := by
  rw [runOn_bind, enter, runOn_bind, runOn_get]
  dsimp only
  rw [if_pos entered]
  rfl

/-- No change gets through a gate that lets nobody through. -/
theorem runOn_writing_barred
    {α : Type}
    (barred : Barred store fault)
    (action : Action α) :
    (writing action).runOn store =
      (do
        unlessClosing store
        .error fault, store) := by
  rw [runOn_writing, unlessClosing, streaming, reading, barred]
  split <;> rfl

/-- Nothing follows a refusal. -/
theorem runOn_bind_refused
    {action : Action α}
    {next : α → Action β}
    {check : Except Fault Unit}
    {fault : Fault}
    (refused : action.runOn store = (do check; .error fault, store)) :
    (action >>= next).runOn store = (do check; .error fault, store) := by
  rw [runOn_bind, refused]
  cases check <;> rfl

/-- A path is cleaned before the gate is reached. -/
theorem runOn_clean_bind
    (text : String)
    {next : CleanPath → Action α}
    {check : Except Fault Unit}
    {fault : Fault}
    (refused : ∀ path, (next path).runOn store = (do check; .error fault, store)) :
    (Txn.clean text >>= next).runOn store =
      (do
        (do
          let _ ← CleanPath.ofText text
          check)
        .error fault, store) := by
  rw [runOn_bind, Txn.clean, runOn_ofExcept]
  cases CleanPath.ofText text with
  | error fault =>
      rfl
  | ok path =>
      exact refused path

/-- While the gate lets nobody through every request is refused and does nothing. -/
theorem runOn_send_barred
    (barred : Barred store fault)
    (request : Request) :
    request.send.runOn store = (request.unreached store fault, store) := by
  have asking {α : Type} (action : Action α) :
      (reading action).runOn store = (do (.ok () : Except Fault Unit); .error fault, store) :=
    barred _
  have changing {α : Type} (action : Action α) :
      (ignoring (writing action)).runOn store =
        (do unlessClosing store; .error fault, store) :=
    runOn_bind_refused (runOn_writing_barred barred action)
  cases request with
  | transaction =>
      refine runOn_bind_refused ?_
      rw [beginWriting, runOn_bind, refuseClosing, runOn_bind, runOn_get, checked,
        unlessClosing]
      dsimp only
      cases store.closing with
      | true =>
          rfl
      | false =>
          exact barred _
  | call now call =>
      cases call with
      | stat text | list text =>
          exact runOn_bind_refused <| runOn_bind_refused <| runOn_clean_bind text fun _ => asking _
      | snapshot text source? time? =>
          rw [send, Store.snapshot, runOn_bind, runOn_attempt, runOn_writing_barred barred]
          dsimp only
          rw [runOn_pure, unreached, unlessClosing]
          split <;> rfl
      | _ =>
          exact runOn_bind_refused (changing _)
  | ask question =>
      cases question with
      | linksFrom text | linksTo text | verify text | copyOut text =>
          exact runOn_bind_refused <| runOn_bind_refused <| runOn_clean_bind text fun _ => asking _
      | _ =>
          exact runOn_bind_refused <| runOn_bind_refused <| asking _
  | openWriter now text append =>
      refine runOn_bind_refused <| runOn_clean_bind text fun path => ?_
      exact runOn_bind_refused (runOn_writing_barred barred _)
  | openReader text =>
      exact runOn_bind_refused <| runOn_clean_bind text fun _ => asking _
  | openReaderOf entry =>
      refine runOn_bind_refused ?_
      rw [Reader.openEntry, checked]
      split
      · rfl
      · exact asking _

/-- While the gate is taken every request is refused and does nothing. -/
theorem runOn_send_entered
    (entered : store.entered = true)
    (request : Request) :
    request.send.runOn store = (request.refusal store, store) := by
  have same : request.refusal store = request.unreached store .reentered := by
    unfold refusal unreached
    split <;> rfl
  rw [same]
  exact runOn_send_barred (runOn_enter_entered entered) request

end Request

/-! ## Running a script -/

namespace ScriptStep

open Store (View)

variable {store left : Store} {view : View} {tables final : Tables}

/-- Steps that are done are followed by those behind them. -/
theorem runOn_runAll_append
    {first second : List ScriptStep}
    (ran : (runAll first).runOn store = (.ok ⟨⟩, left)) :
    (runAll (first ++ second)).runOn store = (runAll second).runOn left := by
  induction first generalizing store with
  | nil =>
      cases ran
      rfl
  | cons step rest inductionHypothesis =>
      rw [runAll, runOn_bind] at ran
      rw [List.cons_append, runAll, runOn_bind]
      rcases stepped : step.run.runOn store with ⟨fault | value, middle⟩
      · rw [stepped] at ran
        cases ran
      · rw [stepped] at ran
        exact inductionHypothesis ran

/-- One step is followed by those behind it. -/
theorem runOn_runAll_cons
    {step : ScriptStep}
    {rest : List ScriptStep}
    (ran : step.run.runOn store = (.ok ⟨⟩, left)) :
    (runAll (step :: rest)).runOn store = (runAll rest).runOn left := by
  rw [runAll, runOn_bind, ran]

/-- A call leaves what follows from what it sees. -/
theorem call_gives
    (view : View)
    (now : Int)
    (made : Call) :
    ∃ tables, Gives view (call now made).run (.ok ⟨⟩) tables := by
  obtain ⟨outcome, tables, gives⟩ := made.inside_uniform now view
  exact ⟨tables, gives.attempt.bind_ok fun store shows =>
    ⟨rfl, shows.tables, shows.ready.undergoes⟩⟩

/-- What follows from what steps see follows from what each of them sees. -/
theorem gives_append
    {first second : List ScriptStep}
    (gives : Gives view (runAll first) (.ok ⟨⟩) tables)
    (givesNext : Gives { view with tables } (runAll second) (.ok ⟨⟩) final) :
    Gives view (runAll (first ++ second)) (.ok ⟨⟩) final := by
  intro store shows
  obtain ⟨gave, isTables, undergoes⟩ := gives store shows
  have ran : (runAll first).runOn store = (.ok ⟨⟩, ((runAll first).runOn store).2) :=
    Prod.ext gave rfl
  rw [runOn_runAll_append ran]
  obtain ⟨gaveNext, isFinal, undergoesNext⟩ := givesNext _ (undergoes.shows shows isTables)
  exact ⟨gaveNext, isFinal, undergoes.trans undergoesNext⟩

/-- Inside a scope another one begins. -/
theorem runOn_opens
    (opened : store.savepoints ≠ []) :
    opens.run.runOn store =
      (.ok ⟨⟩, { store with savepoints := store.tables :: store.savepoints }) := by
  rw [run, runOn_bind, runOn_get]
  dsimp only
  rw [if_neg (by simpa using opened)]
  rfl

/-- A scope inside another one ends. -/
theorem runOn_closes
    {saved : Tables}
    {outer : List Tables}
    (around : store.savepoints = saved :: outer)
    (inner : outer ≠ [])
    (kept : Bool) :
    (closes kept).run.runOn store = (endScope kept).runOn store := by
  have more : ¬store.savepoints.length = 1 := by
    simpa [around] using inner
  rw [run, runOn_bind, runOn_get]
  dsimp only
  rw [if_neg more]

end ScriptStep

namespace Script

open ScriptStep
open Store (View)

variable {store : Store}

/-- In an open scope a script leaves what its surviving calls leave without its scopes. -/
theorem runs_surviving
    (script : Script)
    (view : View) :
    ∃ tables,
      Gives view (runAll script.surviving) (.ok ⟨⟩) tables ∧
        ∀ store : Store,
          store.Shows view →
          store.savepoints ≠ [] →
          ∃ left,
            (runAll script.steps).runOn store = (.ok ⟨⟩, left) ∧
              left.tables = tables ∧ store.Undergoes left := by
  induction script generalizing view with
  | done =>
      refine ⟨view.tables, fun store shows => ⟨rfl, shows.tables, shows.ready.undergoes⟩, ?_⟩
      exact fun store shows _ => ⟨store, rfl, shows.tables, shows.ready.undergoes⟩
  | call now made rest inductionHypothesis =>
      obtain ⟨tables, called⟩ := call_gives view now made
      obtain ⟨final, survives, runs⟩ := inductionHypothesis { view with tables }
      refine ⟨final, called.bind_ok survives, fun store shows opened => ?_⟩
      obtain ⟨gave, isTables, undergoes⟩ := called store shows
      obtain ⟨left, ran, isFinal, undergone⟩ :=
        runs _ (undergoes.shows shows isTables) (by rwa [undergoes.savepoints])
      refine ⟨left, ?_, isFinal, undergoes.trans undergone⟩
      rw [steps, runOn_runAll_cons (Prod.ext gave rfl)]
      exact ran
  | scope body ending rest bodyHypothesis restHypothesis =>
      obtain ⟨inner, innerSurvives, innerRuns⟩ := bodyHypothesis view
      obtain ⟨final, survives, runs⟩ :=
        restHypothesis { view with tables := if ending.keeps then inner else view.tables }
      refine ⟨final, ?_, fun store shows opened => ?_⟩
      · rw [surviving]
        cases keeps : ending.keeps with
        | true =>
            rw [keeps] at survives
            exact gives_append innerSurvives survives
        | false =>
            rw [keeps] at survives
            exact survives
      · obtain ⟨left, ran, isInner, within⟩ :=
          innerRuns { store with savepoints := store.tables :: store.savepoints }
            ⟨shows.ready.begun, shows.config, shows.locks, shows.tables⟩ (List.cons_ne_nil _ _)
        obtain ⟨after, ended, undergoes, isTables⟩ := within.endScope ending.keeps
        rw [isInner, shows.tables] at isTables
        obtain ⟨last, ranRest, isFinal, undergone⟩ :=
          runs after (undergoes.shows shows isTables) (by rwa [undergoes.savepoints])
        refine ⟨last, ?_, isFinal, undergoes.trans undergone⟩
        rw [steps, runOn_runAll_cons (runOn_opens opened), runOn_runAll_append ran,
          runOn_runAll_cons]
        · exact ranRest
        · rw [runOn_closes within.savepoints opened]
          exact ended

/-- What is left in the middle of a script that is run in an open scope. -/
structure Within (store inside : Store) : Prop where
  ready : inside.Ready
  opened : inside.savepoints ≠ []
  entered : inside.entered = store.entered
  file : inside.file = store.file

/-- Work in an open scope stays within it. -/
theorem Within.undergoes
    {before after : Store}
    (within : Within store before)
    (undergoes : before.Undergoes after) :
    Within store after where
  ready := undergoes.ready
  opened := by
    rw [undergoes.savepoints]
    exact within.opened
  entered := undergoes.entered.trans within.entered
  file := by
    have same := congrArg Store.file undergoes.rest
    exact Eq.trans same within.file

/-- At no point of a script in an open scope is that scope left. -/
theorem within_of_steps
    (script : Script)
    {inside : Store}
    (within : Within store inside)
    {before after : List ScriptStep}
    (steps : script.steps = before ++ after) :
    ∃ left, (runAll before).runOn inside = (.ok ⟨⟩, left) ∧ Within store left := by
  induction script generalizing inside before after with
  | done =>
      obtain ⟨rfl, rfl⟩ := List.append_eq_nil_iff.mp steps.symm
      exact ⟨inside, rfl, within⟩
  | call now made rest inductionHypothesis =>
      rcases List.cons_eq_append_iff.mp steps with ⟨rfl, -⟩ | ⟨later, rfl, split⟩
      · exact ⟨inside, rfl, within⟩
      · obtain ⟨tables, called⟩ := call_gives inside.view now made
        obtain ⟨gave, -, undergoes⟩ := called inside within.ready.shows
        rw [runOn_runAll_cons (Prod.ext gave rfl)]
        exact inductionHypothesis (within.undergoes undergoes) split
  | scope body ending rest bodyHypothesis restHypothesis =>
      rcases List.cons_eq_append_iff.mp steps with ⟨rfl, -⟩ | ⟨later, rfl, split⟩
      · exact ⟨inside, rfl, within⟩
      · have begun :
            Within store { inside with savepoints := inside.tables :: inside.savepoints } :=
          ⟨within.ready.begun, List.cons_ne_nil _ _, within.entered, within.file⟩
        rw [runOn_runAll_cons (runOn_opens within.opened)]
        rcases List.append_eq_append_iff.mp split with
          ⟨beyond, rfl, behind⟩ | ⟨beyond, isBody, -⟩
        · obtain ⟨inner, -, runs⟩ := body.runs_surviving inside.view
          obtain ⟨left, ran, -, undergoes⟩ :=
            runs _ ⟨begun.ready, rfl, .refl _, rfl⟩ begun.opened
          rw [runOn_runAll_append ran]
          rcases List.cons_eq_append_iff.mp behind with ⟨rfl, -⟩ | ⟨last, rfl, isRest⟩
          · exact ⟨left, rfl, begun.undergoes undergoes⟩
          · obtain ⟨after, ended, undergone, -⟩ := undergoes.endScope ending.keeps
            rw [runOn_runAll_cons
              ((runOn_closes undergoes.savepoints within.opened _).trans ended)]
            exact restHypothesis (within.undergoes undergone) isRest
        · exact bodyHypothesis begun isBody

/-! ## A scope as a whole -/

/-- A store whose gate is entered, unless a scope is open on it already. -/
def admitted (store : Store) : Store :=
  if store.savepoints = [] then { store with entered := true, connected := true } else store

/-- A scope begins on a store between two operations. -/
theorem runOn_opens_steady
    (steady : store.Steady)
    (free : store.savepoints = [] → store.closing = false ∧ store.closed = false) :
    (admitted store).Ready ∧ (admitted store).entered = true ∧
      opens.run.runOn store =
        (.ok ⟨⟩, { admitted store with savepoints := store.tables :: store.savepoints }) := by
  unfold admitted
  by_cases outside : store.savepoints = []
  · obtain ⟨notClosing, notClosed⟩ := free outside
    have left : ¬store.entered = true := by simp [steady.gate, outside]
    rw [if_pos outside]
    refine ⟨{ steady with gate := rfl }, rfl, ?_⟩
    rw [ScriptStep.run, runOn_bind, runOn_get]
    dsimp only
    rw [if_pos (by simp [outside]), runOn_beginWriting steady.toAlone, if_neg (by simp [notClosing]),
      if_neg left, if_neg (by simp [notClosed])]
    rfl
  · rw [if_neg outside]
    exact ⟨{ steady with gate := rfl }, steady.entered outside, runOn_opens outside⟩

/-- The scope ends as it began: the store is as it was but for the work that is kept. -/
theorem runOn_closes_steady
    (steady : store.Steady)
    {inside : Store}
    (undergoes :
      Store.Undergoes
        { admitted store with savepoints := (admitted store).tables :: (admitted store).savepoints }
        inside)
    (kept : Bool) :
    ∃ left,
      (closes kept).run.runOn inside = (.ok ⟨⟩, left) ∧
        left.tables = (if kept then inside.tables else store.tables) ∧
          left.savepoints = store.savepoints ∧ left.entered = store.entered ∧
            store.locks.Same left.locks ∧ left.access ≠ .stuck ∧
              left.kept = if store.savepoints = [] then left.tables else store.kept := by
  obtain ⟨left, ended, undergone, isTables⟩ := undergoes.endScope kept
  unfold admitted at undergoes undergone isTables
  by_cases outside : store.savepoints = []
  · rw [if_pos outside] at undergoes undergone isTables
    have around : inside.savepoints = [store.tables] := by
      rw [undergoes.savepoints, outside]
    refine ⟨{ left with entered := false }, ?_, isTables, undergone.savepoints, ?_,
      undergone.locks, undergone.ready.free, ?_⟩
    · rw [ScriptStep.run, runOn_bind, runOn_get]
      dsimp only
      rw [if_pos (by simp [around]), endWriting, runOn_leaveAfter, ended]
    · simp [steady.gate, outside]
    · rw [if_pos outside]
      exact undergone.kept_eq_tables outside
  · rw [if_neg outside] at undergoes undergone isTables
    refine ⟨left, ?_, isTables, undergone.savepoints, undergone.entered, undergone.locks,
      undergone.ready.free, ?_⟩
    · rw [runOn_closes undergoes.savepoints outside]
      exact ended
    · rw [if_neg outside]
      exact undergone.kept outside

/-- The store is as it was before a scope but for its tables. -/
structure Resumes (store left : Store) : Prop where
  savepoints : left.savepoints = store.savepoints
  depth : left.depth = store.depth
  entered : left.entered = store.entered
  locks : store.locks.Same left.locks

/-- Nobody else gets into a store with an open scope, and nobody on another file minds. -/
structure Shuts (store inside : Store) : Prop where
  refused : ∀ request : Request, request.send.runOn inside = (request.refusal inside, inside)
  elsewhere :
    ∀ (host : Host) (id other : StoreId),
      other ≠ id →
      (host.store id).file = store.file →
      (∀ name, store.file = some name → (host.files.lookup name).isSome = true) →
      (∀ name, store.file = some name → host.IsApart (host.store other) name) →
      ∀ (α : Type) (action : Action α),
        ((host.keep id inside).runOn other action).1 = (host.runOn other action).1 ∧
          ((host.keep id inside).runOn other action).2.store other =
            (host.runOn other action).2.store other

/-- A scope on a store between two operations, with calls and scopes in it, leaves what its
surviving calls leave without any of the scopes. The scopes open, the gate and the locks are
then as before. As long as the scope is open nobody else gets in. -/
theorem scope_runs_surviving
    (steady : store.Steady)
    (free : store.savepoints = [] → store.closing = false ∧ store.closed = false)
    (body : Script)
    (ending : Ending) :
    let scope := Script.scope body ending .done
    let left := ((runAll scope.steps).runOn store).2
    let bare := ((runAll scope.surviving).runOn store).2
    ((runAll scope.steps).runOn store).1 = .ok ⟨⟩ ∧
      left.tables = bare.tables ∧ left.kept = bare.kept ∧ Resumes store left ∧
      ∀ before after,
        scope.steps = before ++ after →
        before ≠ [] →
        after ≠ [] →
        Shuts store ((runAll before).runOn store).2 := by
  obtain ⟨admittedReady, entered, opens⟩ := runOn_opens_steady steady free
  have same : (admitted store).rest.file = store.file ∧ (admitted store).view = store.view ∧
      (admitted store).savepoints = store.savepoints := by
    unfold admitted
    split <;> exact ⟨rfl, rfl, rfl⟩
  obtain ⟨sameFile, sameView, sameSavepoints⟩ := same
  have sameTables : (admitted store).tables = store.tables :=
    congrArg Store.View.tables sameView
  rw [← sameTables, ← sameSavepoints] at opens
  obtain ⟨inner, survives, runs⟩ := body.runs_surviving store.view
  have begun := admittedReady.begun
  obtain ⟨inside, ran, isInner, undergoes⟩ := runs _ (sameView ▸ begun.shows) (List.cons_ne_nil _ _)
  obtain ⟨left, closed, isLeft, savepoints, gate, locks, notStuck, isKept⟩ :=
    runOn_closes_steady steady undergoes ending.keeps
  have done : (runAll (Script.scope body ending .done).steps).runOn store = (.ok ⟨⟩, left) := by
    rw [steps, runOn_runAll_cons opens, runOn_runAll_append ran, runOn_runAll_cons closed]
    rfl
  have ready : store.Ready :=
    { steady with gate := rfl }
  have bare : Gives store.view (runAll (Script.scope body ending .done).surviving) (.ok ⟨⟩)
      left.tables := by
    simp only [surviving, List.append_nil]
    cases keeps : ending.keeps with
    | true =>
        rw [isLeft, keeps, if_pos rfl, if_pos rfl, isInner]
        exact survives
    | false =>
        rw [isLeft, keeps, if_neg Bool.false_ne_true, if_neg Bool.false_ne_true]
        exact fun other shows => ⟨rfl, shows.tables, shows.ready.undergoes⟩
  obtain ⟨-, bareTables, bareUndergoes⟩ := bare store ready.shows
  dsimp only
  rw [done]
  refine ⟨rfl, bareTables.symm, ?_, ⟨savepoints, ?_, gate, locks⟩, ?_⟩
  · by_cases outside : store.savepoints = []
    · rw [isKept, if_pos outside, bareUndergoes.kept_eq_tables outside, bareTables]
    · rw [isKept, if_neg outside, bareUndergoes.kept outside]
  · rw [Store.depth, Store.depth, if_neg notStuck, if_neg steady.free, savepoints]
  · intro before after isScope begins more
    obtain ⟨later, rfl, split⟩ := (List.cons_eq_append_iff.mp isScope).resolve_left fun none =>
      begins none.1
    have isBody : ∃ beyond, body.steps = later ++ beyond := by
      rcases List.append_eq_append_iff.mp split with ⟨beyond, rfl, behind⟩ | ⟨beyond, isBody, -⟩
      · obtain ⟨rfl, -⟩ | ⟨last, -, absurd⟩ := List.cons_eq_append_iff.mp behind
        · exact ⟨[], by simp⟩
        · exact (more (List.append_eq_nil_iff.mp absurd.symm).2).elim
      · exact ⟨beyond, isBody⟩
    obtain ⟨beyond, isBody⟩ := isBody
    obtain ⟨moment, reached, within⟩ :=
      body.within_of_steps ⟨begun, List.cons_ne_nil _ _, rfl, rfl⟩ isBody
    rw [runOn_runAll_cons opens, reached]
    have isFile : moment.file = store.file := within.file.trans sameFile
    refine ⟨Request.runOn_send_entered (within.entered.trans entered), ?_⟩
    intro host id other different hasFile there apart α action
    rw [← isFile] at hasFile there apart
    exact Host.runOn_keep hasFile.symm there different apart action

/-- Of two directories that a transaction makes, the one is gone whose scope panics. -/
theorem scope_survives_makeDirectories :
    let store := Session.opened {} false (Tables.seed ({} : Config).roots 0)
    let made := ScriptStep.call 2 (.makeDirectories "home/b")
    let body :=
      Script.scope (.call 1 (.makeDirectories "home/a") .done) .panicked
        (.call 2 (.makeDirectories "home/b") .done)
    let left := ((runAll (scope body .returned .done).steps).runOn store).2
    left.tables = ((runAll [made]).runOn store).2.tables ∧ left.depth = store.depth := by
  intro store made body left
  have steady : store.Steady := Session.Sound.steady_opened {} false _
  have survivors : (scope body .returned .done).surviving = [made] := rfl
  obtain ⟨-, tables, -, resumes, -⟩ :=
    scope_runs_surviving steady (fun _ => ⟨rfl, rfl⟩) body .returned
  rw [survivors] at tables
  exact ⟨tables, resumes.depth⟩

end Script

end VersionStore
