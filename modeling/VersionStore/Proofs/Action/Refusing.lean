import VersionStore.Proofs.Action.Deciding

namespace VersionStore

/-!
# Refusals

An action is refused when it fails with a certain fault and leaves the tables as they were. A
refusal inside a scope is one in a transaction of its own as well.
-/

/-- An action comes to an outcome on a store and leaves the tables. -/
def Store.Replies (store : Store) (action : Action α) (outcome : Except Fault α) : Prop :=
  (action.runOn store).1 = outcome ∧ (action.runOn store).2.tables = store.tables

namespace Action

/-- Inside a scope of a store that gives certain locks an action fails with a fault, and it leaves
the tables. -/
def Refuses
    (setting : Setting)
    (gives : Int → Bool → Bool)
    (start : Tables)
    (action : Action α)
    (fault : Fault) :
    Prop :=
  ∀ store : Store,
    store.InScope setting →
    store.locks.gives = gives →
    store.tables = start →
    store.Alike (action.runOn store).2 ∧ store.Replies action (.error fault)

namespace Refuses

variable
  {setting : Setting}
  {gives : Int → Bool → Bool}
  {start : Tables}
  {fault : Fault}

/-- Work that always fails with the same fault and undoes nothing is refused. -/
theorem of_works
    {action : Action α}
    (works :
      Works setting (· = start) action (fun _ _ => False) fun failure tables =>
        failure = fault ∧ tables = start) :
    Refuses setting gives start action fault := by
  rintro store inScope - rfl
  obtain ⟨alike, ended⟩ := works store inScope rfl
  refine ⟨alike, ?_⟩
  rcases ran : action.runOn store with ⟨failure | value, left⟩
  · rw [ran] at ended
    obtain ⟨rfl, same⟩ := ended
    exact ⟨congrArg Prod.fst ran, (congrArg (fun result => result.2.tables) ran).trans same⟩
  · rw [ran] at ended
    exact ended.elim

/-- What follows a refusal does not happen. -/
theorem stops
    {action : Action α}
    (refuses : Refuses setting gives start action fault)
    (next : α → Action β) :
    Refuses setting gives start (action >>= next) fault := by
  intro store inScope given before
  obtain ⟨alike, outcome, tables⟩ := refuses store inScope given before
  rcases ran : action.runOn store with ⟨failure | value, left⟩
  · rw [ran] at alike outcome tables
    cases outcome
    rw [Store.Replies, runOn_bind, ran]
    exact ⟨alike, rfl, tables⟩
  · rw [ran] at outcome
    cases outcome

/-- An action of which everything is known, and a refusal after it. -/
theorem known
    {action : Action β}
    {next : β → Action α}
    (value : β)
    (works :
      Works setting (· = start) action (fun result tables => result = value ∧ tables = start)
        fun _ _ => False)
    (refuses : Refuses setting gives start (next value) fault) :
    Refuses setting gives start (action >>= next) fault := by
  rintro store inScope given rfl
  obtain ⟨alike, ended⟩ := works store inScope rfl
  rcases ran : action.runOn store with ⟨failure | result, left⟩
  · rw [ran] at ended
    exact ended.elim
  · rw [ran] at alike ended
    obtain ⟨rfl, same⟩ := ended
    obtain ⟨alikeAfter, outcome, tables⟩ :=
      refuses left (alike.inScope inScope) (alike.locks.gives.trans given) same
    rw [Store.Replies, runOn_bind, ran]
    exact ⟨alike.trans alikeAfter, outcome, tables.trans same⟩

/-- A refusal under a lock that is given. -/
theorem locked
    {entry : Entry}
    {exclusive : Bool}
    {action : Action α}
    (isGiven : gives entry.id exclusive = true)
    (refuses : ∀ gives', Refuses setting gives' start action fault) :
    Refuses setting gives start (Action.locked entry exclusive action) fault := by
  rintro store inScope rfl before
  obtain ⟨⟨guard, locks⟩, given⟩ := Option.isSome_iff_exists.mp isGiven
  obtain ⟨alike, outcome, tables⟩ := refuses _ _ (inScope.locked given) rfl before
  rw [Store.Replies, runOn_locked, given]
  exact ⟨alike.unlocked inScope given, outcome, tables⟩

/-- What is refused inside a scope is refused in a transaction of its own. -/
theorem writing
    {store : Store}
    {action : Action α}
    (refuses : Refuses setting store.locks.gives store.tables action fault)
    (idle : store.Idle)
    (staying : store.closing = false)
    (fits : store.Fits setting) :
    store.Replies (Action.writing action) (.error fault) := by
  have inside := (idle.entering idle.outside).inScope (List.cons_ne_nil _ _) fits.entering
  obtain ⟨alike, outcome, -⟩ := refuses store.entering inside rfl rfl
  have free : store.entered = false := idle.entered_eq idle.outside
  have alone := alike.alone inside.toAlone
  have savepoints : (action.runOn store.entering).2.savepoints = [store.tables] := by
    rw [alike.savepoints]
    exact congrArg (store.tables :: ·) idle.outside
  rw [Store.Replies, runOn_writing, if_neg (by simp [staying]),
    runOn_streaming idle.toSteady fun _ => ⟨alone, savepoints⟩, if_neg (by simp [free]),
    if_neg (by simp [idle.opened]), outcome]
  refine ⟨rfl, ?_⟩
  change (Store.ended _ false _).tables = store.tables
  rw [Store.ended_false alone]

end Refuses

/-- Work that never fails replies with its value, if it changes nothing. -/
theorem Works.replies
    {setting : Setting}
    {store : Store}
    {action : Action α}
    {value : α}
    (works :
      Works setting (· = store.tables) action
        (fun result tables => result = value ∧ tables = store.tables) fun _ _ => False)
    (inScope : store.InScope setting) :
    store.Replies action (.ok value) := by
  obtain ⟨-, ended⟩ := works store inScope rfl
  rcases ran : action.runOn store with ⟨fault | result, left⟩
  · rw [ran] at ended
    exact ended.elim
  · rw [ran] at ended
    obtain ⟨rfl, same⟩ := ended
    exact ⟨congrArg Prod.fst ran, (congrArg (fun result => result.2.tables) ran).trans same⟩

end Action

end VersionStore
