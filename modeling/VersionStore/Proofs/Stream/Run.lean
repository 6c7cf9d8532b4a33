import VersionStore.Proofs.Action.Run
import VersionStore.Stream.Basic

namespace VersionStore

/-!
# Running stream actions

What comes of running an action on a stream and its store, by the way the action is put
together. `StreamAction.Keeps` says that an action keeps a condition on the two, whether
it succeeds or not, and `StreamAction.Yields` that it succeeds and what it leaves then.
-/

namespace StreamAction

variable {stream : σ} {store : Store}

/-- Running what follows an action starts where the action left stream and store. -/
theorem runOn_bind
    (action : StreamAction σ α)
    (next : α → StreamAction σ β)
    (stream : σ)
    (store : Store) :
    (action >>= next).runOn stream store =
      match action.runOn stream store with
      | (.ok value, left) => (next value).runOn left.1 left.2
      | (.error fault, left) => (.error fault, left) := by
  simp only [runOn, Id.run, ExceptT.run, bind, ExceptT.bind, ExceptT.mk, StateT.bind,
    StateT.run]
  rcases action (stream, store) with ⟨fault | value, left⟩ <;> rfl

/-- Nothing follows a failure. -/
@[simp] theorem throw_bind
    (fault : Fault)
    (next : α → StreamAction σ β) :
    (throw fault : StreamAction σ α) >>= next = throw fault :=
  rfl

/-- The stream is given as it is. -/
@[simp] theorem runOn_current
    (stream : σ)
    (store : Store) :
    (current : StreamAction σ σ).runOn stream store = (.ok stream, stream, store) :=
  rfl

/-- The stream is changed, and the store stays. -/
@[simp] theorem runOn_change
    (next : σ → σ)
    (stream : σ)
    (store : Store) :
    (change next).runOn stream store = (.ok ⟨⟩, next stream, store) :=
  rfl

/-- The store is changed, and the stream stays. -/
@[simp] theorem runOn_onStore
    (action : Action α)
    (stream : σ)
    (store : Store) :
    (onStore action : StreamAction σ α).runOn stream store =
      ((action.runOn store).1, stream, (action.runOn store).2) :=
  rfl

/-- An attempt does what its action does and never fails. -/
@[simp] theorem runOn_attempt
    (action : StreamAction σ α)
    (stream : σ)
    (store : Store) :
    (attempt action).runOn stream store =
      (.ok (action.runOn stream store).1, (action.runOn stream store).2) :=
  rfl

/-- An outcome that is handed on does nothing. -/
@[simp] theorem runOn_ofExcept
    (outcome : Except Fault α)
    (stream : σ)
    (store : Store) :
    (ofExcept outcome : StreamAction σ α).runOn stream store = (outcome, stream, store) := by
  cases outcome <;> rfl

/-- A condition on a stream and its store is kept. -/
def Keeps (holds : σ → Store → Prop) (action : StreamAction σ α) : Prop :=
  ∀ stream store,
    holds stream store →
    holds (action.runOn stream store).2.1 (action.runOn stream store).2.2

namespace Keeps

variable {holds : σ → Store → Prop}

/-- A value alone. -/
theorem pure
    (value : α) :
    Keeps holds (Pure.pure value) :=
  fun _ _ before => before

/-- A failure alone. -/
theorem throw
    (fault : Fault) :
    Keeps holds (MonadExcept.throw fault : StreamAction σ α) :=
  fun _ _ before => before

/-- An outcome that is handed on. -/
theorem ofExcept
    (outcome : Except Fault α) :
    Keeps holds (MonadExcept.ofExcept outcome : StreamAction σ α) := by
  intro stream store before
  rw [runOn_ofExcept]
  exact before

/-- One action and what follows it. -/
theorem bind
    {action : StreamAction σ α}
    {next : α → StreamAction σ β}
    (first : Keeps holds action)
    (second : ∀ value, Keeps holds (next value)) :
    Keeps holds (action >>= next) := by
  intro stream store before
  have middle := first stream store before
  rw [runOn_bind]
  rcases ran : action.runOn stream store with ⟨fault | value, left⟩
  · rw [ran] at middle
    exact middle
  · rw [ran] at middle
    exact second value left.1 left.2 middle

/-- An attempt. -/
theorem attempt
    {action : StreamAction σ α}
    (keeps : Keeps holds action) :
    Keeps holds (StreamAction.attempt action) :=
  keeps

/-- A look at the stream. -/
theorem current
    {next : σ → StreamAction σ α}
    (keeps :
      ∀ stream store,
        holds stream store →
        holds ((next stream).runOn stream store).2.1 ((next stream).runOn stream store).2.2) :
    Keeps holds (StreamAction.current >>= next) := by
  intro stream store before
  rw [runOn_bind]
  exact keeps stream store before

/-- A change of the stream. -/
theorem change
    {next : σ → σ}
    (keeps : ∀ stream store, holds stream store → holds (next stream) store) :
    Keeps holds (StreamAction.change next) :=
  keeps

/-- Something done to the store. -/
theorem onStore
    {action : Action α}
    (keeps : ∀ stream store, holds stream store → holds stream (action.runOn store).2) :
    Keeps holds (StreamAction.onStore action) :=
  keeps

end Keeps

/-- From every stream and store that meet a condition an action succeeds, and its value and what
it leaves meet another. -/
def Yields
    (pre : σ → Store → Prop)
    (action : StreamAction σ α)
    (post : α → σ → Store → Prop) :
    Prop :=
  ∀ stream store,
    pre stream store →
    ∃ value stream' store',
      action.runOn stream store = (.ok value, stream', store') ∧ post value stream' store'

namespace Yields

variable {pre : σ → Store → Prop}

/-- A value alone. -/
theorem pure
    {value : α}
    {post : α → σ → Store → Prop}
    (holds : ∀ stream store, pre stream store → post value stream store) :
    Yields pre (Pure.pure value) post :=
  fun stream store before => ⟨value, stream, store, rfl, holds stream store before⟩

/-- One action and what follows it. -/
theorem bind
    {action : StreamAction σ α}
    {next : α → StreamAction σ β}
    {post : β → σ → Store → Prop}
    (middle : α → σ → Store → Prop)
    (first : Yields pre action middle)
    (second : ∀ value, Yields (middle value) (next value) post) :
    Yields pre (action >>= next) post := by
  intro stream store before
  obtain ⟨value, stream', store', ran, reached⟩ := first stream store before
  rw [runOn_bind, ran]
  exact second value stream' store' reached

/-- What more is asked for, and what less is promised. -/
theorem weaken
    {action : StreamAction σ α}
    {pre' : σ → Store → Prop}
    {post post' : α → σ → Store → Prop}
    (yields : Yields pre' action post')
    (stronger : ∀ stream store, pre stream store → pre' stream store)
    (weaker : ∀ value stream store, post' value stream store → post value stream store) :
    Yields pre action post := by
  intro stream store before
  obtain ⟨value, stream', store', ran, reached⟩ := yields stream store (stronger _ _ before)
  exact ⟨value, stream', store', ran, weaker _ _ _ reached⟩

/-- What follows from the condition may be used. -/
theorem assuming
    {action : StreamAction σ α}
    {post : α → σ → Store → Prop}
    (fact : Prop)
    (holds : ∀ stream store, pre stream store → fact)
    (yields : fact → Yields pre action post) :
    Yields pre action post :=
  fun stream store before => yields (holds stream store before) stream store before

/-- A look at the stream. -/
theorem current
    {next : σ → StreamAction σ α}
    {post : α → σ → Store → Prop}
    (yields : ∀ seen, Yields (fun stream store => pre stream store ∧ stream = seen) (next seen) post) :
    Yields pre (StreamAction.current >>= next) post := by
  intro stream store before
  rw [runOn_bind]
  exact yields stream stream store ⟨before, rfl⟩

/-- A change of the stream. -/
theorem change
    {next : σ → σ}
    {post : PUnit → σ → Store → Prop}
    (holds : ∀ stream store, pre stream store → post ⟨⟩ (next stream) store) :
    Yields pre (StreamAction.change next) post :=
  fun stream store before => ⟨⟨⟩, next stream, store, rfl, holds stream store before⟩

/-- Something done to the store that succeeds. -/
theorem onStore
    {action : Action α}
    {post : α → σ → Store → Prop}
    (holds :
      ∀ stream store,
        pre stream store →
        ∃ value left, action.runOn store = (.ok value, left) ∧ post value stream left) :
    Yields pre (StreamAction.onStore action) post := by
  intro stream store before
  obtain ⟨value, left, ran, reached⟩ := holds stream store before
  exact ⟨value, stream, left, by rw [runOn_onStore, ran], reached⟩

/-- An attempt hands the value over. -/
theorem attempt
    {action : StreamAction σ α}
    {post : α → σ → Store → Prop}
    (yields : Yields pre action post) :
    Yields pre (StreamAction.attempt action)
      fun outcome stream store => ∃ value, outcome = .ok value ∧ post value stream store := by
  intro stream store before
  obtain ⟨value, stream', store', ran, reached⟩ := yields stream store before
  exact ⟨.ok value, stream', store', by rw [runOn_attempt, ran], value, rfl, reached⟩

end Yields

end StreamAction

end VersionStore
