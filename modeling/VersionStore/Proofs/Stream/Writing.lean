import VersionStore.Proofs.Action.Scopes
import VersionStore.Proofs.Session.Basic
import VersionStore.Proofs.Stream.Run

namespace VersionStore

/-!
# What writers do

All that a writer does is made of few steps: its watchdog is set, bytes go into its
buffer, a full buffer is stored, and at its close the rest is stored and the lock goes.
What each of these steps keeps, every use of a writer keeps.
-/

open StreamAction

namespace StreamAction

variable {stream : σ} {store : Store}

/-- A stream action in a scope of its own begins it, does its work and ends it. -/
theorem runOn_streaming
    (steady : store.Steady)
    {action : StreamAction σ α}
    (works :
      store.savepoints = [] →
      (action.runOn stream store.entering).2.2.Alone ∧
        (action.runOn stream store.entering).2.2.savepoints = [store.tables]) :
    (streaming action).runOn stream store =
      if store.entered then (.error .reentered, stream, store)
      else if store.closed then (.error .closed, stream, store)
      else
        ((action.runOn stream store.entering).1, (action.runOn stream store.entering).2.1,
          (action.runOn stream store.entering).2.2.ended
            (action.runOn stream store.entering).1.isOk store.tables) := by
  rw [streaming, runOn_bind, runOn_onStore, Action.runOn_enter steady.toAlone]
  by_cases entered : store.entered = true
  · rw [if_pos entered, if_pos entered]
  rw [if_neg entered, if_neg entered]
  by_cases closed : store.closed = true
  · rw [if_pos closed, if_pos closed]
  rw [if_neg closed, if_neg closed]
  obtain ⟨alone, savepoints⟩ := works (steady.outside entered)
  dsimp only
  rw [runOn_bind, runOn_onStore, Action.runOn_beginScope]
  dsimp only
  have inner :
      ({ ({ store with entered := true, connected := true } : Store) with
        savepoints := store.tables :: store.savepoints } : Store) = store.entering := rfl
  dsimp only at inner
  rw [inner, runOn_bind, runOn_attempt]
  rcases ran : action.runOn stream store.entering with ⟨outcome, left, after⟩
  rw [ran] at alone savepoints
  dsimp only
  rw [runOn_bind, runOn_attempt, runOn_onStore,
    Action.runOn_endScope_outermost alone savepoints]
  dsimp only
  rw [runOn_bind, runOn_onStore, Action.runOn_leave]
  dsimp only
  rw [runOn_bind, runOn_ofExcept]
  exact runOn_ofExcept _ _ _

end StreamAction

namespace Writer

/-- A buffer is stored without fail while a store has its database to itself. -/
theorem runOn_storeBuffer
    {store : Store}
    (alone : store.Alone)
    (writer : Writer) :
    ∃ left,
      (storeBuffer writer).runOn store = (.ok ⟨⟩, left) ∧
        left.Alone ∧ left.savepoints = store.savepoints := by
  have wrote (tables : Tables) :
      ((store.noting .writing).withTables tables).Alone ∧
        ((store.noting .writing).withTables tables).savepoints = store.savepoints := by
    unfold Store.noting
    split
    · exact ⟨⟨alone.damage, alone.writable, alone.others⟩, rfl⟩
    · exact ⟨⟨alone.damage, alone.writable, alone.others⟩, rfl⟩
  unfold storeBuffer
  split
  · exact ⟨store, rfl, alone, rfl⟩
  cases writer.tail with
  | some id =>
      exact ⟨_, Action.runOn_update alone _ _, wrote _⟩
  | none =>
      exact ⟨_, Action.runOn_update alone _ _, wrote _⟩

/-- While a store has its database to itself, a part is stored and given up. -/
theorem runOn_storePart
    {writer : Writer}
    {store left : Store}
    (some_ : writer.buffer.isEmpty = false)
    (ran : (storeBuffer writer).runOn store = (.ok ⟨⟩, left)) :
    storePart.runOn writer store = (.ok ⟨⟩, writer.emptied, left) := by
  rw [storePart, runOn_bind, runOn_current]
  dsimp only
  rw [some_]
  simp only [Bool.false_eq_true, if_false]
  rw [runOn_bind, runOn_change]
  dsimp only
  rw [runOn_bind, runOn_onStore, ran]
  dsimp only
  rw [runOn_change, emptied, emptied, untailed]
  dsimp only
  rw [some_, if_neg Bool.false_ne_true, if_neg Bool.false_ne_true]

/-- A full buffer is stored in a scope of its own. -/
theorem runOn_flushFull
    {writer : Writer}
    {store : Store}
    (steady : store.Steady)
    (full : writer.buffer.size = partSize) :
    flushFull.runOn writer store =
      match (Action.streaming (storeBuffer writer)).runOn store with
      | (.ok _, left) => (.ok ⟨⟩, writer.emptied, left)
      | (.error fault, left) => (.error fault, writer, left) := by
  have some_ : writer.buffer.isEmpty = false := by
    have positive := partSize_pos
    rw [← full] at positive
    simpa [ByteArray.isEmpty] using Nat.ne_of_gt positive
  have inside (outside : store.savepoints = []) :
      ∃ left,
        (storeBuffer writer).runOn store.entering = (.ok ⟨⟩, left) ∧
          left.Alone ∧ left.savepoints = [store.tables] := by
    obtain ⟨left, ran, alone, savepoints⟩ :=
      runOn_storeBuffer (steady.entering outside).toAlone writer
    exact ⟨left, ran, alone, savepoints.trans (congrArg (store.tables :: ·) outside)⟩
  rw [flushFull, runOn_bind, runOn_current]
  dsimp only
  rw [if_pos full, StreamAction.runOn_streaming steady fun outside => ?_,
    Action.runOn_streaming steady fun outside => ?_]
  · by_cases entered : store.entered = true
    · rw [if_pos entered, if_pos entered]
    rw [if_neg entered, if_neg entered]
    by_cases closed : store.closed = true
    · rw [if_pos closed, if_pos closed]
    rw [if_neg closed, if_neg closed]
    obtain ⟨left, ran, -⟩ := inside (steady.outside entered)
    rw [runOn_storePart some_ ran, ran]
  · obtain ⟨left, ran, alone, savepoints⟩ := inside outside
    rw [ran]
    exact ⟨alone, savepoints⟩
  · obtain ⟨left, ran, alone, savepoints⟩ := inside outside
    rw [runOn_storePart some_ ran]
    exact ⟨alone, savepoints⟩

/-- A buffer that is not full is not stored. -/
theorem runOn_flushFull_of_room
    {writer : Writer}
    (notFull : writer.buffer.size ≠ partSize)
    (store : Store) :
    flushFull.runOn writer store = (.ok ⟨⟩, writer, store) := by
  rw [flushFull, runOn_bind, runOn_current]
  dsimp only
  rw [if_neg notFull]
  rfl

/-- A condition on a writer and its store that each step of a writer keeps, the store being steady
as long as the writer is open. -/
structure Stable (now : Int) (holds : Writer → Store → Prop) : Prop where
  steady :
    ∀ writer store,
      holds writer store →
      writer.isClosed = false →
      store.Steady
  watched :
    ∀ writer store watchdog,
      holds writer store →
      holds { writer with watchdog } store
  buffered :
    ∀ writer store data,
      holds writer store →
      writer.isClosed = false →
      writer.buffer.size + data.size ≤ partSize →
      holds (writer.buffered data) store
  stored :
    ∀ writer store,
      holds writer store →
      writer.isClosed = false →
      writer.buffer.size = partSize →
      ((Action.streaming (storeBuffer writer)).runOn store).1 = .ok ⟨⟩ →
      holds (emptied writer) ((Action.streaming (storeBuffer writer)).runOn store).2
  refused :
    ∀ writer store fault,
      holds writer store →
      writer.isClosed = false →
      ((Action.streaming (storeBuffer writer)).runOn store).1 = .error fault →
      holds writer ((Action.streaming (storeBuffer writer)).runOn store).2
  closed :
    ∀ writer store guard,
      holds writer store →
      writer.result = none →
      writer.guard = some guard →
      holds
        { writer with
          guard := none
          result := ((Action.streaming (complete now writer)).runOn store).1.toOption }
        { ((Action.streaming (complete now writer)).runOn store).2 with
          locks := ((Action.streaming (complete now writer)).runOn store).2.locks.release guard }

namespace Stable

variable {now : Int} {holds : Writer → Store → Prop}

/-- A writer that is open, with a condition. -/
private def open_ (holds : Writer → Store → Prop) (writer : Writer) (store : Store) : Prop :=
  holds writer store ∧ writer.isClosed = false

/-- A buffer that is full is stored. -/
theorem flushFull
    (stable : Stable now holds) :
    Keeps (open_ holds) Writer.flushFull := by
  intro writer store before
  by_cases full : writer.buffer.size = partSize
  · rw [runOn_flushFull (stable.steady writer store before.1 before.2) full]
    rcases ran : (Action.streaming (storeBuffer writer)).runOn store with ⟨fault | ⟨⟩, left⟩
    · have refused := stable.refused writer store fault before.1 before.2 (congrArg Prod.fst ran)
      rw [ran] at refused
      exact ⟨refused, before.2⟩
    · have stored := stable.stored writer store before.1 before.2 full (congrArg Prod.fst ran)
      rw [ran] at stored
      exact ⟨stored, before.2⟩
  · rw [runOn_flushFull_of_room full]
    exact before

/-- Bytes go into the buffer as far as there is room. -/
theorem buffering
    (stable : Stable now holds)
    {writer : Writer}
    {store : Store}
    {data : ByteArray}
    (before : open_ holds writer store)
    (room : writer.buffer.size + data.size ≤ partSize)
    {next : StreamAction Writer α}
    (keeps : Keeps (open_ holds) next) :
    open_ holds
      ((do change (·.buffered data); next : StreamAction Writer α).runOn writer store).2.1
      ((do change (·.buffered data); next : StreamAction Writer α).runOn writer store).2.2 := by
  rw [runOn_bind, runOn_change]
  exact keeps _ _ ⟨stable.buffered writer store data before.1 before.2 room, before.2⟩

/-- Bytes are buffered, and stored as often as the buffer is full. -/
theorem pour
    (stable : Stable now holds)
    (data : ByteArray) :
    Keeps (open_ holds) (Writer.pour data) := by
  induction size : data.size using Nat.strongRecOn generalizing data with
  | _ count inductionHypothesis =>
      rw [Writer.pour]
      split
      · exact .pure _
      · rename_i notEmpty
        have more : 0 < data.size := by
          simpa [ByteArray.isEmpty, Nat.pos_iff_ne_zero] using notEmpty
        refine .bind stable.flushFull fun _ => .current fun writer store before => ?_
        dsimp only
        split
        · rename_i fits
          exact stable.buffering before (by omega) stable.flushFull
        · split
          · rename_i some_
            refine stable.buffering before ?_ (.bind stable.flushFull fun _ => ?_)
            · rw [ByteArray.size_extract]
              omega
            · refine inductionHypothesis _ ?_ _ rfl
              rw [ByteArray.size_extract]
              omega
          · exact before

/-- Touching a writer keeps the condition. -/
theorem touch
    (stable : Stable now holds) :
    Keeps holds Writer.touch :=
  .change fun writer store before => stable.watched writer store _ before

/-- Writing keeps the condition. -/
theorem write
    (stable : Stable now holds)
    (data : ByteArray) :
    Keeps holds (Writer.write data) := by
  refine .bind stable.touch fun _ => .current fun writer store before => ?_
  simp only [throw_bind]
  split
  · exact before
  · rename_i notClosed
    have open_ : writer.isClosed = false := Bool.eq_false_iff.mpr notClosed
    have poured := stable.pour data writer store ⟨before, open_⟩
    rw [runOn_bind]
    rcases ran : (Writer.pour data).runOn writer store with ⟨fault | done, left⟩
    · rw [ran] at poured
      exact poured.1
    · rw [ran] at poured
      exact (Keeps.bind stable.touch fun _ => .pure _) left.1 left.2 poured.1

/-- Writing what deliveries bring keeps the condition. -/
theorem writeEach
    (stable : Stable now holds)
    (deliveries : List Delivery) :
    Keeps holds (Writer.writeEach deliveries) := by
  induction deliveries with
  | nil =>
      exact .pure _
  | cons delivery rest inductionHypothesis =>
      cases delivery with
      | interrupted =>
          exact inductionHypothesis
      | bytes data =>
          rw [Writer.writeEach]
          split
          · exact .pure _
          · exact .bind (stable.write data) fun _ => inductionHypothesis

/-- Writing what a source delivers keeps the condition. -/
theorem writeFrom
    (stable : Stable now holds)
    (source : Source) :
    Keeps holds (Writer.writeFrom source) := by
  refine .bind (stable.writeEach _) fun _ => ?_
  cases source.failure? with
  | some fault =>
      exact .throw _
  | none =>
      exact .pure _

/-- Closing keeps the condition. -/
theorem close
    (stable : Stable now holds) :
    Keeps holds (Writer.close now) := by
  refine .current fun writer store before => ?_
  cases result : writer.result with
  | some entry =>
      exact before
  | none =>
      cases held : writer.guard with
      | none =>
          exact before
      | some guard =>
          have closed := stable.closed writer store guard before result held
          dsimp only
          rw [runOn_bind, runOn_attempt, runOn_onStore]
          dsimp only
          rw [runOn_bind, runOn_onStore, Action.runOn_release]
          dsimp only
          rw [runOn_bind, runOn_change]
          dsimp only
          rw [runOn_ofExcept]
          exact closed

/-- Closing for good keeps the condition. -/
theorem finish
    (stable : Stable now holds) :
    Keeps holds (Writer.finish now) :=
  .bind (.change fun writer store before => stable.watched writer store none before) fun _ =>
    stable.close

/-- Every use of a writer keeps the condition. -/
theorem run
    (stable : Stable now holds)
    (use : WriterUse) :
    Keeps holds (use.run now) := by
  cases use with
  | write data =>
      exact .bind (stable.write data) fun _ => .pure _
  | writeFrom source =>
      exact stable.writeFrom source
  | finish =>
      exact .bind stable.finish fun _ => .pure _
  | dispose =>
      refine .current fun writer store before => ?_
      split
      · exact (Keeps.bind (.attempt stable.finish) fun _ => .pure _) writer store before
      · exact before
  | elapse milliseconds =>
      refine .bind (.change fun writer store before => stable.watched writer store _ before)
        fun _ => .current fun writer store before => ?_
      split
      · exact (Keeps.bind (.attempt stable.close) fun _ => .pure _) writer store before
      · exact before

end Stable

end Writer

end VersionStore
