import VersionStore.Proofs.Session.Exclusion
import VersionStore.Proofs.Stream.Enduring

namespace VersionStore

/-!
# What endures a session

A condition that endures the edits of tables endures all that can happen in a session, as
long as no one touches rows or contents that must not be touched. Calls that are given
entries, selectors or listings may ask for that, and writers may do it that have such a
file open. Everything else keeps away from them by itself.
-/

open Tables

namespace Call

open VersionStore.Action

variable
  {setting : Setting}
  {rows contents : Int → Prop}
  {holds : Tables → Prop}

/-- What a call is asked to delete or to remove may be touched. -/
def Respects (rows contents : Int → Prop) (tables : Tables) : Call → Prop
  | deleteEntry entry => rows entry.id
  | prune entry => rows entry.id ∧ contents entry.id
  | pruneHistory infos all =>
      ∀ info ∈ infos,
        info.entry.isDirectory = false →
        ∀ version ∈ Txn.versionsMeant tables all info, rows version.id ∧ contents version.id
  | sweep select? =>
      ∀ file ∈ Txn.accepted select? tables, rows file.entry.id ∧ contents file.entry.id
  | _ => True

/-- A call may do as it is asked where everything may be touched. -/
theorem respects_all
    (call : Call)
    (tables : Tables) :
    call.Respects (fun _ => True) (fun _ => True) tables := by
  cases call <;> simp [Respects]

/-- A call is there to remove what is given with it, or what is in the trash. -/
def Removes : Call → Prop
  | deleteEntry _ | prune _ | pruneHistory _ _ | sweep _ => True
  | _ => False

/-- A condition that endures removing endures the calls that are there to remove something. -/
theorem inside_removes
    (endures : EnduresRemoving rows contents holds)
    (claimed : ∀ id, rows id → ¬setting.held id → contents id)
    (now : Int)
    {call : Call}
    (removes : call.Removes) :
    Works setting
      (fun tables => holds tables ∧ call.Respects rows contents tables)
      (call.inside now)
      (fun _ => holds)
      fun _ => holds := by
  cases call with
  | deleteEntry entry =>
      rw [inside, Works.ignoring_iff]
      refine .assuming (rows entry.id) (fun _ before => before.2) fun touched => ?_
      exact Works.asking (Txn.deleteEntry_endures endures now touched (claimed _ touched))
        fun _ before => before.1
  | prune entry =>
      rw [inside, Works.ignoring_iff]
      refine .assuming _ (fun _ before => before.2) fun respects => ?_
      exact Works.asking (Txn.prune_endures endures now respects.1 respects.2)
        fun _ before => before.1
  | pruneHistory infos all =>
      rw [inside, Works.ignoring_iff]
      exact Txn.pruneHistory_endures endures infos all
  | sweep select? =>
      rw [inside, Works.ignoring_iff]
      exact Txn.sweep_endures endures select?
  | _ =>
      exact removes.elim

/-- A condition that endures edits endures calls, also such that fail. -/
theorem inside_endures
    (endures : EnduresWriting rows contents holds)
    (claimed : ∀ id, rows id → ¬setting.held id → contents id)
    (now : Int)
    (call : Call) :
    Works setting
      (fun tables => holds tables ∧ call.Respects rows contents tables)
      (call.inside now)
      (fun _ => holds)
      fun _ => holds := by
  have edits := endures.toEndures
  have removing := edits.toEnduresRemoving
  cases call with
  | stat text =>
      rw [inside, Works.ignoring_iff]
      exact Works.asking (Txn.stat_keeps text) fun _ before => before.1
  | list text =>
      rw [inside, Works.ignoring_iff]
      exact Works.asking (Txn.list_keeps text) fun _ before => before.1
  | makeDirectories text =>
      rw [inside, Works.ignoring_iff]
      exact Works.asking (Txn.makeDirectories_grows edits.grows now text) fun _ before => before.1
  | write text data links? time? =>
      rw [inside, Works.ignoring_iff]
      exact Works.asking (Txn.writeFrom_endures endures now text _ links? time? claimed)
        fun _ before => before.1
  | writeFrom text source links? time? =>
      rw [inside, Works.ignoring_iff]
      exact Works.asking (Txn.writeFrom_endures endures now text source links? time? claimed)
        fun _ before => before.1
  | snapshot text source? time? =>
      exact Works.asking (Txn.snapshot_endures endures now text source? time?)
        fun _ before => before.1
  | delete text =>
      rw [inside, Works.ignoring_iff]
      exact Works.asking (Txn.delete_endures removing now text claimed) fun _ before => before.1
  | deleteEntry | prune | pruneHistory | sweep =>
      exact inside_removes removing claimed now trivial
  | copy target source time? =>
      rw [inside, Works.ignoring_iff]
      exact Works.asking (Txn.copy_endures endures now target source time? claimed)
        fun _ before => before.1
  | moveTo target source time? =>
      rw [inside, Works.ignoring_iff]
      exact Works.asking (Txn.moveTo_endures edits now target source time?) fun _ before => before.1
  | setLastModified text time =>
      rw [inside, Works.ignoring_iff]
      exact Works.asking (Txn.setLastModified_endures edits text time) fun _ before => before.1
  | setWritable text writable =>
      rw [inside, Works.ignoring_iff]
      exact Works.asking (Txn.setWritable_endures edits text writable) fun _ before => before.1
  | setLinks text targets =>
      rw [inside, Works.ignoring_iff]
      exact Works.asking (Txn.setLinks_endures edits text targets) fun _ before => before.1
  | recover target infos =>
      rw [inside, Works.ignoring_iff]
      exact Works.asking (Txn.recover_endures endures now target infos claimed)
        fun _ before => before.1

end Call

/-! ## Sessions -/

/-- What holds of all tables before and of those that are passed on holds of all tables. -/
theorem Store.Passes.all
    {store left : Store}
    {holds : Tables → Prop}
    (passes : store.Passes holds left)
    (all : store.All holds) :
    left.All holds where
  tables := passes.tables
  saved := by
    rw [passes.savepoints]
    exact all.saved

namespace Session

open VersionStore.Action

variable
  {setting : Setting}
  {rows contents : Int → Prop}
  {holds : Tables → Prop}
  {session : Session}

/-- The store after a writer was to be opened. -/
theorem holdWriter_store
    (opening : Action Writer)
    (session : Session) :
    (session.holdWriter opening).store = (opening.runOn session.store).2 := by
  unfold holdWriter
  rcases opening.runOn session.store with ⟨_ | _, left⟩ <;> rfl

/-- The writers after one more was to be opened. -/
theorem holdWriter_writers
    (opening : Action Writer)
    (session : Session) :
    (session.holdWriter opening).writers =
      session.writers ++ ((opening.runOn session.store).1.toOption).toList := by
  unfold holdWriter
  rcases opening.runOn session.store with ⟨_ | _, left⟩
  · exact (List.append_nil _).symm
  · rfl

/-- A session after a writer was used. -/
theorem onWriter_eq
    {index : Nat}
    {writer : Writer}
    (found : session.writers[index]? = some writer)
    (action : StreamAction Writer Unit) :
    session.onWriter index action =
      { session with
        store := (action.runOn writer session.store).2.2
        writers := session.writers.set index (action.runOn writer session.store).2.1 } := by
  unfold onWriter
  rw [found]

/-- A writer that is not there is not used. -/
theorem onWriter_none
    {index : Nat}
    (missing : session.writers[index]? = none)
    (action : StreamAction Writer Unit) :
    session.onWriter index action = session := by
  unfold onWriter
  rw [missing]

/-- The store after a reader was to be opened. -/
theorem holdReader_store
    (opening : Action Reader)
    (session : Session) :
    (session.holdReader opening).store = (opening.runOn session.store).2 := by
  unfold holdReader
  rcases opening.runOn session.store with ⟨_ | _, left⟩ <;> rfl

/-- An event that is about neither tables nor writers. -/
def Quiet : Event → Prop
  | .inside _ | .whole _ | .openWriter _ _ | .useWriter _ _ => False
  | _ => True

/-- A quiet event that is not about scopes either. -/
def Still : Event → Prop
  | .begin | .nest | .finish _ | .inside _ | .whole _ | .openWriter _ _ | .useWriter _ _ => False
  | _ => True

/-- The tables stay at a still event, and so do those that a scope may go back to. -/
theorem tables_still
    (steady : session.store.Steady)
    (now : Int)
    {event : Event}
    (feasible : session.Feasible event)
    (still : Still event) :
    (session.after now event).store.tables = session.store.tables ∧
      (session.after now event).store.savepoints = session.store.savepoints := by
  change
    (session.perform now event).store.tables = session.store.tables ∧
      (session.perform now event).store.savepoints = session.store.savepoints
  have opened
      {opening : Action Reader}
      (isOpened : Reader.Opened session.store (opening.runOn session.store)) :
      (session.holdReader opening).store.tables = session.store.tables ∧
        (session.holdReader opening).store.savepoints = session.store.savepoints := by
    rw [holdReader_store]
    exact ⟨isOpened.tables, isOpened.savepoints⟩
  cases event with
  | begin | nest | finish | inside | whole | openWriter | useWriter =>
      exact still.elim
  | ask question =>
      have passes := question.passes_ask steady (Eq.refl session.store.tables)
      exact ⟨passes.tables.symm, passes.savepoints⟩
  | openReader text =>
      exact opened (Reader.opened_openPath steady text)
  | openReaderOf entry =>
      exact opened (Reader.opened_openEntry steady entry)
  | useReader index use =>
      change
        (session.onReader index use.run).store.tables = session.store.tables ∧
          (session.onReader index use.run).store.savepoints = session.store.savepoints
      unfold onReader
      cases found : session.readers[index]? with
      | none =>
          exact ⟨rfl, rfl⟩
      | some reader =>
          rcases Reader.used_run reader steady use with ⟨-, _, -, left⟩ | ⟨guard, -, -, left⟩
          all_goals
            dsimp only
            rw [left]
            exact ⟨rfl, rfl⟩
  | drain paused =>
      exact ⟨rfl, rfl⟩
  | close =>
      exact ⟨rfl, feasible.symm⟩
  | resume =>
      exact ⟨rfl, rfl⟩
  | reopen config timed =>
      exact ⟨(steady.tables_eq_kept feasible.1).symm, feasible.1.symm⟩

/-- What holds of all tables holds of them after a quiet event. -/
theorem all_quiet
    (steady : session.store.Steady)
    (now : Int)
    {event : Event}
    (quiet : Quiet event)
    (feasible : session.Feasible event)
    (all : session.store.All holds) :
    (session.after now event).store.All holds := by
  cases event with
  | inside | whole | openWriter | useWriter =>
      exact quiet.elim
  | begin =>
      exact (Store.Rescopes.of_begin steady).all _ all
  | nest =>
      exact (Store.Rescopes.of_nest steady feasible).all _ all
  | finish kept =>
      exact (Store.Rescopes.of_finish steady feasible kept).all _ all
  | _ =>
      obtain ⟨tables, savepoints⟩ := tables_still steady now feasible trivial
      exact ⟨tables ▸ all.tables, savepoints ▸ all.saved⟩

/-- The writers stay as they are at a quiet event. -/
theorem writers_quiet
    (session : Session)
    (now : Int)
    {event : Event}
    (quiet : Quiet event) :
    (session.after now event).writers = session.writers := by
  have held (opening : Action Reader) :
      (session.holdReader opening).writers = session.writers := by
    unfold holdReader
    rcases opening.runOn session.store with ⟨_ | _, left⟩ <;> rfl
  cases event with
  | inside call | whole call =>
      exact quiet.elim
  | openWriter text append =>
      exact quiet.elim
  | useWriter index use =>
      exact quiet.elim
  | openReader text =>
      exact held _
  | openReaderOf entry =>
      exact held _
  | useReader index use =>
      change (session.onReader index use.run).writers = session.writers
      unfold onReader
      cases session.readers[index]? <;> rfl
  | _ =>
      rfl

/-- What an event asks for touches nothing that must not be touched. -/
def Respects (rows contents : Int → Prop) (session : Session) : Event → Prop
  | .inside call | .whole call => call.Respects rows contents session.store.tables
  | _ => True

section Calls

variable
  {pre : Tables → Prop}
  {now : Int}
  {call : Call}
  (steady : session.store.Steady)
  (fits : session.store.Fits setting)
  (all : session.store.All holds)
  (works : Works setting pre (call.inside now) (fun _ => holds) fun _ => holds)

include steady fits all works

/-- What a call in a transaction leaves, whether it fails or not, holds of all tables. -/
theorem all_inside
    (opened : session.store.savepoints ≠ [])
    (enough : pre session.store.tables) :
    (session.after now (.inside call)).store.All holds := by
  obtain ⟨alike, ended⟩ := works session.store (steady.inScope opened fits) enough
  refine all.alike alike ?_
  cases outcome : ((call.inside now).runOn session.store).1 with
  | ok value =>
      rw [outcome] at ended
      exact ended
  | error fault =>
      rw [outcome] at ended
      exact ended

/-- What a call by itself leaves holds of all tables. -/
theorem all_whole
    (enough : pre session.store.tables) :
    (session.after now (.whole call)).store.All holds :=
  (Call.passes_whole steady fits works enough all.tables).all all

end Calls

/-- A condition that endures edits endures every event that respects it. -/
theorem all_after
    (endures : EnduresWriting rows contents holds)
    (claimed : ∀ id, rows id → ¬setting.held id → contents id)
    (steady : session.store.Steady)
    (fits : session.store.Fits setting)
    (all : session.store.All holds)
    (now : Int)
    {event : Event}
    (feasible : session.Feasible event)
    (respects : session.Respects rows contents event)
    (writes :
      ∀ index use writer,
        event = .useWriter index use →
        session.writers[index]? = some writer →
        writer.isClosed = false →
        writer.Respects rows contents session.store.tables) :
    (session.after now event).store.All holds := by
  cases event with
  | inside call =>
      exact all_inside steady fits all (call.inside_endures endures claimed now) feasible
        ⟨all.tables, respects⟩
  | whole call =>
      exact all_whole steady fits all (call.inside_endures endures claimed now)
        ⟨all.tables, respects⟩
  | openWriter text append =>
      have leaves :=
        Writer.openPath_endures endures.toEndures endures.fresh claimed steady fits all.tables now
          text append
      change (session.holdWriter (Writer.openPath now text append)).store.All holds
      rw [holdWriter_store]
      exact leaves.all all fun _ _ _ after => after.2.1
  | useWriter index use =>
      change (session.onWriter index (use.run now)).store.All holds
      unfold onWriter
      cases found : session.writers[index]? with
      | none =>
          exact all
      | some writer =>
          exact Writer.all_run endures.toEnduresStoring steady all
            (writes index use writer rfl found) now use
  | _ =>
      exact all_quiet steady now trivial feasible all

/-- An event is a call that is there to remove something. -/
def Removes : Event → Prop
  | .inside call | .whole call => call.Removes
  | _ => False

/-- What is not there to remove something asks for nothing to be touched. -/
theorem respects_of_not_removes
    {event : Event}
    (spares : ¬Removes event) :
    session.Respects rows contents event := by
  cases event with
  | inside call | whole call =>
      cases call with
      | deleteEntry | prune | pruneHistory | sweep =>
          exact absurd trivial spares
      | _ =>
          trivial
  | _ =>
      trivial

/-- A condition that endures removing endures the events that are there to remove something, and
no writer is touched then. -/
theorem all_removed
    (endures : EnduresRemoving (fun _ => True) (fun _ => True) holds)
    (steady : session.store.Steady)
    (all : session.store.All holds)
    (now : Int)
    {event : Event}
    (feasible : session.Feasible event)
    (removes : Removes event) :
    (session.after now event).store.All holds ∧
      (session.after now event).writers = session.writers := by
  have works {call : Call} (removes : call.Removes) :
      Works (session.store.setting fun _ => False)
        (fun tables => holds tables ∧ call.Respects (fun _ => True) (fun _ => True) tables)
        (call.inside now)
        (fun _ => holds)
        fun _ => holds :=
    Call.inside_removes endures (fun _ _ _ => trivial) now removes
  cases event with
  | inside call =>
      exact ⟨all_inside steady .idle all (works removes) feasible
        ⟨all.tables, call.respects_all _⟩, rfl⟩
  | whole call =>
      exact ⟨all_whole steady .idle all (works removes) ⟨all.tables, call.respects_all _⟩, rfl⟩
  | _ =>
      exact removes.elim

/-! ## The tails of writers -/

/-- Where a writer comes from: it was there before, with its lock unless it lost it, or it was
opened just now. -/
theorem writer_origin
    (steady : session.store.Steady)
    (now : Int)
    {event : Event}
    {writer : Writer}
    (member : writer ∈ (session.after now event).writers) :
    (∃ old ∈ session.writers,
      writer.fileId = old.fileId ∧ (writer.tail = old.tail ∨ writer.tail = none) ∧
        (writer.isClosed = false → old.isClosed = false)) ∨
      ∃ text append,
        event = .openWriter text append ∧
          ((Writer.openPath now text append).runOn session.store).1 = .ok writer := by
  have same (old : writer ∈ session.writers) :
      ∃ old ∈ session.writers,
        writer.fileId = old.fileId ∧ (writer.tail = old.tail ∨ writer.tail = none) ∧
          (writer.isClosed = false → old.isClosed = false) :=
    ⟨writer, old, rfl, .inl rfl, id⟩
  cases event with
  | openWriter text append =>
      change writer ∈ (session.holdWriter _).writers at member
      unfold holdWriter at member
      rcases ran : (Writer.openPath now text append).runOn session.store with ⟨fault | opened, left⟩
      · rw [ran] at member
        exact .inl (same member)
      · rw [ran] at member
        rcases List.mem_append.mp member with old | new
        · exact .inl (same old)
        · cases List.mem_singleton.mp new
          exact .inr ⟨text, append, rfl, by rw [ran]⟩
  | useWriter index use =>
      change writer ∈ (session.onWriter index (use.run now)).writers at member
      unfold onWriter at member
      cases found : session.writers[index]? with
      | none =>
          rw [found] at member
          exact .inl (same member)
      | some old =>
          rw [found] at member
          rcases List.mem_or_eq_of_mem_set member with other | rfl
          · exact .inl (same other)
          · have used := Writer.used_run old steady now use
            refine .inl ⟨old, List.mem_of_getElem? found, used.fileId,
              Writer.tail_run old steady now use, fun open_ => ?_⟩
            by_contra closed
            have stays := Writer.run_closed (Bool.eq_true_of_not_eq_false closed) now use session.store
            exact Bool.false_ne_true (open_.symm.trans stays.1)
  | inside call | whole call =>
      exact .inl (same member)
  | _ =>
      rw [session.writers_quiet now] at member
      · exact .inl (same member)
      · trivial

/-- The parts of all tables are in the order of their ids, and what a writer takes for the part
at the end of its file is a part of that file. -/
structure Tailed (session : Session) : Prop where
  ordered : session.store.All Ordered
  tail :
    ∀ writer ∈ session.writers,
      ∀ id,
        writer.tail = some id →
        session.store.All (PartOf id writer.fileId)

/-- A writer that was opened just now knows the part at the end of its file. -/
theorem Tailed.opened
    (tailed : session.Tailed)
    (steady : session.store.Steady)
    {now : Int}
    {text : String}
    {append : Bool}
    {writer : Writer}
    (isOpened : ((Writer.openPath now text append).runOn session.store).1 = .ok writer)
    {id : Int}
    (isTail : writer.tail = some id) :
    ((Writer.openPath now text append).runOn session.store).2.All (PartOf id writer.fileId) := by
  have leaves :=
    Writer.openPath_endures endures_ordered.toEndures endures_ordered.fresh (fun _ _ _ => trivial)
      steady .idle tailed.ordered.tables now text append
  obtain ⟨-, -, ordered, -, begins⟩ := leaves.done writer isOpened
  refine leaves.all_done isOpened ?_
  cases begins with
  | created _ _ _ _ isWriter =>
      subst isWriter
      cases isTail
  | resumed _ _ _ _ isWriter =>
      subst isWriter
      obtain ⟨content, member, rfl⟩ := Writer.exists_of_resuming_tail isTail
      rw [ordered.contents_eq_map] at member
      obtain ⟨part, isPart, rfl⟩ := List.mem_map.mp member
      obtain ⟨inTable, isFile⟩ := mem_pieces_iff.mp (by simpa [partsOf, pieces] using isPart)
      dsimp only
      rw [Writer.resuming_fileId, ← isFile]
      exact ordered.partOf inTable

/-- What endures all edits endures every event. -/
theorem all_always
    (endures : EnduresWriting (fun _ => True) (fun _ => True) holds)
    (steady : session.store.Steady)
    (all : session.store.All holds)
    (now : Int)
    {event : Event}
    (feasible : session.Feasible event) :
    (session.after now event).store.All holds := by
  refine all_after endures (fun _ _ _ => trivial) steady .idle all now feasible ?_
    fun _ _ _ _ _ _ => ⟨trivial, trivial, fun _ _ _ _ _ => trivial⟩
  cases event with
  | inside call | whole call =>
      exact call.respects_all _
  | _ =>
      trivial

/-- Writers go on to know the parts at the ends of their files. -/
theorem Tailed.after
    (tailed : session.Tailed)
    (steady : session.store.Steady)
    (now : Int)
    {event : Event}
    (feasible : session.Feasible event) :
    (session.after now event).Tailed := by
  refine ⟨all_always endures_ordered steady tailed.ordered now feasible,
    fun writer member id isTail => ?_⟩
  rcases writer_origin steady now member with
    ⟨old, oldMember, sameFile, same | gone, -⟩ | ⟨text, append, rfl, isOpened⟩
  · rw [sameFile]
    exact all_always (endures_partOf id old.fileId) steady
      (tailed.tail old oldMember id (same ▸ isTail)) now feasible
  · rw [gone] at isTail
    cases isTail
  · change (session.holdWriter (Writer.openPath now text append)).store.All _
    rw [holdWriter_store]
    exact tailed.opened steady isOpened isTail

/-- Writers know the parts at the ends of their files whatever happens on steady stores. -/
theorem Tailed.of_reachable
    {allowed : Session → Int → Event → Prop}
    {first : Session}
    (tailed : first.Tailed)
    (steady : ∀ session, Reachable allowed first session → session.store.Steady)
    (reachable : Reachable allowed first session) :
    session.Tailed := by
  induction reachable with
  | refl =>
      exact tailed
  | tail before step inductionHypothesis =>
      obtain ⟨possible, -⟩ := step
      exact inductionHypothesis.after (steady _ before) _ possible.feasible

/-- No stream was left behind, rows are listed, and writers know the ends of their files. -/
structure Orderly (session : Session) : Prop where
  accounted : session.Accounted
  current : session.Current
  listed : session.store.All Listed
  tailed : session.Tailed

namespace Orderly

/-- A session on a new store is orderly. -/
theorem start
    (config : Config)
    (timed : Bool)
    (now : Int) :
    (Session.start config timed now).Orderly where
  accounted := .start config timed now
  current _ _ := ⟨rfl, rfl⟩
  listed := ⟨(listed_seed config.roots now).1, nofun⟩
  tailed := by
    have parts := (bare_seed config.roots now).1
    refine ⟨⟨⟨?_, ?_⟩, fun _ member => absurd member List.not_mem_nil⟩,
      fun _ member => absurd member List.not_mem_nil⟩
    · change ((seed config.roots now).parts.map (·.id)).Pairwise (· < ·)
      rw [parts]
      exact .nil
    · change ∀ part ∈ (seed config.roots now).parts, part.id ≤ _
      rw [parts]
      exact fun _ member => absurd member List.not_mem_nil

/-- A session stays orderly as long as no close is forced. -/
theorem after
    (orderly : session.Orderly)
    (now : Int)
    {event : Event}
    (feasible : session.Feasible event)
    (drained : event = .close → session.store.isDrained = true) :
    (session.after now event).Orderly where
  accounted := orderly.accounted.after now feasible
  current := orderly.current.after orderly.accounted now feasible drained
  listed := all_always endures_listed orderly.accounted.steady orderly.listed now feasible
  tailed := orderly.tailed.after orderly.accounted.steady now feasible

/-- A session stays orderly when every close waits for the streams to end. -/
theorem of_reachable
    {allowed : Session → Int → Event → Prop}
    {first : Session}
    (orderly : first.Orderly)
    (drained : ∀ session now, allowed session now .close → session.store.isDrained = true)
    (reachable : Reachable allowed first session) :
    session.Orderly := by
  induction reachable with
  | refl =>
      exact orderly
  | tail _ step before =>
      obtain ⟨possible, isAllowed⟩ := step
      refine before.after _ possible.feasible fun isClose => ?_
      subst isClose
      exact drained _ _ isAllowed

end Orderly

/-! ## What is kept secure -/

/-- Something holds of all tables, and the writers that are open keep away from what must not
be touched. -/
structure Secure (rows contents : Int → Prop) (holds : Tables → Prop) (session : Session) :
    Prop where
  all : session.store.All holds
  writer :
    ∀ writer ∈ session.writers,
      writer.isClosed = false →
      rows writer.fileId ∧ contents writer.fileId

/-- What is kept secure stays so. -/
theorem Secure.after
    (secure : session.Secure rows contents holds)
    (tailed : session.Tailed)
    (endures : EnduresWriting rows contents holds)
    (claimed : ∀ id, rows id → ¬setting.held id → contents id)
    (steady : session.store.Steady)
    (fits : session.store.Fits setting)
    (now : Int)
    {event : Event}
    (feasible : session.Feasible event)
    (respects : session.Respects rows contents event) :
    (session.after now event).Secure rows contents holds := by
  refine ⟨?_, fun writer member open_ => ?_⟩
  · refine all_after endures claimed steady fits secure.all now feasible respects
      fun index use writer _ found open_ => ?_
    have member := List.mem_of_getElem? found
    obtain ⟨row, content⟩ := secure.writer writer member open_
    refine ⟨row, content, fun id isTail part isPart isId => ?_⟩
    rw [(tailed.tail writer member id isTail).tables.file part isPart isId]
    exact content
  · rcases writer_origin steady now member with
      ⟨old, oldMember, sameFile, -, wasOpen⟩ | ⟨text, append, rfl, isOpened⟩
    · rw [sameFile]
      exact secure.writer old oldMember (wasOpen open_)
    · have leaves :=
        Writer.openPath_endures endures.toEndures endures.fresh claimed steady fits
          secure.all.tables now text append
      exact (leaves.done writer isOpened).2.2.2.1

end Session

end VersionStore
