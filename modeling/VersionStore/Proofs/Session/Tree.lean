import VersionStore.Proofs.Session.Calls
import VersionStore.Proofs.Stream.Opening
import VersionStore.Proofs.Stream.Reading
import VersionStore.Proofs.Stream.Writing
import VersionStore.Proofs.Tree.Edits

namespace VersionStore

/-!
# The tree of a session

Whatever happens in a session, its tables stay sound: those it works on, those it
remembers for open scopes and those it keeps. They also stay integral as long as no
directory is deleted for good that still holds something in the trash.
-/

open Tables

namespace Call

open VersionStore.Action

variable {setting : Setting} {strict : Prop} {known : List Entry}

/-- A call would delete a directory that holds nothing but trash. -/
def Strands (tables : Tables) : Call → Prop
  | delete text =>
      ∃ path entry,
        CleanPath.ofText text = .ok path ∧
          tables.lookupAt? path = some entry ∧ tables.Strands entry
  | deleteEntry entry => tables.Strands entry
  | _ => False

/-- A call in a transaction keeps sound tables sound, unless it strands others. -/
theorem inside_works
    (now : Int)
    (call : Call)
    (knows : call.Knows known) :
    Works setting
      (fun tables =>
        tables.Sound strict known ∧ (strict → setting.history = true ∨ ¬call.Strands tables))
      (call.inside now)
      (fun _ => Tables.Sound strict known)
      fun _ => Tables.Sound strict known := by
  have agrees :
      ∀ entry ∈ known, ∀ tables : Tables, tables.Sound strict known → Agrees entry tables :=
    fun entry member tables sound => sound.knows.kind entry member
  cases call with
  | stat text =>
      rw [inside, Works.ignoring_iff]
      exact (Txn.stat_keeps text).asking fun _ holds => holds.1
  | list text =>
      rw [inside, Works.ignoring_iff]
      exact (Txn.list_keeps text).asking fun _ holds => holds.1
  | makeDirectories text =>
      rw [inside, Works.ignoring_iff]
      exact (Txn.makeDirectories_keeps now text).asking fun _ holds => holds.1
  | write text data links? time? =>
      rw [inside, Works.ignoring_iff]
      exact (Txn.writeFrom_keeps now text _ links? time?).asking fun _ holds => holds.1
  | writeFrom text source links? time? =>
      rw [inside, Works.ignoring_iff]
      exact (Txn.writeFrom_keeps now text source links? time?).asking fun _ holds => holds.1
  | snapshot text source? time? =>
      exact (Txn.snapshot_keeps now text source? time?).asking fun _ holds => holds.1
  | delete text =>
      rw [inside, Works.ignoring_iff]
      refine (Txn.delete_works now text).asking fun tables holds => ⟨holds.1, fun strictly => ?_⟩
      refine (holds.2 strictly).imp_right fun notStranding path entry isPath found strands => ?_
      exact notStranding ⟨path, entry, isPath, found, strands⟩
  | deleteEntry entry =>
      rw [inside, Works.ignoring_iff]
      exact (Txn.deleteEntry_works now).asking fun tables holds =>
        ⟨holds.1, agrees entry knows tables holds.1, holds.2⟩
  | copy target source time? =>
      rw [inside, Works.ignoring_iff]
      exact (Txn.copy_keeps now target source time?).asking fun _ holds => holds.1
  | moveTo target source time? =>
      rw [inside, Works.ignoring_iff]
      exact (Txn.moveTo_keeps now target source time?).asking fun _ holds => holds.1
  | setLastModified text time =>
      rw [inside, Works.ignoring_iff]
      exact (Txn.setLastModified_keeps text time).asking fun _ holds => holds.1
  | setWritable text writable =>
      rw [inside, Works.ignoring_iff]
      exact (Txn.setWritable_keeps text writable).asking fun _ holds => holds.1
  | setLinks text targets =>
      rw [inside, Works.ignoring_iff]
      exact (Txn.setLinks_keeps text targets).asking fun _ holds => holds.1
  | prune entry =>
      rw [inside, Works.ignoring_iff]
      exact (Txn.prune_works now).asking fun tables holds =>
        ⟨holds.1, agrees entry knows tables holds.1⟩
  | pruneHistory infos all =>
      rw [inside, Works.ignoring_iff]
      exact (Txn.pruneHistory_keeps infos all).asking fun _ holds => holds.1
  | recover target infos =>
      rw [inside, Works.ignoring_iff]
      exact (Txn.recover_keeps now target infos).asking fun _ holds => holds.1
  | sweep select? =>
      rw [inside, Works.ignoring_iff]
      exact (Txn.sweep_keeps select?).asking fun _ holds => holds.1

/-- A call that strands others leaves them without a directory, unless it fails. -/
theorem inside_strands
    (setting : Setting)
    (now : Int)
    {call : Call}
    (lost : setting.history = false)
    (before : Tables)
    (coherent : before.Coherent)
    (strands : call.Strands before) :
    Works setting (· = before)
      (call.inside now)
      (fun _ tables => ¬tables.Integral)
      fun _ tables => tables = before := by
  cases call with
  | delete text =>
      obtain ⟨path, entry, isPath, found, strands⟩ := strands
      rw [inside, Works.ignoring_iff]
      exact Txn.delete_strands now lost isPath before coherent found strands
  | deleteEntry entry =>
      rw [inside, Works.ignoring_iff]
      exact Txn.deleteEntry_strands now lost before coherent strands
  | _ =>
      exact strands.elim

/-- A call that strands others is a change. -/
theorem whole_of_strands
    {now : Int}
    {call : Call}
    {tables : Tables}
    (strands : call.Strands tables)
    (store : Store) :
    ((call.whole now).runOn store) = ((writing (call.inside now)).runOn store) := by
  cases call with
  | delete text =>
      exact runOn_writing_ignoring _ store
  | deleteEntry entry =>
      exact runOn_writing_ignoring _ store
  | _ =>
      exact strands.elim

end Call

namespace Session

open VersionStore.Action

/-- The tables of a session are sound. -/
structure Sound (strict : Prop) (session : Session) : Prop where
  steady : session.store.Steady
  all : session.store.All (Tables.Sound strict session.known)
  remembered : session.store.kept.entries ⊆ session.known

/-- An event deletes a directory for good that holds nothing but trash. -/
def Strands (session : Session) (now : Int) : Event → Prop
  | .inside call =>
      session.store.config.keepHistory = false ∧
        call.Strands session.store.tables ∧
          ((call.inside now).runOn session.store).1.isOk = true
  | .whole call =>
      session.store.config.keepHistory = false ∧
        call.Strands session.store.tables ∧
          ((call.whole now).runOn session.store).1.isOk = true
  | _ => False

variable
  {session next : Session}
  {strict : Prop}

namespace Sound

/-- A session stays sound when its tables do, also when it notes what it keeps. -/
theorem moving
    (sound : session.Sound strict)
    (known : next.known = session.known)
    (steady : next.store.Steady)
    (all : next.store.All (Tables.Sound strict session.known))
    (kept : next.store.kept = session.store.kept ∨ next.store.savepoints = []) :
    next.remembering.Sound strict where
  steady := steady
  remembered := List.subset_append_left _ _
  all := by
    change next.store.All (Tables.Sound strict (next.store.kept.entries ++ next.known))
    rw [known]
    rcases kept with same | outside
    · have given :
          ∀ tables : Tables,
            ∀ entry ∈ next.store.kept.entries,
              entry ∈ session.known ∨ entry ∈ tables.entries := by
        intro tables entry member
        rw [same] at member
        exact .inl (sound.remembered member)
      exact ⟨all.tables.knowing (given _), fun saved member =>
        (all.saved saved member).knowing (given _)⟩
    · rw [← steady.tables_eq_kept outside]
      refine ⟨all.tables.knowing fun entry member => .inr member, ?_⟩
      rw [outside]
      nofun

/-- A session stays sound when its scopes stay and its tables are sound. -/
theorem passing
    (sound : session.Sound strict)
    (known : next.known = session.known)
    (steady : next.store.Steady)
    (savepoints : next.store.savepoints = session.store.savepoints)
    (tables : next.store.tables.Sound strict session.known) :
    next.remembering.Sound strict := by
  refine sound.moving known steady ⟨tables, ?_⟩ ?_
  · rw [savepoints]
    exact sound.all.saved
  · cases last : session.store.savepoints.getLast? with
    | none =>
        right
        rw [savepoints]
        exact List.getLast?_eq_none_iff.mp last
    | some saved =>
        left
        rw [← steady.outermost saved (by rw [savepoints, last]),
          ← sound.steady.outermost saved last]

/-- The beginning of a transaction keeps a session sound. -/
theorem begun
    (sound : session.Sound strict) :
    (session.run beginWriting).remembering.Sound strict := by
  unfold run
  rw [runOn_beginWriting sound.steady.toAlone]
  have same : session.remembering.Sound strict :=
    sound.passing rfl sound.steady rfl sound.all.tables
  by_cases closing : session.store.closing = true
  · rw [if_pos closing]
    exact same
  rw [if_neg closing]
  by_cases entered : session.store.entered = true
  · rw [if_pos entered]
    exact same
  rw [if_neg entered]
  by_cases closed : session.store.closed = true
  · rw [if_pos closed]
    exact same
  rw [if_neg closed]
  exact sound.moving rfl (sound.steady.entering (sound.steady.outside entered)) sound.all.entering
    (.inl rfl)

/-- The end of a scope keeps a session sound. -/
theorem finished
    (sound : session.Sound strict)
    (opened : session.store.savepoints ≠ [])
    (now : Int)
    (kept : Bool) :
    (session.after now (.finish kept)).Sound strict := by
  obtain ⟨saved, outer, around⟩ := List.exists_cons_of_ne_nil opened
  unfold after perform run
  cases outer with
  | nil =>
      have one : session.store.savepoints.length = 1 := by simp [around]
      simp only [if_pos one, runOn_endWriting sound.steady.toAlone around]
      refine sound.moving rfl (sound.steady.ended around kept)
        (sound.all.ended sound.steady.toAlone kept (sound.all.saved saved (by simp [around])))
        (.inr (Store.ended_savepoints sound.steady.toAlone _ _))
  | cons next outer =>
      have more : ¬session.store.savepoints.length = 1 := by simp [around]
      simp only [if_neg more]
      cases kept with
      | true =>
          rw [show endScope true = commitScope from rfl, runOn_commitScope_inner around]
          exact sound.moving rfl (sound.steady.unnested around (.inl rfl))
            (sound.all.unnested around (.inl rfl)) (.inl rfl)
      | false =>
          rw [show endScope false = rollbackScope from rfl, runOn_rollbackScope_inner around]
          exact sound.moving rfl (sound.steady.unnested around (.inr rfl))
            (sound.all.unnested around (.inr rfl)) (.inl rfl)

/-- A call either strands others or may be made. -/
private theorem strands_or
    (strict history : Prop)
    (strands : Prop) :
    strict ∧ ¬history ∧ strands ∨ (strict → history ∨ ¬strands) := by
  tauto

/-- A call in a transaction keeps a session sound. -/
theorem called
    (sound : session.Sound strict)
    (opened : session.store.savepoints ≠ [])
    (now : Int)
    {call : Call}
    (knows : call.Knows session.known)
    (integral : strict → ¬session.Strands now (.inside call)) :
    (session.after now (.inside call)).Sound strict := by
  have inScope : session.store.InScope (session.store.setting fun _ => False) :=
    sound.steady.inScope opened .idle
  suffices left :
      session.store.Alike ((call.inside now).runOn session.store).2 ∧
        ((call.inside now).runOn session.store).2.tables.Sound strict session.known from
    sound.moving rfl (sound.steady.alike opened left.1) (sound.all.alike left.1 left.2)
      (.inl left.1.kept)
  rcases strands_or strict (session.store.config.keepHistory = true)
    (call.Strands session.store.tables) with ⟨strictly, lost, strands⟩ | fine
  · have lost : session.store.config.keepHistory = false := Bool.eq_false_iff.mpr lost
    obtain ⟨alike, ended⟩ :=
      call.inside_strands _ now lost session.store.tables sound.all.tables.coherent strands
        session.store inScope rfl
    refine ⟨alike, ?_⟩
    cases outcome : ((call.inside now).runOn session.store).1 with
    | ok value =>
        exact (integral strictly ⟨lost, strands, by rw [outcome]; rfl⟩).elim
    | error fault =>
        rw [outcome] at ended
        change _ = _ at ended
        rw [ended]
        exact sound.all.tables
  · obtain ⟨alike, ended⟩ :=
      call.inside_works now knows session.store inScope ⟨sound.all.tables, fine⟩
    refine ⟨alike, ?_⟩
    cases outcome : ((call.inside now).runOn session.store).1 with
    | ok value =>
        rw [outcome] at ended
        exact ended
    | error fault =>
        rw [outcome] at ended
        exact ended

/-- A call by itself keeps a session sound. -/
theorem calledWhole
    (sound : session.Sound strict)
    (now : Int)
    {call : Call}
    (knows : call.Knows session.known)
    (integral : strict → ¬session.Strands now (.whole call)) :
    (session.after now (.whole call)).Sound strict := by
  rcases strands_or strict (session.store.config.keepHistory = true)
    (call.Strands session.store.tables) with ⟨strictly, lost, strands⟩ | fine
  · have lost : session.store.config.keepHistory = false := Bool.eq_false_iff.mpr lost
    have works :=
      call.inside_strands (session.store.setting fun _ => False) now lost
        session.store.tables sound.all.tables.coherent strands
    have leaves := leaves_writing sound.steady
      (works.leaves sound.steady .idle rfl)
    rw [← call.whole_of_strands strands] at leaves
    cases outcome : ((call.whole now).runOn session.store).1 with
    | ok value =>
        exact (integral strictly ⟨lost, strands, by rw [outcome]; rfl⟩).elim
    | error fault =>
        refine sound.passing rfl leaves.steady leaves.savepoints ?_
        change ((call.whole now).runOn session.store).2.tables.Sound strict session.known
        rw [(leaves.undone fault outcome).1]
        exact sound.all.tables
  · have passes :=
      Call.passes_whole sound.steady .idle
        (call.inside_works now knows) ⟨sound.all.tables, fine⟩ sound.all.tables
    exact sound.passing rfl passes.steady passes.savepoints passes.tables

/-- A writer that is opened keeps a session sound. -/
theorem openedWriter
    (sound : session.Sound strict)
    (now : Int)
    (text : String)
    (append : Bool) :
    (session.holdWriter (Writer.openPath now text append)).remembering.Sound strict := by
  have leaves :=
    Writer.leaves_openPath now text append sound.steady .idle sound.all.tables
      (fun path _ => Writer.start_sound now path append) fun _ _ _ sound => sound
  unfold holdWriter
  rcases ran : (Writer.openPath now text append).runOn session.store with ⟨fault | writer, left⟩
  · rw [ran] at leaves
    refine sound.passing rfl leaves.steady leaves.savepoints ?_
    change left.tables.Sound strict session.known
    rw [(leaves.undone fault rfl).1]
    exact sound.all.tables
  · rw [ran] at leaves
    obtain ⟨-, -, after⟩ := leaves.done writer rfl
    exact sound.passing rfl leaves.steady leaves.savepoints after

/-- A reader that is opened keeps a session sound. -/
theorem openedReader
    (sound : session.Sound strict)
    {opening : Action Reader}
    (opened : Reader.Opened session.store (opening.runOn session.store)) :
    (session.holdReader opening).remembering.Sound strict := by
  unfold holdReader
  rcases ran : opening.runOn session.store with ⟨fault | reader, left⟩ <;>
  · rw [ran] at opened
    refine sound.passing rfl opened.steady opened.savepoints ?_
    change left.tables.Sound strict session.known
    rw [opened.tables]
    exact sound.all.tables

/-- What steps of a writer keep: a steady store with its scopes and with sound tables. -/
private theorem stable
    (strict : Prop)
    (known : List Entry)
    (savepoints : List Tables)
    (now : Int) :
    Writer.Stable now fun _ store =>
      store.Steady ∧ store.savepoints = savepoints ∧ store.tables.Sound strict known := by
  have streamed :
      ∀ {α : Type} {store : Store} {action : Action α},
        (store.Steady ∧ store.savepoints = savepoints ∧ store.tables.Sound strict known) →
        Keeps (store.setting fun _ => False) (Tables.Sound strict known) action →
        ((streaming action).runOn store).2.Steady ∧
          ((streaming action).runOn store).2.savepoints = savepoints ∧
            ((streaming action).runOn store).2.tables.Sound strict known := by
    intro α store action before keeps
    have passes := keeps.passes before.1 .idle before.2.2 before.2.2
    exact ⟨passes.steady, passes.savepoints.trans before.2.1, passes.tables⟩
  constructor
  case steady =>
    exact fun _ _ before _ => before.1
  case watched =>
    exact fun _ _ _ before => before
  case buffered =>
    exact fun _ _ _ before _ _ => before
  case stored =>
    exact fun writer store before _ _ _ => streamed before (Writer.storeBuffer_keeps writer)
  case refused =>
    exact fun writer store _ before _ _ => streamed before (Writer.storeBuffer_keeps writer)
  case closed =>
    intro writer store guard before _ _
    obtain ⟨steady, same, sound⟩ := streamed before (Writer.complete_keeps now writer)
    exact ⟨steady.withLocks (steady.sane.release guard), same, sound⟩

/-- The use of a writer keeps a session sound. -/
theorem usedWriter
    (sound : session.Sound strict)
    (now : Int)
    (index : Nat)
    (use : WriterUse) :
    (session.onWriter index (use.run now)).remembering.Sound strict := by
  unfold onWriter
  cases session.writers[index]? with
  | none =>
      exact sound.passing rfl sound.steady rfl sound.all.tables
  | some writer =>
      obtain ⟨steady, same, after⟩ :=
        (stable strict session.known session.store.savepoints now).run use writer session.store
          ⟨sound.steady, rfl, sound.all.tables⟩
      exact sound.passing rfl steady same after

/-- The use of a reader keeps a session sound. -/
theorem usedReader
    (sound : session.Sound strict)
    (index : Nat)
    (use : ReaderUse) :
    (session.onReader index use.run).remembering.Sound strict := by
  unfold onReader
  cases session.readers[index]? with
  | none =>
      exact sound.passing rfl sound.steady rfl sound.all.tables
  | some reader =>
      rcases Reader.used_run reader sound.steady use with
        ⟨-, connected⟩ | ⟨guard, -, -, left⟩
      · have steady := connected.steady sound.steady
        obtain ⟨_, -, isLeft⟩ := connected
        refine sound.passing rfl steady ?_ ?_
        · change (use.run.runOn reader session.store).2.2.savepoints = _
          rw [isLeft]
        · change (use.run.runOn reader session.store).2.2.tables.Sound strict session.known
          rw [isLeft]
          exact sound.all.tables
      · refine sound.passing rfl ?_ ?_ ?_
        · change (use.run.runOn reader session.store).2.2.Steady
          rw [left]
          exact sound.steady.withLocks (sound.steady.sane.release guard)
        · change (use.run.runOn reader session.store).2.2.savepoints = _
          rw [left]
        · change (use.run.runOn reader session.store).2.2.tables.Sound strict session.known
          rw [left]
          exact sound.all.tables

/-- Waiting for a close, closing and resuming keep a session sound. -/
theorem closedOrResumed
    (sound : session.Sound strict)
    (locks : LockTable)
    (sane : locks.Sane)
    (closing closed connected : Bool) :
    Session.Sound strict (remembering
      { session with store := { session.store with locks, closing, closed, connected } }) := by
  have steady := sound.steady.withLocks sane
  exact sound.passing rfl
    ⟨⟨steady.damage, steady.writable, steady.others⟩, steady.gate, steady.free, steady.idle, sane,
      steady.unwritten, steady.outermost⟩
    rfl sound.all.tables

/-- A store that is opened on tables is steady. -/
theorem steady_opened
    (config : Config)
    (timed : Bool)
    (tables : Tables) :
    (opened config timed tables).Steady where
  damage := rfl
  writable := rfl
  others := rfl
  gate := rfl
  free := nofun
  idle _ := rfl
  sane := nofun
  unwritten _ := ⟨rfl, nofun⟩
  outermost := nofun

/-- A store that is opened anew keeps a session sound. -/
theorem reopened
    (sound : session.Sound strict)
    (config : Config)
    (timed : Bool) :
    Session.Sound strict (remembering
      { session with store := opened config timed session.store.kept }) :=
  sound.moving rfl (steady_opened _ _ _) ⟨sound.all.kept sound.steady, nofun⟩ (.inr rfl)

/-- Every event keeps a session sound, unless it strands others. -/
theorem after
    (sound : session.Sound strict)
    {now : Int}
    {event : Event}
    (possible : session.Possible event)
    (integral : strict → ¬session.Strands now event) :
    (session.after now event).Sound strict := by
  cases event with
  | begin =>
      exact sound.begun
  | nest =>
      exact sound.moving rfl (sound.steady.nested possible) sound.all.nested (.inl rfl)
  | finish kept =>
      exact sound.finished possible now kept
  | inside call =>
      exact sound.called possible.1 now possible.2 integral
  | whole call =>
      exact sound.calledWhole now possible integral
  | ask question =>
      have passes := question.passes_ask sound.steady sound.all.tables
      exact sound.passing rfl passes.steady passes.savepoints passes.tables
  | openWriter text append =>
      exact sound.openedWriter now text append
  | useWriter index use =>
      exact sound.usedWriter now index use
  | openReader text =>
      exact sound.openedReader (Reader.opened_openPath sound.steady text)
  | openReaderOf entry =>
      exact sound.openedReader (Reader.opened_openEntry sound.steady entry)
  | useReader index use =>
      exact sound.usedReader index use
  | drain paused =>
      have sane :
          (if paused then session.store.locks.pause else session.store.locks).Sane := by
        cases paused <;> exact sound.steady.sane
      exact sound.closedOrResumed _ sane true session.store.closed session.store.connected
  | close =>
      have steady := sound.steady
      refine sound.passing rfl ?_ (Eq.symm possible) sound.all.tables
      refine ⟨⟨steady.damage, steady.writable, steady.others⟩, ?_, nofun, fun _ => rfl, nofun,
        fun _ => ⟨steady.tables_eq_kept possible, nofun⟩, nofun⟩
      have gate := steady.gate
      rw [possible] at gate
      exact gate
  | resume =>
      exact sound.closedOrResumed session.store.locks.resume sound.steady.sane false false
        session.store.connected
  | reopen config timed =>
      exact sound.reopened config timed

/-- A session on a new store is sound. -/
theorem start
    {config : Config}
    (named : ∀ root ∈ config.roots, IsName root)
    (distinct : config.roots.Nodup)
    (timed : Bool)
    (now : Int) :
    (Session.start config timed now).Sound strict where
  steady := steady_opened _ _ _
  remembered := List.subset_append_left _ _
  all := ⟨(sound_seed named distinct now).knowing fun _ member => .inr member, nofun⟩

/-- A session is sound whatever happened in it, as long as nothing was stranded. -/
theorem of_reachable
    {allowed : Session → Int → Event → Prop}
    {first : Session}
    (sound : first.Sound strict)
    (integral :
      strict →
      ∀ session now event,
        session.Sound strict →
        allowed session now event →
        ¬session.Strands now event)
    (reachable : Reachable allowed first session) :
    session.Sound strict := by
  induction reachable with
  | refl =>
      exact sound
  | tail _ step inductionHypothesis =>
      obtain ⟨possible, isAllowed⟩ := step
      exact inductionHypothesis.after possible fun strictly =>
        integral strictly _ _ _ inductionHypothesis isAllowed

/-- While history is kept nothing is stranded. -/
theorem of_keeping
    {first : Session}
    (sound : first.Sound strict)
    (reachable :
      Reachable (fun session _ _ => session.store.config.keepHistory = true) first session) :
    session.Sound strict := by
  refine sound.of_reachable (fun _ session now event _ keeps strands => ?_) reachable
  cases event with
  | inside call | whole call =>
      rw [strands.1] at keeps
      exact Bool.false_ne_true keeps
  | _ =>
      exact strands

end Sound

end Session

end VersionStore
