import VersionStore.Proofs.Content.Sealed
import VersionStore.Proofs.Session.Edited

namespace VersionStore

/-!
# Files that keep their content

A live file that is not to be written to keeps its row and its content in a session, and what is
to be written in its place is refused. This lasts until the file is asked to be deleted, removed
or made writable, or a scope that was open before is undone. It also lasts only as long as no
open writer on the file is used. There may be one, because a writer that goes on behind the
content of a file may be opened whether the file is to be written to or not.
-/

open Tables VersionStore.Action

/-! ## Scopes that begin later -/

/-- Something holds of the tables of a store and of those that its scopes began with, the outer
scopes up to a depth aside. -/
structure Store.Since (depth : Nat) (holds : Tables → Prop) (store : Store) : Prop where
  tables : holds store.tables
  saved :
    ∀ inner saved outer,
      store.savepoints = inner ++ saved :: outer →
      depth ≤ outer.length →
      holds saved

namespace Store.Since

variable
  {depth : Nat}
  {holds : Tables → Prop}
  {store after : Store}

/-- What holds of the tables of a store holds since. -/
theorem of_tables
    (before : holds store.tables) :
    store.Since store.savepoints.length holds where
  tables := before
  saved inner saved outer split deep := by
    have longer := congrArg List.length split
    simp only [List.length_append, List.length_cons] at longer
    omega

/-- The tables may change while the scopes stay. -/
theorem stays
    (since : store.Since depth holds)
    (tables : holds after.tables)
    (savepoints : after.savepoints = store.savepoints) :
    after.Since depth holds :=
  ⟨tables, savepoints ▸ since.saved⟩

/-- A scope begins. -/
theorem opens
    (since : store.Since depth holds)
    (tables : after.tables = store.tables)
    (savepoints : after.savepoints = store.tables :: store.savepoints) :
    after.Since depth holds where
  tables := tables ▸ since.tables
  saved inner saved outer split deep := by
    rw [savepoints] at split
    cases inner with
    | nil =>
        cases split
        exact since.tables
    | cons next inner =>
        exact since.saved inner saved outer (List.cons.inj split).2 deep

/-- The innermost scope ends. It is undone only if it began later. -/
theorem closes
    {saved : Tables}
    {outer : List Tables}
    (since : store.Since depth holds)
    (around : store.savepoints = saved :: outer)
    (savepoints : after.savepoints = outer)
    (tables : after.tables = store.tables ∨ after.tables = saved ∧ depth ≤ outer.length) :
    after.Since depth holds where
  tables := by
    rcases tables with same | ⟨same, deep⟩
    · exact same ▸ since.tables
    · exact same ▸ since.saved [] saved outer around deep
  saved inner other others split deep := by
    refine since.saved (saved :: inner) other others ?_ deep
    rw [around, ← savepoints, split]
    rfl

end Store.Since

namespace Session

variable
  {session : Session}
  {depth : Nat}
  {holds : Tables → Prop}
  {now : Int}
  {event : Event}

/-- What holds since holds since after a quiet event, unless a scope is undone that began
before. -/
theorem since_quiet
    (steady : session.store.Steady)
    (now : Int)
    (quiet : Quiet event)
    (feasible : session.Feasible event)
    (later : event = .finish false → depth < session.store.savepoints.length)
    (since : session.store.Since depth holds) :
    (session.after now event).store.Since depth holds := by
  cases event with
  | inside | whole | openWriter | useWriter =>
      exact quiet.elim
  | begin =>
      change (beginWriting.runOn session.store).2.Since depth holds
      rw [runOn_beginWriting steady.toAlone]
      split_ifs
      · exact since
      · exact since
      · exact since
      · exact since.opens rfl rfl
  | nest =>
      exact since.opens rfl rfl
  | finish kept =>
      change
        ((if session.store.savepoints.length = 1 then endWriting kept else endScope kept).runOn
          session.store).2.Since depth holds
      obtain ⟨saved, outer, around⟩ := List.exists_cons_of_ne_nil feasible
      have deep (undone : kept = false) : depth ≤ outer.length := by
        have longer := later (congrArg Event.finish undone)
        rw [around, List.length_cons] at longer
        omega
      cases outer with
      | nil =>
          rw [if_pos (by simp [around]), runOn_endWriting steady.toAlone around]
          cases kept with
          | true =>
              exact since.closes around rfl (.inl rfl)
          | false =>
              rw [Store.ended_false steady.toAlone]
              exact since.closes around rfl (.inr ⟨rfl, deep rfl⟩)
      | cons next outer =>
          rw [if_neg (by simp [around])]
          cases kept with
          | true =>
              rw [show endScope true = commitScope from rfl, runOn_commitScope_inner around]
              exact since.closes around rfl (.inl rfl)
          | false =>
              rw [show endScope false = rollbackScope from rfl, runOn_rollbackScope_inner around]
              exact since.closes around rfl (.inr ⟨rfl, deep rfl⟩)
  | _ =>
      obtain ⟨tables, savepoints⟩ := tables_still steady now feasible trivial
      exact since.stays (tables ▸ since.tables) savepoints

/-! ## What a sealed file outlasts -/

/-- A file is asked to be deleted, removed or made writable, an open writer on it is used, or a
scope is undone that is one of the outer ones up to a depth. -/
def Unseals (session : Session) (depth : Nat) (id : Int) : Event → Prop
  | .inside call | .whole call => call.Asks session.store.tables id
  | .useWriter index _ =>
      ∃ writer,
        session.writers[index]? = some writer ∧ writer.isClosed = false ∧ writer.fileId = id
  | .finish kept => kept = false ∧ session.store.savepoints.length ≤ depth
  | _ => False

/-- A file is sealed in a session, since the scopes up to a depth began. -/
structure Seals (session : Session) (depth : Nat) (version : Entry) (parts : List Part) : Prop where
  sound : session.Sound False
  tailed : session.Tailed
  since : session.store.Since depth (Sealed version parts)

/-- A file stays sealed as long as nothing unseals it. -/
theorem Seals.after
    {version : Entry}
    {parts : List Part}
    (seals : session.Seals depth version parts)
    (isFile : version.isDirectory = false)
    (possible : session.Possible event)
    (spares : ¬session.Unseals depth version.id event) :
    (session.after now event).Seals depth version parts where
  sound := seals.sound.after possible fun absurd => absurd.elim
  tailed := seals.tailed.after seals.sound.steady now possible.feasible
  since := by
    have coherent := seals.sound.all.tables.coherent
    have listed : session.store.tables.Listed := ⟨coherent.ids, coherent.id_le⟩
    have isSealed := seals.since.tables
    have given : version.id ≤ session.store.tables.lastEntryId := by
      obtain ⟨row, member, sealedIn⟩ := isSealed.row
      exact sealedIn.id ▸ listed.row_le row member
    have called
        {call : Call}
        (isCall : event = .inside call ∨ event = .whole call)
        (spared : ¬call.Asks session.store.tables version.id) :
        (session.after now event).store.Since depth (Sealed version parts) := by
      obtain ⟨makes, savepoints⟩ := made_after seals.sound possible isCall
      refine seals.since.stays (makes.preserves ?_ ?_ isSealed) savepoints
      · exact fun _ _ _ edit => edit.sealed isFile spared given
      · intro id paths
        obtain ⟨targets, links, isResult⟩ := setLinks_eq id paths session.store.tables
        rw [isResult]
        exact ⟨isSealed.row, isSealed.pieces⟩
    cases event with
    | inside call =>
        exact called (.inl rfl) spares
    | whole call =>
        exact called (.inr rfl) spares
    | openWriter text append =>
        obtain ⟨edited, savepoints⟩ := edited_openWriter seals.sound text append
        exact seals.since.stays
          (edited.preserves (fun _ _ _ edit => edit.sealed isFile id given) isSealed) savepoints
    | useWriter index use =>
        change (session.onWriter index (use.run now)).store.Since depth _
        cases found : session.writers[index]? with
        | none =>
            rw [onWriter_none found]
            exact seals.since
        | some writer =>
            rw [onWriter_eq found]
            have other (open_ : writer.isClosed = false) : writer.fileId ≠ version.id :=
              fun same => spares ⟨writer, found, open_, same⟩
            obtain ⟨tables, savepoints⟩ :=
              Writer.tables_run (stores_sealed version parts) seals.sound.steady isSealed
                (fun open_ => ⟨other open_, other open_, fun id isTail part isPart isId => by
                  rw [(seals.tailed.tail writer (List.mem_of_getElem? found) id isTail).tables.file
                    part isPart isId]
                  exact other open_⟩) now use
            exact seals.since.stays tables savepoints
    | finish kept =>
        refine since_quiet seals.sound.steady now trivial possible.feasible (fun undone => ?_)
          seals.since
        cases undone
        exact not_le.mp fun outer => spares ⟨rfl, outer⟩
    | _ =>
        exact since_quiet seals.sound.steady now trivial possible.feasible nofun seals.since

end Session

/-! ## Attempts to write -/

/-- A call that is to put a new content at a path text: what is written there, or a copy of a
file whose lock is given. -/
def Call.Overwrites (store : Store) (text : String) : Call → Prop
  | write target _ _ _ | writeFrom target _ _ _ => target = text
  | copy target source _ =>
      target = text ∧
        ∃ path entry,
          CleanPath.ofText source = .ok path ∧ store.tables.FileAt path entry ∧
            store.locks.gives entry.id false = true
  | _ => False

/-- A store takes changes by themselves. -/
structure Store.Receives (store : Store) : Prop where
  outside : store.savepoints = []
  opened : store.closed = false
  staying : store.closing = false

/-- What is to be written at a path text is refused, in a scope that is open and in one of its
own. Versions that are to be restored there are counted as failed. -/
structure Store.Bars (store : Store) (text : String) (path : CleanPath) : Prop where
  inside :
    ∀ now (call : Call),
      store.savepoints ≠ [] →
      call.Overwrites store text →
      store.Replies (call.inside now) (.error (.invalidDestination path.text))
  whole :
    ∀ now (call : Call),
      store.Receives →
      call.Overwrites store text →
      store.Replies (call.whole now) (.error (.invalidDestination path.text))
  recoverInside :
    ∀ now (infos : List TrashEntry),
      store.savepoints ≠ [] →
      infos.length = 1 ∨ (∀ info ∈ infos, IsName info.entry.name) →
      store.Replies (Txn.recover now text infos) (.ok (0, infos.length))
  recover :
    ∀ now (infos : List TrashEntry),
      store.Receives →
      infos.length = 1 ∨ (∀ info ∈ infos, IsName info.entry.name) →
      store.Replies (Store.recover now text infos) (.ok (0, infos.length))
  openPath :
    ∀ now,
      store.Receives →
      store.Replies (Writer.openPath now text false) (.error (.invalidDestination path.text))

/-- A writer does not begin a new file in the place of one that is not to be written to. -/
theorem Writer.start_refuses
    {setting : Setting}
    {gives : Int → Bool → Bool}
    {start : Tables}
    {path : CleanPath}
    {entry : Entry}
    (here : start.FileAt path entry)
    (barred : entry.writable = false)
    (now : Int) :
    Refuses setting gives start (Writer.start now path false) (.invalidDestination path.text) := by
  refine .known _ (Txn.entryAt?_known path) ?_
  rw [here.found]
  simp only [here.isFile, barred, throw_bind, Bool.not_false, Bool.false_eq_true, if_false, if_true]
  exact .of_works (.throw fun _ same => ⟨rfl, same⟩)

section Barred

variable
  {setting : Setting}
  {store : Store}
  {text : String}
  {path : CleanPath}
  {entry : Entry}
  (isPath : CleanPath.ofText text = .ok path)
  (here : store.tables.FileAt path entry)
  (barred : entry.writable = false)

include isPath here barred

/-- A call that is to overwrite a file that is not to be written to is refused. -/
theorem Call.inside_refuses
    (now : Int)
    {call : Call}
    (overwrites : call.Overwrites store text) :
    Refuses setting store.locks.gives store.tables (call.inside now)
      (.invalidDestination path.text) := by
  cases call with
  | write target data links? time? =>
      cases overwrites
      exact (Txn.writeFrom_refuses here barred now isPath _ links? time?).stops _
  | writeFrom target source links? time? =>
      cases overwrites
      exact (Txn.writeFrom_refuses here barred now isPath source links? time?).stops _
  | copy target source time? =>
      obtain ⟨rfl, origin, copied, isOrigin, there, isGiven⟩ := overwrites
      exact (Txn.copy_refuses here barred now isPath isOrigin there isGiven time?).stops _
  | _ =>
      exact overwrites.elim

/-- What is to be written in the place of a file that is not to be written to is refused. -/
theorem Store.Steady.bars
    (steady : store.Steady)
    {strict : Prop}
    {known : List Entry}
    (sound : store.tables.Sound strict known) :
    store.Bars text path where
  inside now call opened overwrites :=
    ((call.inside_refuses isPath here barred now overwrites) store
      (steady.inScope opened .idle) rfl rfl).2
  whole now call receives overwrites := by
    have same : (call.whole now).runOn store = (writing (call.inside now)).runOn store := by
      cases call with
      | write | writeFrom | copy =>
          exact runOn_writing_ignoring _ store
      | _ =>
          exact overwrites.elim
    rw [Store.Replies, same]
    exact (call.inside_refuses isPath here barred now overwrites).writing
      ⟨steady, receives.outside, receives.opened⟩ receives.staying .idle
  recoverInside now infos opened named :=
    (Txn.recover_fails now sound here barred isPath named).replies (steady.inScope opened .idle)
  recover now infos receives named := by
    obtain ⟨value, left, ran, -, rfl, tables⟩ :=
      (Txn.recover_fails now sound here barred isPath named).runs_writing
        ⟨steady, receives.outside, receives.opened⟩ receives.staying .idle rfl
    rw [Store.Replies, Store.recover, ran]
    exact ⟨rfl, tables⟩
  openPath now receives := by
    obtain ⟨outcome, tables⟩ :=
      (Writer.start_refuses here barred now).writing ⟨steady, receives.outside, receives.opened⟩
        receives.staying .idle
    rw [Store.Replies, Writer.openPath, runOn_bind, Txn.clean, isPath, runOn_ofExcept]
    dsimp only
    rw [runOn_bind]
    rcases ran : (writing (Writer.start now path false)).runOn store with ⟨fault | writer, left⟩
    · rw [ran] at outcome tables
      cases outcome
      exact ⟨rfl, tables⟩
    · rw [ran] at outcome
      cases outcome

end Barred

namespace Session

variable {session : Session}

/-- A live file that is not to be written to keeps its row, its length, its checksum and its
content, wherever it is moved, and what is to be written in its place is refused. This lasts
until it is asked to be deleted, removed or made writable, or a scope is undone that was open
before, as long as no open writer on the file is used. A writer that goes on behind its content
can be opened, though. -/
theorem sealed_of_reachable
    {config : Config}
    (named : ∀ root ∈ config.roots, IsName root)
    (distinct : config.roots.Nodup)
    {timed : Bool}
    {since : Int}
    (before : Reachable (fun _ _ _ => True) (start config timed since) session)
    {version : Entry}
    (member : version ∈ session.store.tables.entries)
    (isFile : version.isDirectory = false)
    (live : version.isDeleted = false)
    (barred : version.writable = false)
    {later : Session}
    (reachable :
      Reachable
        (fun next _ event => ¬next.Unseals session.store.savepoints.length version.id event)
        session later) :
    ∃ row,
      later.store.tables.entry? version.id = some row ∧ version.SealedIn row ∧
        later.store.tables.contents version.id = session.store.tables.contents version.id ∧
          (∃ path, later.store.tables.lookupAt? path = some row) ∧
            ∀ text path,
              CleanPath.ofText text = .ok path →
              later.store.tables.lookupAt? path = some row →
              later.store.Bars text path := by
  have sound
      (next : Session)
      (reached : Reachable (fun _ _ _ => True) (start config timed since) next) :
      next.Sound False :=
    .of_reachable (.start named distinct timed since) (fun absurd => absurd.elim) reached
  have tailed : session.Tailed :=
    .of_reachable (Orderly.start config timed since).tailed
      (fun next reached => (sound next reached).steady) before
  have seals :
      later.Seals session.store.savepoints.length version
        (session.store.tables.pieces version.id) := by
    induction reachable with
    | refl =>
        exact ⟨sound _ before, tailed, .of_tables (.refl member live barred)⟩
    | tail _ step inductionHypothesis =>
        obtain ⟨possible, spares⟩ := step
        exact inductionHypothesis.after isFile possible spares
  have laterSound := seals.sound
  have coherent := laterSound.all.tables.coherent
  obtain ⟨row, isRow, sealedIn⟩ := seals.since.tables.row
  obtain ⟨names, here⟩ := coherent.exists_at isRow sealedIn.live
  refine ⟨row, coherent.entry?_eq_some_iff.mpr ⟨isRow, sealedIn.id.symm⟩, sealedIn, ?_,
    ⟨⟨names⟩, coherent.lookupAt?_eq_some_iff.mpr here⟩, fun text path isPath found => ?_⟩
  · exact seals.tailed.ordered.tables.contents_congr tailed.ordered.tables seals.since.tables.pieces
  · exact laterSound.steady.bars isPath ⟨found, sealedIn.isDirectory.symm.trans isFile⟩
      sealedIn.barred laterSound.all.tables

/-- A file that is not to be written to is moved, and nothing can be written in its new place. -/
theorem sealed_moveTo :
    let session :=
      ((start {} false 0).after 1 (.whole (.write "home/a" ⟨#[1]⟩ none none))).after 2
        (.whole (.setWritable "home/a" false))
    let later := (session.after 3 (.whole (.moveTo "home/b" "home/a" none))).after 4 .begin
    ∃ version ∈ session.store.tables.entries,
      version.writable = false ∧
        later.store.tables.contents version.id = session.store.tables.contents version.id ∧
          later.store.Replies ((Call.write "home/b" ⟨#[2]⟩ none none).inside 5)
            (.error (.invalidDestination "home/b")) := by
  intro session later
  have written :
      Step (fun _ _ _ => True) (start {} false 0)
        ((start {} false 0).after 1 (.whole (.write "home/a" ⟨#[1]⟩ none none))) :=
    .event trivial trivial
  have before : Reachable (fun _ _ _ => True) (start {} false 0) session :=
    (Relation.ReflTransGen.single written).tail (.event trivial trivial)
  have barred :
      session.store.tables.entries.any (fun entry =>
        entry.id == 5 && !entry.isDirectory && !entry.isDeleted && !entry.writable) = true := by
    decide +kernel
  obtain ⟨version, member, isVersion⟩ := List.any_eq_true.mp barred
  simp only [Bool.and_eq_true, beq_iff_eq, Bool.not_eq_true'] at isVersion
  obtain ⟨⟨⟨isFive, isFile⟩, live⟩, readOnly⟩ := isVersion
  have moved :
      Step
        (fun next _ event => ¬next.Unseals session.store.savepoints.length version.id event)
        session (session.after 3 (.whole (.moveTo "home/b" "home/a" none))) :=
    .event trivial id
  have reachable :
      Reachable
        (fun next _ event => ¬next.Unseals session.store.savepoints.length version.id event)
        session later :=
    (Relation.ReflTransGen.single moved).tail (.event trivial id)
  have opened : later.store.savepoints.isEmpty = false := by
    decide +kernel
  have isMoved :
      (later.store.tables.lookupAt? ⟨[⟨"home", by decide⟩, ⟨"b", by decide⟩]⟩).map (·.id) =
        some 5 := by
    decide +kernel
  obtain ⟨entry, found, isEntry⟩ := Option.map_eq_some_iff.mp isMoved
  have movedAtAll :
      Step (fun _ _ _ => True) session
        (session.after 3 (.whole (.moveTo "home/b" "home/a" none))) :=
    .event trivial trivial
  have allowed : Reachable (fun _ _ _ => True) (start {} false 0) later :=
    (before.tail movedAtAll).tail (.event trivial trivial)
  have sound : later.Sound False :=
    Sound.of_reachable (.start (by decide) (by decide) false 0) (fun absurd => absurd.elim) allowed
  have coherent := sound.all.tables.coherent
  obtain ⟨row, isRow, -, contents, -, bars⟩ :=
    sealed_of_reachable (by decide) (by decide) before member isFile live readOnly reachable
  have isEntryThere : later.store.tables.entry? version.id = some entry :=
    coherent.entry?_eq_some_iff.mpr
      ⟨(coherent.lookupAt?_eq_some_iff.mp found).member, isEntry.trans isFive.symm⟩
  obtain rfl : entry = row := Option.some.inj (isEntryThere.symm.trans isRow)
  refine ⟨version, member, readOnly, contents, ?_⟩
  exact (bars "home/b" _ (by decide) found).inside 5 _ (by simpa using opened) rfl

end Session

end VersionStore
