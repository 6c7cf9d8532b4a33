import VersionStore.Proofs.Session.Enduring
import VersionStore.Proofs.Session.LiveTree
import VersionStore.Proofs.Tree.Garbage

namespace VersionStore

/-!
# Versions in the trash

While history is kept, a file that is in the trash stays there, row and content, until
someone asks for this very version to be removed, or a sweep accepts it. Its directory may
move, be deleted or be made anew in the meantime: the version is found under the path that
its directory has now.

Nothing writes to such a version either. A file goes to the trash only while no one has it
open, and no one opens it there.
-/

open Tables VersionStore.Action

/-! ## Searching the trash -/

namespace Tables

variable {tables : Tables} {version : Entry}

/-- One row has the id of a row. -/
theorem Coherent.filter_id_eq
    (coherent : tables.Coherent)
    (member : version ∈ tables.entries) :
    tables.entries.filter (·.id == version.id) = [version] := by
  have once : (tables.entries.filter (·.id == version.id)).length ≤ 1 := by
    have apart : (tables.entries.map (·.id)).Nodup := coherent.ids.imp Int.ne_of_lt
    have count := List.nodup_iff_count_le_one.mp apart version.id
    rwa [List.count, List.countP_map, List.countP_eq_length_filter] at count
  have isMember : version ∈ tables.entries.filter (·.id == version.id) :=
    List.mem_filter.mpr ⟨member, by simp⟩
  obtain ⟨only, isOnly⟩ : ∃ only, tables.entries.filter (·.id == version.id) = [only] := by
    refine List.length_eq_one_iff.mp ?_
    have some_ := List.length_pos_of_mem isMember
    omega
  rw [isOnly] at isMember ⊢
  rw [List.mem_singleton.mp isMember]

/-- A search of the whole trash for one id finds the version with this id. -/
theorem Coherent.searchHistory_id
    (coherent : tables.Coherent)
    (member : version ∈ tables.entries)
    (isTrashed : isTrashedFile version = true)
    {path : String}
    (isPath : tables.directoryPath? version.directoryId = some path) :
    Txn.searchHistory tables "" "" "" (-1) (fun _ listed => listed.entry.id == version.id) =
      [⟨path, version⟩] := by
  have everywhere : tables.trashedFiles.filter (fun placed => isPlacedUnder "" placed.directory) =
      tables.trashedFiles := by
    refine List.filter_eq_self.mpr fun placed _ => ?_
    cases placed.directory <;> rfl
  have listed :
      ((tables.trashUnder "" (-1)).filter fun listed => listed.entry.id == version.id).Perm
        [⟨path, version⟩] := by
    rw [trashUnder, trashListing, everywhere, limit_of_neg (by decide)]
    refine (((List.mergeSort_perm _ _).filterMap _).filter _).trans (.of_eq ?_)
    calc
      (tables.trashedFiles.filterMap Placed.trashEntry?).filter (·.entry.id == version.id)
          = ((tables.entries.filter (·.id == version.id)).filter isTrashedFile).filterMap
              fun entry => Placed.trashEntry? (tables.place entry) := by
            rw [trashedFiles, List.filterMap_map, List.filter_filterMap, List.filter_comm]
            generalize tables.entries.filter isTrashedFile = rows
            rw [List.filterMap_filter]
            refine List.filterMap_congr fun entry _ => ?_
            simp only [Function.comp_apply, Placed.trashEntry?, place]
            cases tables.directoryPath? entry.directoryId <;> simp [Option.filter]
      _ = [⟨path, version⟩] := by
            rw [coherent.filter_id_eq member, List.filter_cons_of_pos isTrashed]
            simp [Placed.trashEntry?, place, isPath]
  rw [Txn.searchHistory, if_neg (by decide), if_pos (by decide), Txn.Selector.filter_pure,
    listed.eq_singleton, limit_of_neg (by decide)]
  rfl

end Tables

/-! ## Files that are written to -/

/-- Pruning may remove a file, but brings none into the trash. -/
theorem Txn.prune_unshelved
    {setting : Setting}
    (now : Int)
    (file : Int)
    (entry : Entry) :
    Works setting (fun tables => tables.Unshelved file ∧ Agrees entry tables)
      (prune now entry)
      (fun _ => Unshelved file)
      fun _ => Unshelved file := by
  refine .ite (fun isDirectory => ?_) fun _ => ?_
  · refine .bind (fun _ tables => tables.Unshelved file ∧ Agrees entry tables)
      (.query fun _ before => before) fun empty => ?_
    refine .ite (fun _ => ?_) fun _ => .pure fun _ before => before.1
    refine .bind (fun _ => Unshelved file) (trashRow_works ?_) fun _ => .pure fun _ stays => stays
    rintro tables ⟨unshelved, agrees⟩
    refine unshelved.modifyEntry fun row member same => ⟨same, fun _ => ?_⟩
    simp [isTrashedFile, agrees row member same, isDirectory]
  · refine .bind (fun _ => Unshelved file) (pruneRow_works ?_) fun _ => .pure fun _ stays => stays
    rintro tables ⟨unshelved, -⟩
    split
    · exact unshelved.fewer (List.filter_subset_self _) rfl
    · exact unshelved.fewer (List.filter_subset_self _) rfl

/-- No call brings a file into the trash that someone has open. -/
theorem Call.inside_unshelved
    {setting : Setting}
    {known : List Entry}
    {file : Int}
    (now : Int)
    {call : Call}
    (knows : call.Knows known)
    (held : setting.held file) :
    Works setting (fun tables => tables.Unshelved file ∧ tables.Knows known)
      (call.inside now)
      (fun _ => Unshelved file)
      fun _ => Unshelved file := by
  have others
      (respects :
        ∀ tables : Tables,
          tables.Unshelved file →
          call.Respects (fun _ => True) (· ≠ file) tables) :
      Works setting (fun tables => tables.Unshelved file ∧ tables.Knows known)
        (call.inside now)
        (fun _ => Unshelved file)
        fun _ => Unshelved file := by
    refine Works.asking (call.inside_endures (endures_unshelved file) ?_ now)
      fun tables before => ⟨before.1, respects tables before.1⟩
    rintro id - free rfl
    exact free held
  have apart {tables : Tables} {entry : Entry}
      (unshelved : tables.Unshelved file)
      (trashed : entry ∈ tables.entries ∧ entry.isDeleted = true ∧ entry.isDirectory = false) :
      entry.id ≠ file := by
    intro same
    have live := unshelved.live entry trashed.1 same
    simp [isTrashedFile, trashed] at live
  cases call with
  | prune entry =>
      rw [inside, Works.ignoring_iff]
      exact Works.asking (Txn.prune_unshelved now file entry) fun tables before =>
        ⟨before.1, before.2.kind entry knows⟩
  | pruneHistory infos all =>
      refine others fun tables unshelved info _ _ version member => ⟨trivial, ?_⟩
      obtain ⟨inTable, isFile, trashed⟩ := Txn.of_mem_versionsMeant member
      exact apart unshelved ⟨inTable, trashed, isFile⟩
  | sweep select? =>
      exact others fun tables unshelved file member =>
        ⟨trivial, apart unshelved (Txn.of_mem_accepted member)⟩
  | _ =>
      exact others fun _ _ => trivial

/-- A call asks for a row to be removed, or for a listing that it is part of, or it is a sweep that
accepts it. -/
def Call.Discards (tables : Tables) (id : Int) : Call → Prop
  | deleteEntry entry | prune entry => entry.id = id
  | pruneHistory infos all =>
      ∃ info ∈ infos,
        info.entry.isDirectory = false ∧
          ∃ version ∈ Txn.versionsMeant tables all info, version.id = id
  | sweep select? => ∃ file ∈ Txn.accepted select? tables, file.entry.id = id
  | _ => False

/-- What is not asked for is not touched. -/
theorem Call.respects_of_not_discards
    {tables : Tables}
    {id : Int}
    {call : Call}
    (spared : ¬call.Discards tables id) :
    call.Respects (· ≠ id) (· ≠ id) tables := by
  cases call with
  | deleteEntry entry =>
      exact spared
  | prune entry =>
      exact ⟨spared, spared⟩
  | pruneHistory infos all =>
      intro info isInfo isFile version member
      have apart : version.id ≠ id := fun same => spared ⟨info, isInfo, isFile, version, member, same⟩
      exact ⟨apart, apart⟩
  | sweep select? =>
      intro file member
      have apart : file.entry.id ≠ id := fun same => spared ⟨file, member, same⟩
      exact ⟨apart, apart⟩
  | _ =>
      trivial

namespace Session

variable {session next : Session} {version : Entry}

/-- The files that writers have open are not in the trash. -/
def WritesLive (session : Session) : Prop :=
  ∀ writer ∈ session.writers,
    writer.isClosed = false →
    session.store.All (Unshelved writer.fileId)

/-- A file that a writer has open stays out of the trash. -/
theorem all_unshelved_after
    {strict : Prop}
    (sound : session.Sound strict)
    {file : Int}
    (held : session.store.locks.hold? file ≠ none)
    (all : session.store.All (Unshelved file))
    (now : Int)
    {event : Event}
    (possible : session.Possible event) :
    (session.after now event).store.All (Unshelved file) := by
  have steady := sound.steady
  have fits : session.store.Fits (session.store.setting (fun _ => False) (· = file)) :=
    ⟨rfl, fun _ absurd => absurd.elim, fun id same => same ▸ held⟩
  have enough : session.store.tables.Unshelved file ∧ session.store.tables.Knows session.known :=
    ⟨all.tables, sound.all.tables.knows⟩
  have others
      (respects : session.Respects (fun _ => True) (· ≠ file) event)
      (notWriting : ∀ index use, event ≠ .useWriter index use) :
      (session.after now event).store.All (Unshelved file) := by
    refine all_after (endures_unshelved file) ?_ steady fits all now possible.feasible respects
      fun index use _ same => (notWriting index use same).elim
    rintro id - free rfl
    exact free rfl
  cases event with
  | inside call =>
      exact all_inside steady fits all (call.inside_unshelved now possible.2 rfl) possible.1 enough
  | whole call =>
      exact all_whole steady fits all (call.inside_unshelved now possible rfl) enough
  | useWriter index use =>
      change (session.onWriter index (use.run now)).store.All _
      unfold onWriter
      cases found : session.writers[index]? with
      | none =>
          exact all
      | some writer =>
          exact Writer.all_run (stores_unshelved file) steady all
            (fun _ => ⟨trivial, trivial, fun _ _ _ _ _ => trivial⟩) now use
  | _ =>
      exact others trivial nofun

/-- A writer is opened on a file that is not in the trash. -/
theorem all_unshelved_opened
    {strict : Prop}
    (sound : session.Sound strict)
    {now : Int}
    {text : String}
    {append : Bool}
    {writer : Writer}
    (isOpened : ((Writer.openPath now text append).runOn session.store).1 = .ok writer) :
    ((Writer.openPath now text append).runOn session.store).2.All (Unshelved writer.fileId) := by
  have sane :=
    Writer.leaves_openPath now text append sound.steady .idle sound.all.tables
      (fun path _ => Writer.start_sound now path append) fun _ _ _ sound => sound
  have coherent := sound.all.tables.coherent
  have opens :=
    Writer.openPath_endures endures_listed.toEndures endures_listed.fresh
      (fun _ _ _ => trivial) sound.steady .idle ⟨coherent.ids, coherent.id_le⟩ now text append
  obtain ⟨-, -, after⟩ := sane.done writer isOpened
  exact sane.all_done isOpened
    (after.coherent.unshelved (opens.done writer isOpened).2.2.2.2.hasLive)

/-- Writers go on to have only files open that are not in the trash. -/
theorem WritesLive.after
    {strict : Prop}
    (live : session.WritesLive)
    (sound : session.Sound strict)
    (orderly : session.Orderly)
    (now : Int)
    {event : Event}
    (possible : session.Possible event) :
    (session.after now event).WritesLive := by
  intro writer member open_
  rcases writer_origin sound.steady now member with
    ⟨old, oldMember, sameFile, -, wasOpen⟩ | ⟨text, append, rfl, isOpened⟩
  · rw [sameFile]
    have locked := orderly.current.exclusive_of_writer orderly.accounted oldMember (wasOpen open_)
    exact all_unshelved_after sound (by simp [locked]) (live old oldMember (wasOpen open_)) now
      possible
  · change (session.holdWriter (Writer.openPath now text append)).store.All _
    rw [holdWriter_store]
    exact all_unshelved_opened sound isOpened

/-! ## Keeping versions -/

/-- History is kept, and every close waits for the streams to end. -/
def KeepsHistory (session : Session) (_ : Int) : Event → Prop
  | .close => session.store.isDrained = true
  | .reopen config _ => config.keepHistory = true
  | _ => True

/-- An event asks for a row to be removed, or for a listing that it is part of, or it is a sweep
that accepts it. -/
def Discards (session : Session) (id : Int) : Event → Prop
  | .inside call | .whole call => call.Discards session.store.tables id
  | _ => False

/-- What is not asked for is not touched. -/
theorem respects_of_not_discards
    {id : Int}
    {event : Event}
    (spared : ¬session.Discards id event) :
    session.Respects (· ≠ id) (· ≠ id) event := by
  cases event with
  | inside call | whole call =>
      exact call.respects_of_not_discards spared
  | _ =>
      trivial

/-- A session that kept history all along. -/
structure Keeping (session : Session) : Prop where
  sound : session.Sound True
  orderly : session.Orderly
  history : session.store.config.keepHistory = true
  live : session.WritesLive

namespace Keeping

/-- A new store that keeps history. -/
theorem start
    {config : Config}
    (named : ∀ root ∈ config.roots, IsName root)
    (distinct : config.roots.Nodup)
    (history : config.keepHistory = true)
    (timed : Bool)
    (now : Int) :
    (Session.start config timed now).Keeping where
  sound := .start named distinct timed now
  orderly := .start config timed now
  history := history
  live _ member := absurd member List.not_mem_nil

/-- A session goes on to keep history. -/
theorem after
    (keeping : session.Keeping)
    {now : Int}
    {event : Event}
    (possible : session.Possible event)
    (keeps : session.KeepsHistory now event) :
    (session.after now event).Keeping where
  sound := by
    refine keeping.sound.after possible fun _ strands => ?_
    have history := keeping.history
    cases event with
    | inside call | whole call =>
        exact Bool.false_ne_true (strands.1.symm.trans history)
    | _ =>
        exact strands
  orderly := keeping.orderly.after now possible.feasible fun isClose => by
    subst isClose
    exact keeps
  history := by
    by_cases isReopen : ∃ config timed, event = .reopen config timed
    · obtain ⟨config, timed, rfl⟩ := isReopen
      exact keeps
    · rw [keeping.orderly.accounted.config_after now possible.feasible
        fun config timed same => isReopen ⟨config, timed, same⟩]
      exact keeping.history
  live := keeping.live.after keeping.sound keeping.orderly now possible

/-- A session keeps history as long as its events do. -/
theorem of_reachable
    {allowed : Session → Int → Event → Prop}
    {first : Session}
    (keeping : first.Keeping)
    (keeps : ∀ session now event, allowed session now event → session.KeepsHistory now event)
    (reachable : Reachable allowed first session) :
    session.Keeping := by
  induction reachable with
  | refl =>
      exact keeping
  | tail _ step before =>
      obtain ⟨possible, isAllowed⟩ := step
      exact before.after possible (keeps _ _ _ isAllowed)

/-- A version in the trash is secure, because no writer has it open. -/
theorem secure
    (keeping : session.Keeping)
    (outside : session.store.savepoints = [])
    (member : version ∈ session.store.tables.entries)
    (isTrashed : isTrashedFile version = true) :
    session.Secure (· ≠ version.id) (· ≠ version.id)
      (Shelved version (session.store.tables.pieces version.id)) := by
  have coherent := keeping.sound.all.tables.coherent
  refine ⟨⟨⟨⟨coherent.id_le version member, rfl⟩, member, fun entry isEntry same => ?_⟩, ?_⟩, ?_⟩
  · exact coherent.entry_eq isEntry member same
  · rw [outside]
    nofun
  · intro writer isWriter open_
    have apart : writer.fileId ≠ version.id := by
      intro same
      have live := (keeping.live writer isWriter open_).tables.live version member same.symm
      exact Bool.false_ne_true (live.symm.trans isTrashed)
    exact ⟨apart, apart⟩

end Keeping

/-- A version in the trash stays secure as long as no one asks for its removal. -/
theorem Secure.of_reachable
    {rows contents : Int → Prop}
    {holds : Tables → Prop}
    {allowed : Session → Int → Event → Prop}
    {first : Session}
    (secure : first.Secure rows contents holds)
    (keeping : first.Keeping)
    (endures : EnduresWriting rows contents holds)
    (claimed : ∀ id, rows id → contents id)
    (keeps :
      ∀ session now event,
        allowed session now event →
        session.KeepsHistory now event ∧ session.Respects rows contents event)
    (reachable : Reachable allowed first session) :
    session.Secure rows contents holds ∧ session.Keeping := by
  induction reachable with
  | refl =>
      exact ⟨secure, keeping⟩
  | tail _ step before =>
      obtain ⟨possible, isAllowed⟩ := step
      obtain ⟨secure, keeping⟩ := before
      obtain ⟨history, respects⟩ := keeps _ _ _ isAllowed
      refine ⟨?_, keeping.after possible history⟩
      exact secure.after keeping.orderly.tailed endures (fun id row _ => claimed id row)
        keeping.sound.steady .idle _ possible.feasible respects

/-- While history is kept and no close is forced, a file that got into the trash stays there with
its row and its content, whatever happens, until someone asks for its removal or a sweep accepts
it. A search for its id finds it under the path that its directory has then. -/
theorem shelved_of_reachable
    {config : Config}
    (named : ∀ root ∈ config.roots, IsName root)
    (distinct : config.roots.Nodup)
    (history : config.keepHistory = true)
    {timed : Bool}
    {since : Int}
    (before : Reachable KeepsHistory (start config timed since) session)
    (outside : session.store.savepoints = [])
    (member : version ∈ session.store.tables.entries)
    (isTrashed : isTrashedFile version = true)
    {later : Session}
    (reachable :
      Reachable
        (fun session now event =>
          session.KeepsHistory now event ∧ ¬session.Discards version.id event)
        session later) :
    (∀ tables ∈ later.store.tables :: later.store.kept :: later.store.savepoints,
      tables.entry? version.id = some version ∧
        tables.contents version.id = session.store.tables.contents version.id) ∧
      ∃ path,
        later.store.tables.directoryPath? version.directoryId = some path ∧
          (later.store.savepoints = [] →
            later.store.closed = false →
            ((Store.searchHistory "" "" "" (-1)
              fun _ listed => listed.entry.id == version.id).runOn later.store).1 =
                .ok [⟨path, version⟩]) := by
  have started := Keeping.start named distinct history timed since
  have keeping := started.of_reachable (fun _ _ _ keeps => keeps) before
  have firstOrdered := keeping.orderly.tailed.ordered.tables
  obtain ⟨secure, keeping⟩ :=
    (keeping.secure outside member isTrashed).of_reachable keeping
      (endures_shelved isTrashed _) (fun _ touched => touched)
      (fun _ _ _ allowed => ⟨allowed.1, respects_of_not_discards allowed.2⟩) reachable
  have ordered := keeping.orderly.tailed.ordered
  have sound := keeping.sound
  have stays :
      ∀ tables ∈ later.store.tables :: later.store.kept :: later.store.savepoints,
        tables.Ordered ∧ tables.Coherent ∧
          tables.Shelved version (session.store.tables.pieces version.id) := by
    intro tables isTables
    rcases List.mem_cons.mp isTables with rfl | isTables
    · exact ⟨ordered.tables, sound.all.tables.coherent, secure.all.tables⟩
    rcases List.mem_cons.mp isTables with rfl | isTables
    · exact ⟨ordered.kept sound.steady, (sound.all.kept sound.steady).coherent,
        secure.all.kept sound.steady⟩
    · exact ⟨ordered.saved tables isTables, (sound.all.saved tables isTables).coherent,
        secure.all.saved tables isTables⟩
  refine ⟨fun tables isTables => ?_, ?_⟩
  · obtain ⟨ordered, coherent, shelved⟩ := stays tables isTables
    exact ⟨coherent.entry?_eq_some_iff.mpr ⟨shelved.member, rfl⟩,
      ordered.contents_congr firstOrdered shelved.pieces⟩
  · obtain ⟨-, coherent, shelved⟩ := stays later.store.tables List.mem_cons_self
    obtain ⟨row, isRow, same⟩ := sound.all.tables.integral trivial version shelved.member
    have isPath : later.store.tables.directoryPath? version.directoryId = some row.path := by
      rw [← same]
      exact coherent.directoryPath?_eq_some isRow
    refine ⟨row.path, isPath, fun outside open_ => ?_⟩
    rw [Store.searchHistory, runOn_reading_query sound.steady outside open_,
      coherent.searchHistory_id shelved.member isTrashed isPath]

/-- A file that was deleted is found under the path that its directory was moved to. -/
theorem shelved_moveTo :
    let session :=
      (((start {} false 0).after 1 (.whole (.makeDirectories "home/d"))).after 2
        (.whole (.write "home/d/f" ⟨#[1]⟩ none none))).after 3 (.whole (.delete "home/d/f"))
    let later := session.after 4 (.whole (.moveTo "home/e" "home/d" none))
    ∃ version ∈ session.store.tables.entries,
      isTrashedFile version = true ∧
        later.store.tables.contents version.id = session.store.tables.contents version.id ∧
          ((Store.searchHistory "" "" "" (-1)
            fun _ listed => listed.entry.id == version.id).runOn later.store).1 =
              .ok [⟨"home/e", version⟩] := by
  intro session later
  have made :
      Step KeepsHistory (start {} false 0)
        ((start {} false 0).after 1 (.whole (.makeDirectories "home/d"))) :=
    .event trivial trivial
  have written :
      Step KeepsHistory
        ((start {} false 0).after 1 (.whole (.makeDirectories "home/d")))
        (((start {} false 0).after 1 (.whole (.makeDirectories "home/d"))).after 2
          (.whole (.write "home/d/f" ⟨#[1]⟩ none none))) :=
    .event trivial trivial
  have before : Reachable KeepsHistory (start {} false 0) session :=
    ((Relation.ReflTransGen.single made).tail written).tail (.event trivial trivial)
  have trashed :
      session.store.tables.entries.any (fun entry => isTrashedFile entry && entry.directoryId == 5) =
        true := by
    decide +kernel
  obtain ⟨version, member, isVersion⟩ := List.any_eq_true.mp trashed
  obtain ⟨isTrashed, isHere⟩ := Bool.and_eq_true_iff.mp isVersion
  have moved :
      Step
        (fun session now event =>
          session.KeepsHistory now event ∧ ¬session.Discards version.id event)
        session later :=
    .event trivial ⟨trivial, id⟩
  have outside : session.store.savepoints.isEmpty = true := by
    decide +kernel
  have free : later.store.savepoints.isEmpty = true ∧ later.store.closed = false := by
    decide +kernel
  have isPath : later.store.tables.directoryPath? 5 = some "home/e" := by
    decide +kernel
  obtain ⟨stays, path, found, search⟩ :=
    shelved_of_reachable (by decide) (by decide) rfl before (List.isEmpty_iff.mp outside) member
      isTrashed (.single moved)
  refine ⟨version, member, isTrashed, (stays _ List.mem_cons_self).2, ?_⟩
  rw [eq_of_beq isHere, isPath] at found
  cases found
  exact search (List.isEmpty_iff.mp free.1) free.2

end Session

end VersionStore
