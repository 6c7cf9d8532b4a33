import VersionStore.Proofs.Content.Edited
import VersionStore.Proofs.Session.Enduring

namespace VersionStore

/-!
# What calls make of tables

A call leads from tables to others by edits, whether it succeeds or not, and so does the opening
of a writer. Links that are set for the entry at a path are the one thing that is not an edit,
because the entry may be a directory.
-/

open Tables VersionStore.Action

/-! ## Calls -/

/-- An entry lies at a path text. -/
def Tables.Names (tables : Tables) (text : String) (id : Int) : Prop :=
  ∃ path entry,
    CleanPath.ofText text = .ok path ∧ tables.lookupAt? path = some entry ∧ entry.id = id

namespace Call

/-- What a call is asked to delete, to remove or to make writable. -/
def Asks (tables : Tables) : Call → Int → Prop
  | delete text | setWritable text true => tables.Names text
  | deleteEntry entry | prune entry => fun id => entry.id = id
  | _ => fun _ => False

/-- What a call makes of some tables. -/
def Makes (start : Tables) (call : Call) (tables : Tables) : Prop :=
  match call with
  | setLinks text paths =>
      tables = start ∨ ∃ id, start.Names text id ∧ tables = start.setLinks id paths
  | call => Edited (call.Asks start) start tables

variable
  {setting : Setting}
  {strict : Prop}
  {known : List Entry}
  {start tables : Tables}
  {call : Call}

/-- A call makes something of sound tables, whether it succeeds or not. -/
theorem inside_makes
    (now : Int)
    (call : Call)
    (sound : start.Sound strict known)
    (knows : call.Knows known) :
    Works setting (· = start) (call.inside now) (fun _ => call.Makes start)
      fun _ => call.Makes start := by
  have listed : start.Listed := ⟨sound.coherent.ids, sound.coherent.id_le⟩
  have begins
      {α : Type}
      {action : Action α}
      {asked : Int → Prop}
      (edits : Keeps setting (Edited asked start) action) :
      Works setting (· = start) action (fun _ => Edited asked start) fun _ => Edited asked start :=
    edits.asking fun _ same => same ▸ .refl asked start
  have expends
      {asked : Int → Prop}
      {entry : Entry}
      (member : entry ∈ known)
      (isAsked : asked entry.id)
      (tables : Tables)
      (same : tables = start) :
      Edited asked start tables ∧ Expends asked start entry tables := by
    subst same
    have kind := sound.knows.kind entry member
    exact ⟨.refl _ _, kind, kind, fun row _ isRow => .inl (isRow ▸ isAsked)⟩
  cases call with
  | stat text =>
      rw [inside, Works.ignoring_iff]
      exact begins (Txn.stat_keeps text)
  | list text =>
      rw [inside, Works.ignoring_iff]
      exact begins (Txn.list_keeps text)
  | makeDirectories text =>
      rw [inside, Works.ignoring_iff]
      exact begins (Txn.makeDirectories_grows (Edited.grows _ start) now text)
  | write text data links? time? =>
      rw [inside, Works.ignoring_iff]
      exact begins (Txn.writeFrom_edits now text _ links? time? listed)
  | writeFrom text source links? time? =>
      rw [inside, Works.ignoring_iff]
      exact begins (Txn.writeFrom_edits now text source links? time? listed)
  | snapshot text source? time? =>
      exact begins (Txn.snapshot_edits now text source? time?)
  | delete text =>
      rw [inside, Works.ignoring_iff]
      exact Txn.delete_edits now text listed fun path entry isPath found => ⟨path, entry, isPath, found, rfl⟩
  | deleteEntry entry =>
      rw [inside, Works.ignoring_iff]
      exact (Txn.deleteEntry_edits now entry).asking (expends knows rfl)
  | copy target source time? =>
      rw [inside, Works.ignoring_iff]
      exact begins (Txn.copy_edits now target source time? listed)
  | moveTo target source time? =>
      rw [inside, Works.ignoring_iff]
      exact begins (Txn.moveTo_edits now target source time?)
  | setLastModified text time =>
      rw [inside, Works.ignoring_iff]
      refine Txn.changeAt_edits text (.refl _ _) fun path entry _ _ => ?_
      exact (Edited.refl _ _).next
        (.modified entry.id _ (fun _ => ⟨⟨rfl, rfl, rfl, rfl⟩, rfl⟩) (.inr fun _ same => same))
  | setWritable text writable =>
      rw [inside, Works.ignoring_iff]
      refine Txn.changeAt_edits text (.refl _ _) fun path entry isPath found => ?_
      refine (Edited.refl _ _).next
        (.modified entry.id _ (fun _ => ⟨⟨rfl, rfl, rfl, rfl⟩, rfl⟩) ?_)
      cases writable with
      | true =>
          exact .inl ⟨path, entry, isPath, found, rfl⟩
      | false =>
          exact .inr fun _ absurd => (Bool.false_ne_true absurd).elim
  | setLinks text paths =>
      rw [inside, Works.ignoring_iff]
      exact Txn.changeAt_edits text (.inl rfl) fun path entry isPath found =>
        .inr ⟨entry.id, ⟨path, entry, isPath, found, rfl⟩, rfl⟩
  | prune entry =>
      rw [inside, Works.ignoring_iff]
      exact (Txn.prune_edits now entry).asking (expends knows rfl)
  | pruneHistory infos all =>
      rw [inside, Works.ignoring_iff]
      exact (Txn.pruneHistory_edits infos all).asking fun _ same => ⟨same, sound⟩
  | recover target infos =>
      rw [inside, Works.ignoring_iff]
      exact begins (Txn.recover_edits now target infos listed)
  | sweep select? =>
      rw [inside, Works.ignoring_iff]
      refine (Txn.sweep_edits listed select?).asking ?_
      rintro _ rfl
      exact ⟨.refl _ _, sound.coherent⟩

/-- A call that changes nothing makes the same. -/
theorem Makes.refl
    (start : Tables)
    (call : Call) :
    call.Makes start start := by
  cases call with
  | setLinks text paths =>
      exact .inl rfl
  | _ =>
      exact Edited.refl _ _

/-- What edits preserve, and the setting of links too, holds of what a call makes. -/
theorem Makes.preserves
    {holds : Tables → Prop}
    (makes : call.Makes start tables)
    (edits :
      ∀ before after,
        Edited (call.Asks start) start before →
        Edit (call.Asks start) start before after →
        holds before →
        holds after)
    (linked : ∀ id paths, holds (start.setLinks id paths))
    (before : holds start) :
    holds tables := by
  cases call with
  | setLinks text paths =>
      rcases makes with rfl | ⟨id, -, rfl⟩
      · exact before
      · exact linked id paths
  | _ =>
      exact Edited.preserves makes edits before

end Call

/-! ## Writers -/

namespace Writer

variable
  {setting : Setting}
  {start : Tables}

/-- A writer that was opened on a path text writes to a new file, or it goes on behind the file
that lies there. -/
structure OpensOn (start : Tables) (text : String) (append : Bool) (writer : Writer)
    (tables : Tables) : Prop where
  edited : Edited (fun _ => False) start tables
  file : tables.HasFile writer.fileId
  origin :
    start.lastEntryId < writer.fileId ∨
      append = true ∧ tables = start ∧ start.Names text writer.fileId

/-- A writer that is started on a new file. -/
theorem create_edits
    (now : Int)
    {text : String}
    (path : CleanPath)
    (append : Bool) :
    Opens setting (Edited (fun _ => False) start) (create now path) (OpensOn start text append) := by
  refine .bind (fun _ => Edited (fun _ => False) start)
    (.require (fun _ _ _ edited => edited) fun _ _ _ => trivial) fun parent => ?_
  refine .bind (fun _ => Edited (fun _ => False) start) (.entryAt? fun _ edited => edited)
    fun found => ?_
  refine .bind (fun _ => Edited (fun _ => False) start)
    (.require (fun _ _ _ edited => edited) fun _ _ _ => trivial) fun directory => ?_
  simp only [throw_bind]
  refine .ite (fun _ => .throw) fun _ => ?_
  refine .bind _ (Txn.insert_edits (freshEntry directory.id path.name false now) rfl) fun id => ?_
  refine .lockId fun guard _ _ => .pure fun tables founded => ?_
  exact ⟨rfl, rfl, founded.1, founded.2.2, .inl founded.2.1⟩

/-- A writer is started by edits. -/
theorem start_edits
    (now : Int)
    {text : String}
    {path : CleanPath}
    (isPath : CleanPath.ofText text = .ok path)
    (append : Bool)
    (listed : start.Listed) :
    Opens setting (· = start) (Writer.start now path append) (OpensOn start text append) := by
  refine .bind (fun found tables => found = start.lookupAt? path ∧ tables = start)
    (Txn.entryAt?_known path).surely fun found => ?_
  cases found with
  | none =>
      refine (create_edits now path append).asking ?_
      rintro _ ⟨-, rfl⟩
      exact .refl _ _
  | some entry =>
      simp only [throw_bind]
      refine .assuming (start.lookupAt? path = some entry) (fun _ looked => looked.1.symm)
        fun found => ?_
      obtain ⟨member, -⟩ := mem_of_lookup? found
      refine .ite (fun _ => .throw) fun isFile => .ite (fun isAppend => ?_) fun _ =>
        .ite (fun _ => .throw) fun writable => ?_
      · refine .lockId fun guard _ _ => .bind (fun _ tables => tables = start)
          (.query fun _ looked => looked.2) fun contents => .pure ?_
        rintro _ rfl
        refine ⟨resuming_fileId _ _ _ _, resuming_guard _ _ _ _, .refl _ _, ?_, .inr ⟨isAppend, rfl, ?_⟩⟩
        · rw [resuming_fileId]
          exact ⟨entry, member, rfl, Bool.eq_false_iff.mpr isFile⟩
        · rw [resuming_fileId]
          exact ⟨path, entry, isPath, found, rfl⟩
      · have deleted :
            Works setting (· = start) (Txn.deleteExisting now entry)
              (fun _ => Edited (fun _ => False) start) fun _ _ => True := by
          refine ((Txn.deleteExisting_edits now entry).asking ?_).loosely
          rintro _ rfl
          refine ⟨.refl _ _, (Edited.refl _ _).expends listed member (.inr (.inr (.inl ?_)))⟩
          simpa using writable
        refine .bind _ (deleted.asking fun _ looked => looked.2) fun gone => ?_
        exact .ite (fun _ => .throw) fun _ => create_edits now path append

/-- A writer is opened by edits, in a transaction of its own. -/
theorem openPath_edits
    {store : Store}
    (steady : store.Steady)
    (listed : store.tables.Listed)
    (now : Int)
    (text : String)
    (append : Bool) :
    Leaves store (Takes store (OpensOn store.tables text append))
      ((openPath now text append).runOn store) :=
  leaves_openPath now text append steady .idle (Eq.refl store.tables)
    (fun _ isPath => (start_edits now isPath append listed).asking fun _ same => same.symm)
    fun _ _ _ opened => ⟨opened.edited, opened.file, opened.origin⟩

end Writer

/-! ## Sessions -/

namespace Session

variable
  {session : Session}
  {strict : Prop}
  {now : Int}
  {event : Event}
  {holds : Tables → Prop}

/-- A call makes something of the tables, whether it succeeds or not, and leaves those that a
scope may go back to. -/
theorem made_after
    {call : Call}
    (sound : session.Sound strict)
    (possible : session.Possible event)
    (isCall : event = .inside call ∨ event = .whole call) :
    call.Makes session.store.tables (session.after now event).store.tables ∧
      (session.after now event).store.savepoints = session.store.savepoints := by
  have makes (knows : call.Knows session.known) :
      Works (session.store.setting fun _ => False) (· = session.store.tables) (call.inside now)
        (fun _ => call.Makes session.store.tables) fun _ => call.Makes session.store.tables :=
    call.inside_makes now sound.all.tables knows
  rcases isCall with rfl | rfl
  · obtain ⟨opened, knows⟩ := possible
    obtain ⟨alike, ended⟩ :=
      makes knows session.store (sound.steady.inScope opened .idle) rfl
    refine ⟨?_, alike.savepoints⟩
    change call.Makes session.store.tables ((call.inside now).runOn session.store).2.tables
    rcases ran : (call.inside now).runOn session.store with ⟨_ | _, left⟩ <;>
      rw [ran] at ended <;>
      exact ended
  · have passes := Call.passes_whole sound.steady .idle (makes possible) rfl (.refl _ _)
    exact ⟨passes.tables, passes.savepoints⟩

/-- The opening of a writer edits the tables, whether it succeeds or not, and leaves those that a
scope may go back to. -/
theorem edited_openWriter
    (sound : session.Sound strict)
    (text : String)
    (append : Bool) :
    Edited (fun _ => False) session.store.tables
        (session.after now (.openWriter text append)).store.tables ∧
      (session.after now (.openWriter text append)).store.savepoints = session.store.savepoints := by
  have coherent := sound.all.tables.coherent
  have leaves :=
    Writer.openPath_edits sound.steady ⟨coherent.ids, coherent.id_le⟩ now text append
  change
    Edited _ _ (session.holdWriter (Writer.openPath now text append)).store.tables ∧
      (session.holdWriter (Writer.openPath now text append)).store.savepoints = _
  rw [holdWriter_store]
  exact ⟨leaves.tables (.refl _ _) fun _ _ _ taken => taken.2.edited, leaves.savepoints⟩

/-- What holds of all tables holds of them after an event, if it holds of what a call makes, of
what the opening of a writer leads to by edits, and of what a use of a writer leaves. -/
theorem all_made
    (sound : session.Sound strict)
    (all : session.store.All holds)
    (possible : session.Possible event)
    (called :
      ∀ call,
        event = .inside call ∨ event = .whole call →
        ∀ tables, call.Makes session.store.tables tables → holds tables)
    (opened :
      ∀ text append,
        event = .openWriter text append →
        ∀ tables, Edited (fun _ => False) session.store.tables tables → holds tables)
    (used :
      ∀ index use writer,
        event = .useWriter index use →
        session.writers[index]? = some writer →
        ((use.run now).runOn writer session.store).2.2.All holds) :
    (session.after now event).store.All holds := by
  have after_call
      {call : Call}
      (isCall : event = .inside call ∨ event = .whole call) :
      (session.after now event).store.All holds := by
    obtain ⟨made, same⟩ := made_after sound possible isCall
    exact ⟨called call isCall _ made, same ▸ all.saved⟩
  cases event with
  | inside call =>
      exact after_call (.inl rfl)
  | whole call =>
      exact after_call (.inr rfl)
  | openWriter text append =>
      obtain ⟨edited, same⟩ := edited_openWriter sound text append
      exact ⟨opened text append rfl _ edited, same ▸ all.saved⟩
  | useWriter index use =>
      change (session.onWriter index (use.run now)).store.All holds
      unfold onWriter
      cases found : session.writers[index]? with
      | none =>
          exact all
      | some writer =>
          exact used index use writer rfl found
  | _ =>
      exact all_quiet sound.steady now trivial possible.feasible all

end Session

end VersionStore
