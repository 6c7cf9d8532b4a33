import VersionStore.Proofs.Content.Attached
import VersionStore.Proofs.Session.Linked

namespace VersionStore

/-!
# Rows that a session leaves behind

A session leaves no row behind, unless a directory that has links is removed for good, or a
writer stores a part of a file that is gone. Files may be removed while a writer has them open,
because only what is deleted by its path is locked first.
-/

open Tables VersionStore.Action

namespace Call

variable
  {start tables : Tables}
  {call : Call}

/-- A call leaves nothing behind just when the directories that had links are there. -/
theorem Makes.attached_iff
    (makes : call.Makes start tables)
    (attached : start.Attached)
    (listed : start.Listed)
    (startInterned : start.Interned)
    (interned : tables.Interned)
    (coherent : tables.Coherent) :
    tables.Attached ↔ ∀ id, start.HasLinkedDirectory id → tables.HasEntry id := by
  cases call with
  | setLinks text paths =>
      rcases makes with rfl | ⟨id, ⟨path, entry, -, found, rfl⟩, rfl⟩
      · refine iff_of_true attached fun id ⟨⟨entry, member, isId, _⟩, _⟩ => ⟨entry, member, isId⟩
      · have set := attached.setLinks startInterned ⟨entry, (mem_of_lookup? found).1, rfl⟩ paths
        refine iff_of_true set fun id ⟨⟨row, member, isId, _⟩, _⟩ => ⟨row, ?_, isId⟩
        obtain ⟨targets, links, isResult⟩ := setLinks_eq entry.id paths start
        rw [isResult]
        exact member
  | _ =>
      exact Edited.attached_iff makes attached listed interned coherent

end Call

namespace Session

variable
  {session : Session}
  {now : Int}
  {event : Event}

/-- A directory that has links is removed, or a writer stores a part though its file is gone. -/
def Orphans (session : Session) (now : Int) (event : Event) : Prop :=
  match event with
  | .inside _ | .whole _ | .openWriter _ _ =>
      ∃ id,
        session.store.tables.HasLinkedDirectory id ∧
          ¬(session.after now event).store.tables.HasEntry id
  | .useWriter index _ =>
      ∃ writer,
        session.writers[index]? = some writer ∧
          ¬session.store.tables.HasFile writer.fileId ∧
            (session.after now event).store.tables.parts ≠ session.store.tables.parts
  | _ => False

/-- Nothing was left behind in a session so far. -/
structure Unbroken (session : Session) : Prop where
  sound : session.Sound False
  tailed : session.Tailed
  interned : session.store.All Interned
  attached : session.store.All Attached

/-- A writer that is not there leaves the store. -/
theorem store_useWriter
    {index : Nat}
    (missing : session.writers[index]? = none)
    (use : WriterUse) :
    (session.after now (.useWriter index use)).store = session.store := by
  change (session.onWriter index (use.run now)).store = session.store
  rw [onWriter_none missing]

namespace Unbroken

/-- A new store leaves nothing behind. -/
theorem start
    {config : Config}
    (named : ∀ root ∈ config.roots, IsName root)
    (distinct : config.roots.Nodup)
    (timed : Bool)
    (since : Int) :
    (Session.start config timed since).Unbroken := by
  have sound : (Session.start config timed since).Sound False := .start named distinct timed since
  obtain ⟨parts, targets, links⟩ := bare_seed config.roots since
  refine ⟨sound, (Orderly.start config timed since).tailed,
    ⟨interned_seed config.roots since, nofun⟩, ⟨?_, nofun⟩⟩
  change (seed config.roots since).Attached
  constructor
  case directories =>
    exact sound.all.tables.coherent.owned
  all_goals
    simp [parts, links]

/-- What a use of a writer leaves. -/
theorem appends
    (unbroken : session.Unbroken)
    {index : Nat}
    {writer : Writer}
    (found : session.writers[index]? = some writer)
    (use : WriterUse) :
    Appends writer.fileId session.store.tables
        (session.after now (.useWriter index use)).store.tables ∧
      (session.after now (.useWriter index use)).store.savepoints = session.store.savepoints := by
  change
    Appends _ _ (session.onWriter index (use.run now)).store.tables ∧
      (session.onWriter index (use.run now)).store.savepoints = _
  rw [onWriter_eq found]
  refine Writer.tables_run (stores_appends writer.fileId session.store.tables) unbroken.sound.steady
    ⟨⟨rfl, rfl, rfl, rfl⟩, .inl rfl, fun part member => .inr ⟨part, member, rfl⟩⟩
    (fun _ => ⟨trivial, rfl, fun id isTail part isPart isId => ?_⟩) now use
  exact (unbroken.tailed.tail writer (List.mem_of_getElem? found) id isTail).tables.file part isPart
    isId

/-- An event leaves nothing behind unless it orphans others. -/
theorem attached_after_iff
    (unbroken : session.Unbroken)
    (possible : session.Possible event) :
    (session.after now event).store.tables.Attached ↔ ¬session.Orphans now event := by
  have sound : (session.after now event).Sound False :=
    unbroken.sound.after possible fun absurd => absurd.elim
  have interned := interned_after unbroken.sound unbroken.interned now possible
  have before := unbroken.sound.all.tables.coherent
  have listed : session.store.tables.Listed := ⟨before.ids, before.id_le⟩
  have called
      {call : Call}
      (isCall : event = .inside call ∨ event = .whole call) :
      (session.after now event).store.tables.Attached ↔
        ∀ id,
          session.store.tables.HasLinkedDirectory id →
          (session.after now event).store.tables.HasEntry id :=
    (made_after unbroken.sound possible isCall).1.attached_iff unbroken.attached.tables listed
      unbroken.interned.tables interned.tables sound.all.tables.coherent
  have quiet
      (isQuiet : Quiet event) :
      (session.after now event).store.tables.Attached :=
    (all_quiet unbroken.sound.steady now isQuiet possible.feasible unbroken.attached).tables
  cases event with
  | inside call =>
      rw [called (.inl rfl)]
      simp [Orphans]
  | whole call =>
      rw [called (.inr rfl)]
      simp [Orphans]
  | openWriter text append =>
      rw [(edited_openWriter unbroken.sound text append).1.attached_iff unbroken.attached.tables
        listed interned.tables sound.all.tables.coherent]
      simp [Orphans]
  | useWriter index use =>
      cases found : session.writers[index]? with
      | none =>
          rw [store_useWriter found]
          simp [Orphans, found, unbroken.attached.tables]
      | some writer =>
          rw [(unbroken.appends found use).1.attached_iff unbroken.attached.tables]
          simp [Orphans, found, or_iff_not_imp_left]
  | _ =>
      exact iff_of_true (quiet trivial) id

/-- Nothing is left behind as long as no event orphans others. -/
theorem after
    (unbroken : session.Unbroken)
    (possible : session.Possible event)
    (spares : ¬session.Orphans now event) :
    (session.after now event).Unbroken where
  sound := unbroken.sound.after possible fun absurd => absurd.elim
  tailed := unbroken.tailed.after unbroken.sound.steady now possible.feasible
  interned := interned_after unbroken.sound unbroken.interned now possible
  attached := by
    have tables := (unbroken.attached_after_iff possible).mpr spares
    have saved
        (same : (session.after now event).store.savepoints = session.store.savepoints) :
        (session.after now event).store.All Attached :=
      ⟨tables, same ▸ unbroken.attached.saved⟩
    cases event with
    | inside call =>
        exact saved (made_after unbroken.sound possible (.inl rfl)).2
    | whole call =>
        exact saved (made_after unbroken.sound possible (.inr rfl)).2
    | openWriter text append =>
        exact saved (edited_openWriter unbroken.sound text append).2
    | useWriter index use =>
        cases found : session.writers[index]? with
        | none =>
            exact saved (by rw [store_useWriter found])
        | some writer =>
            exact saved (unbroken.appends found use).2
    | _ =>
        exact all_quiet unbroken.sound.steady now trivial possible.feasible unbroken.attached

end Unbroken

/-- As long as no directory with links is removed and no writer stores a part of a file that is
gone, no row of a session on a new store is left behind: parts belong to files, links to entries
and targets, and the rows of directories to directories. This holds of the tables that are worked
on, of those that are kept, and of those that a scope may go back to. The first time that such a
thing happens, a row is left behind. -/
theorem attached_of_reachable
    {config : Config}
    (named : ∀ root ∈ config.roots, IsName root)
    (distinct : config.roots.Nodup)
    {timed : Bool}
    {since : Int}
    (reachable :
      Reachable (fun session now event => ¬session.Orphans now event)
        (start config timed since) session) :
    (∀ tables ∈ session.store.tables :: session.store.kept :: session.store.savepoints,
      tables.Attached) ∧
      ∀ now event,
        session.Possible event →
        ((session.after now event).store.tables.Attached ↔ ¬session.Orphans now event) := by
  have unbroken : session.Unbroken := by
    induction reachable with
    | refl =>
        exact .start named distinct timed since
    | tail _ step before =>
        obtain ⟨possible, spares⟩ := step
        exact before.after possible spares
  exact ⟨unbroken.attached.each unbroken.sound.steady,
    fun now event possible => unbroken.attached_after_iff possible⟩

/-- A directory that has a link is deleted for good. -/
theorem orphans_delete :
    let session :=
      ((start { keepHistory := false } false 0).after 1
        (.whole (.makeDirectories "home/d"))).after 2 (.whole (.setLinks "home/d" ["home/x"]))
    session.store.tables.Attached ∧ session.Orphans 3 (.whole (.delete "home/d")) := by
  intro session
  have made :
      Step (fun session now event => ¬session.Orphans now event)
        (start { keepHistory := false } false 0)
        ((start { keepHistory := false } false 0).after 1 (.whole (.makeDirectories "home/d"))) := by
    refine .event trivial ?_
    rintro ⟨id, ⟨-, link, member, -⟩, -⟩
    have unlinked : (start { keepHistory := false } false 0).store.tables.links = [] := by
      decide
    rw [unlinked] at member
    exact List.not_mem_nil member
  have linked :
      Step (fun session now event => ¬session.Orphans now event)
        ((start { keepHistory := false } false 0).after 1 (.whole (.makeDirectories "home/d")))
        session := by
    refine .event trivial ?_
    rintro ⟨id, ⟨-, link, member, -⟩, -⟩
    have unlinked :
        ((start { keepHistory := false } false 0).after 1
          (.whole (.makeDirectories "home/d"))).store.tables.links = [] := by
      decide +kernel
    rw [unlinked] at member
    exact List.not_mem_nil member
  obtain ⟨attached, breaks⟩ :=
    attached_of_reachable (by decide) (by decide) (.tail (.single made) linked)
  refine ⟨attached _ (by simp), ?_⟩
  by_contra spares
  have after := (breaks 3 (.whole (.delete "home/d")) trivial).mpr spares
  have left :
      ∃ link ∈ (session.after 3 (.whole (.delete "home/d"))).store.tables.links,
        ∀ entry ∈ (session.after 3 (.whole (.delete "home/d"))).store.tables.entries,
          entry.id ≠ link.source := by
    decide +kernel
  obtain ⟨link, member, gone⟩ := left
  obtain ⟨entry, isEntry, isSource⟩ := after.sources link member
  exact gone entry isEntry isSource

end Session

end VersionStore
