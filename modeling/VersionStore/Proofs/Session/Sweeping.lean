import VersionStore.Proofs.Action.Granting
import VersionStore.Proofs.Session.Tree
import VersionStore.Proofs.Tree.Garbage

namespace VersionStore

/-!
# Sweeping the trash of a session

Where history was kept all along, a sweep is exact garbage collection: it asks about each
trashed file once, removes those that are accepted and every trashed directory without a
file below it, and leaves all else. A second sweep with the same answers finds nothing.
-/

open Tables Txn VersionStore.Action

/-- What is left of a store after a sweep of some tables. -/
structure Session.SweptTo (select? : Option Selector) (before : Tables)
    (left : Except Fault (Nat × Nat) × Store) : Prop where
  succeeds : left.1 = .ok (sweepTables select? before).1
  tables : left.2.tables = (sweepTables select? before).2
  /-- What is removed and what is left, and that both are counted. -/
  swept :
    Swept before (accepted select? before) (sweepTables select? before).1 left.2.tables
  /-- The rounds come to an end. -/
  ends :
    Erases (trashedDirectories before) (pruned select? before)
      (sweepTables select? before).1.2 left.2.tables

namespace Session

variable {session : Session} {strict : Prop}

/-- A sweep of sound tables that are integral is exact. -/
theorem SweptTo.of_result
    {known : List Entry}
    {select? : Option Selector}
    {before : Tables}
    {left : Except Fault (Nat × Nat) × Store}
    (sound : before.Sound True known)
    (succeeds : left.1 = .ok (sweepTables select? before).1)
    (tables : left.2.tables = (sweepTables select? before).2) :
    SweptTo select? before left where
  succeeds := succeeds
  tables := tables
  swept := by
    rw [tables]
    exact sweepTables_swept sound.coherent (sound.integral trivial) select?
  ends := by
    rw [tables, sweepTables_eq]
    exact erases_eraseRounds (Nat.lt_succ_self _) _

/-- A sweep in a scope comes to what it says. -/
theorem runOn_sweep
    {store : Store}
    {setting : Setting}
    (inScope : store.InScope setting)
    (select? : Option Selector) :
    ((Txn.sweep select?).runOn store).1 = .ok (sweepTables select? store.tables).1 ∧
      ((Txn.sweep select?).runOn store).2.tables = (sweepTables select? store.tables).2 ∧
      store.Alike ((Txn.sweep select?).runOn store).2 :=
  (Txn.sweep_works select? store.tables).result inScope

/-- A sweep that gives back the space it freed comes to the same. -/
theorem sweep_claim_works
    (setting : Setting)
    (select? : Option Selector)
    (before : Tables) :
    Works setting (· = before)
      (do
        let counts ← Txn.sweep select?
        if select?.isSome then claim .entries
        return counts)
      (fun counts tables => (counts, tables) = sweepTables select? before)
      fun _ _ => False := by
  refine .bind _ (Txn.sweep_works select? before) fun counts => ?_
  refine .ite (fun _ => ?_) fun _ => .pure fun _ holds => holds
  exact .bind (fun _ tables => (counts, tables) = sweepTables select? before)
    (.claim fun _ holds => holds) fun _ => .pure fun _ holds => holds

/-- A store on which a transaction can begin. -/
structure IsOpen (store : Store) : Prop where
  outside : store.savepoints = []
  notClosing : store.closing = false
  notClosed : store.closed = false

/-- A transaction can begin on a store that is idle and is not about to be closed. -/
theorem isOpen_iff
    {store : Store}
    (steady : store.Steady) :
    IsOpen store ↔ store.Idle ∧ store.closing = false :=
  ⟨fun isOpen => ⟨⟨steady, isOpen.outside, isOpen.notClosed⟩, isOpen.notClosing⟩,
    fun ⟨idle, staying⟩ => ⟨idle.outside, staying, idle.opened⟩⟩

/-- A sweep by itself comes to what it says, and the store keeps it. -/
theorem runOn_store_sweep
    {store : Store}
    (steady : store.Steady)
    (isOpen : IsOpen store)
    (select? : Option Selector) :
    ((Store.sweep select?).runOn store).1 = .ok (sweepTables select? store.tables).1 ∧
      ((Store.sweep select?).runOn store).2.tables = (sweepTables select? store.tables).2 ∧
      ((Store.sweep select?).runOn store).2.Steady ∧
      IsOpen ((Store.sweep select?).runOn store).2 := by
  obtain ⟨idle, staying⟩ := (isOpen_iff steady).mp isOpen
  obtain ⟨succeeds, tables, left, stays⟩ :=
    (sweep_claim_works _ select? store.tables).result_writing idle staying .idle
  exact ⟨succeeds, tables, left.toSteady, (isOpen_iff left.toSteady).mpr ⟨left, stays⟩⟩

/-- Whatever it is told to accept, a sweep of a store is exact. When it minds only the entry it
is asked about, a second sweep has nothing to do. -/
structure Sweeps (sweep : Option Selector → Action (Nat × Nat)) (store : Store) : Prop where
  exact : ∀ select?, SweptTo select? store.tables ((sweep select?).runOn store)
  again :
    ∀ accepts? : Option (TrashEntry → Bool),
      let once := sweep (accepts?.map fun accepts _ entry => accepts entry)
      let left := (once.runOn store).2
      (once.runOn left).1 = .ok (0, 0) ∧ (once.runOn left).2.tables = left.tables

/-- A sweep comes to what it says on every store that it leads to. -/
theorem Sweeps.of_runOn
    {known : List Entry}
    {store : Store}
    {sweep : Option Selector → Action (Nat × Nat)}
    (sound : store.tables.Sound True known)
    (Fine : Store → Prop)
    (fine : Fine store)
    (result :
      ∀ before select?,
        Fine before →
        ((sweep select?).runOn before).1 = .ok (sweepTables select? before.tables).1 ∧
          ((sweep select?).runOn before).2.tables = (sweepTables select? before.tables).2 ∧
          Fine ((sweep select?).runOn before).2) :
    Sweeps sweep store where
  exact select? := by
    obtain ⟨succeeds, tables, -⟩ := result store select? fine
    exact .of_result sound succeeds tables
  again accepts? := by
    have nothing := sweepTables_again sound.coherent (sound.integral trivial) accepts?
    dsimp only at nothing ⊢
    generalize (accepts?.map fun accepts _ entry => accepts entry : Option Selector) = select?
      at nothing ⊢
    obtain ⟨-, tables, left⟩ := result store select? fine
    obtain ⟨succeedsAgain, tablesAgain, -⟩ := result _ select? left
    rw [tables, nothing] at succeedsAgain tablesAgain
    exact ⟨succeedsAgain, tablesAgain.trans tables.symm⟩

/-- The trashed files of some tables are asked about once each, by ascending id. -/
structure AskedOnce (tables : Tables) : Prop where
  entries : (asked tables).map (·.entry) = tables.entries.filter isTrashedFile
  ascending : ((asked tables).map (·.entry.id)).Pairwise (· < ·)
  placed :
    ∀ trashed ∈ asked tables,
      tables.directoryPath? trashed.entry.directoryId = some trashed.directory
  /-- A predicate with a state of its own sees every answer it gave before. -/
  accepted :
    ∀ {σ : Type} (ask : σ → TrashEntry → Bool × σ) (start : σ),
      accepted (some (.ofStateful ask start)) tables = (askEach ask start (asked tables)).1
  /-- Without a predicate no file is accepted. -/
  none : Txn.accepted none tables = []

/-- A sweep of sound tables that are integral asks about each trashed file once. -/
theorem AskedOnce.of_sound
    {known : List Entry}
    {tables : Tables}
    (sound : tables.Sound True known) :
    AskedOnce tables := by
  constructor
  case entries =>
    exact map_entry_asked sound.coherent (sound.integral trivial)
  case ascending =>
    exact pairwise_asked sound.coherent
  case placed =>
    intro trashed member
    exact (mem_trash_iff.mp (List.mem_filter.mp member).1).2.2
  case accepted =>
    intro σ ask start
    exact Selector.filter_ofStateful ask start (asked tables)
  case none =>
    rfl

/-- In a session on a new store that kept its history all along, a sweep asks about each trashed
file once and is exact, in a transaction or by itself. What it leaves by itself is kept. -/
theorem sweeps_of_reachable
    {config : Config}
    (named : ∀ root ∈ config.roots, IsName root)
    (distinct : config.roots.Nodup)
    {timed : Bool}
    {now : Int}
    (reachable :
      Reachable (fun session _ _ => session.store.config.keepHistory = true)
        (start config timed now) session) :
    AskedOnce session.store.tables ∧
      (session.store.savepoints ≠ [] → Sweeps Txn.sweep session.store) ∧
      (IsOpen session.store →
        Sweeps Store.sweep session.store ∧
          ∀ select?,
            ((Store.sweep select?).runOn session.store).2.kept =
              ((Store.sweep select?).runOn session.store).2.tables) := by
  have sound : session.Sound True := by
    refine Sound.of_reachable (.start named distinct timed now) ?_ reachable
    intro _ session now event _ keeps strands
    cases event with
    | inside call | whole call =>
        rw [strands.1] at keeps
        exact Bool.false_ne_true keeps
    | _ =>
        exact strands
  refine ⟨.of_sound sound.all.tables, fun opened => ?_, fun isOpen => ⟨?_, fun select? => ?_⟩⟩
  · let setting := session.store.setting fun _ => False
    refine .of_runOn sound.all.tables (·.InScope setting) ?_ fun before select? inScope => ?_
    · exact sound.steady.inScope opened .idle
    · obtain ⟨succeeds, tables, alike⟩ := runOn_sweep inScope select?
      exact ⟨succeeds, tables, alike.inScope inScope⟩
  · refine .of_runOn sound.all.tables (fun store => store.Steady ∧ IsOpen store)
      ⟨sound.steady, isOpen⟩ fun before select? fine => ?_
    exact runOn_store_sweep fine.1 fine.2 select?
  · obtain ⟨-, -, steady, left⟩ := runOn_store_sweep sound.steady isOpen select?
    exact (steady.tables_eq_kept left.outside).symm

/-- A session in which a snapshot and the directory it lies in are in the trash. -/
theorem sweeps_snapshot :
    let session :=
      (start {} false 0).after 1 (.whole (.snapshot "home/old/f" (some (.ofBytes .empty)) none))
    (trashedDirectories session.store.tables).length = 1 ∧
      (asked session.store.tables).length = 1 ∧
        AskedOnce session.store.tables ∧ Sweeps Store.sweep session.store := by
  have stored :
      Step (fun session _ _ => session.store.config.keepHistory = true) (start {} false 0)
        ((start {} false 0).after 1
          (.whole (.snapshot "home/old/f" (some (.ofBytes .empty)) none))) :=
    .event trivial rfl
  obtain ⟨once, -, sweeps⟩ := sweeps_of_reachable (by decide) (by decide) (.single stored)
  exact ⟨by decide +kernel, by decide +kernel, once,
    (sweeps ⟨by decide +kernel, by decide +kernel, by decide +kernel⟩).1⟩

end Session

end VersionStore
