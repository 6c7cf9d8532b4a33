import VersionStore.Proofs.Content.Snapshots
import VersionStore.Proofs.Session.Answers
import VersionStore.Proofs.Session.Restoring

namespace VersionStore

/-!
# Snapshots in a session

Whatever happened in a session before, a snapshot tells whether it was stored. If it was, there is
one version more in the trash, which the history of its path lists and which can be restored. If
it was not, nothing changed. In either case the store answers about its live tree what it answered
before.
-/

open VersionStore.Action Tables

/-- The tree stays when a version is put into the trash. -/
theorem Txn.Snapped.sameTree
    {now modified : Int}
    {before after : Tables}
    {path : CleanPath}
    {version : Entry}
    (snapped : Snapped now modified before path version after)
    (coherent : before.Coherent)
    (coherentAfter : after.Coherent) :
    before.SameTree after where
  found := snapped.trashAdded.lookupAt?_eq coherent coherentAfter
  listed := snapped.trashAdded.listing_eq
  stays _ member := snapped.stays coherent member

/-- A file can be put at a path: the path is not that of the root, what is there makes way, and no
file is where a directory has to be. -/
structure Tables.GivesWay (held : Int → Prop) (tables : Tables) (path : CleanPath) : Prop where
  proper : ¬path.isRoot = true
  free : ¬tables.Occupied held path
  leads : ∀ names file, names <+: path.dropLast.names → ¬tables.FileAt ⟨names⟩ file

/-- A snapshot was stored in the trash of a store. The history of its path lists it, and when it is
restored it is given out as the bytes that it was taken of. -/
structure Store.Snapshotted
    (store : Store)
    (now : Int)
    (text : String)
    (source? : Option Source)
    (modified : Int)
    (left : Store)
    (path : CleanPath)
    (version : Entry) :
    Prop where
  isPath : CleanPath.ofText text = .ok path
  snapped : Txn.Snapped now modified store.tables path version left.tables
  holds : Txn.SnapshotOf store.tables path version left.tables source?
  listed :
    ∀ root directories,
      ∃ versions,
        ((Store.history root path.directory path.name directories (-1)).runOn left).1 =
            .ok versions ∧
          ⟨path.directory, version⟩ ∈ versions
  restored :
    ∀ later target place,
      CleanPath.ofText target = .ok place →
      left.tables.GivesWay left.InUse place →
      ∃ row after,
        (Store.recover later target [⟨path.directory, version⟩]).runOn left = (.ok (1, 0), after) ∧
          Txn.Copied left.config.keepHistory left.InUse later left.tables version
              version.lastModified place row after.tables ∧
            ∀ data, Txn.SnapshotBytes store.tables path source? data → after.Gives target data

/-- What comes of a snapshot. The search for a directory ends at the top one at the latest, which
has a row. The call ends, and the live tree is what it was. One version was stored or nothing
changed, and where nothing is in the way one was stored. -/
structure Store.Snapshots
    (store : Store)
    (now : Int)
    (text : String)
    (source? : Option Source)
    (modified : Int)
    (run : Except Fault Bool × Store) :
    Prop where
  rooted : store.tables.directoryId? "" ≠ none
  ends : ∃ isStored, run.1 = .ok isStored
  sameTree : store.tables.SameTree run.2.tables
  answers : store.AnswersAlike run.2
  stored :
    run.1 = .ok true →
    ∃ path version, store.Snapshotted now text source? modified run.2 path version
  unstored : run.1 = .ok false → run.2.tables = store.tables
  certain :
    ∀ path,
      CleanPath.ofText text = .ok path →
      ¬path.isRoot = true →
      Txn.Available store.locks.gives store.tables path source? →
      store.savepoints = [] →
      store.closing = false →
      store.closed = false →
      run.1 = .ok true

/-- A snapshot tells whether its transaction succeeded. -/
theorem Store.runOn_snapshot
    (store : Store)
    (now : Int)
    (text : String)
    (source? : Option Source)
    (time? : Option Int) :
    (Store.snapshot now text source? time?).runOn store =
      (.ok ((writing (Txn.snapshot now text source? time?)).runOn store).1.isOk,
        ((writing (Txn.snapshot now text source? time?)).runOn store).2) := by
  rw [Store.snapshot, runOn_bind, runOn_attempt]
  rfl

namespace Session

variable
  {session : Session}
  {strict : Prop}
  {text : String}
  {place : CleanPath}

/-- A version that is restored alone takes the place of what was at the path, and is given out as
what it contains. -/
theorem gives_restored
    (sound : session.Sound strict)
    (modest : session.Modest)
    (writes : session.WritesFiles)
    (staying : session.store.closing = false)
    (outside : session.store.savepoints = [])
    (open_ : session.store.closed = false)
    (now : Int)
    (isPath : CleanPath.ofText text = .ok place)
    {info : TrashEntry}
    (called : IsName info.entry.name)
    {version : Entry}
    (restorable : session.store.tables.Restorable session.store.InUse info place version) :
    ∃ row left,
      (Store.recover now text [info]).runOn session.store = (.ok (1, 0), left) ∧
        Txn.Copied session.store.config.keepHistory session.store.InUse now session.store.tables
            version version.lastModified place row left.tables ∧
          ∀ data, session.store.tables.Contains version.id data → left.Gives text data := by
  have recovers :
      session.store.Recovers now place [info]
        ((Store.recover now text [info]).runOn session.store) :=
    recovers_whole sound modest writes staying outside open_ now isPath
      (List.forall_mem_singleton.mpr called)
  have passes : session.store.Passes Ordered ((Store.recover now text [info]).runOn session.store).2 :=
    passes_writing sound.steady .idle
      (Txn.recover_endures endures_ordered now text [info] fun _ _ _ => trivial)
      modest.ordered.tables modest.ordered.tables
  rcases ran : (Store.recover now text [info]).runOn session.store with ⟨outcome, left⟩
  rw [ran] at recovers passes
  obtain ⟨restored, failed, rfl, -, restores⟩ := recovers.restores
  replace restores :
      Txn.Restores session.store.config.keepHistory session.store.InUse now place true
        session.store.tables [info] (restored, failed) left.tables := restores
  cases restores with
  | @restored _ _ _ _ _ _ other row _ _ isTarget isRestorable copied rest =>
      cases rest
      cases isTarget
      cases restorable.trashed.symm.trans isRestorable.trashed
      refine ⟨row, left, rfl, copied, fun data contains => ?_⟩
      obtain ⟨member, -, -⟩ := mem_of_trashed? restorable.trashed
      have isSource : session.store.tables.entry? version.id = some version :=
        sound.all.tables.coherent.entry?_eq_some_iff.mpr ⟨member, rfl⟩
      have idle : left.Idle :=
        ⟨passes.steady, passes.savepoints.trans outside, passes.closed.trans open_⟩
      exact gives_replaced modest staying idle passes.locks passes.tables isPath copied.toReplaced
        (copied.contains contains isSource)
  | failed isTarget barred rest =>
      cases isTarget
      exact absurd restorable (barred version)

/-- What a snapshot leaves of a store, when its transaction succeeds and when it does not. -/
theorem snapshot_leaves
    (sound : session.Sound strict)
    (modest : session.Modest)
    (now : Int)
    (text : String)
    (source? : Option Source)
    (time? : Option Int) :
    Leaves session.store
      (fun _ locks tables =>
        session.store.locks.Same locks ∧
          ((∃ path version,
            CleanPath.ofText text = .ok path ∧
              Txn.Snapped now (time?.getD now) session.store.tables path version tables ∧
                Txn.SnapshotOf session.store.tables path version tables source?) ∧
            tables.Sound strict session.known) ∧
            tables.Ordered)
      ((writing (Txn.snapshot now text source? time?)).runOn session.store) := by
  have works :=
    (@Txn.snapshot_snaps (session.store.setting (fun _ => False) session.store.InUse) strict _ _ now
      sound.all.tables (modest.numbered sound) text source? time?).both
      (Txn.snapshot_endures endures_ordered now text source? time?)
  exact leaves_writing sound.steady
    (works.leaves sound.steady session.store.fits_inUse ⟨rfl, modest.ordered.tables⟩)

/-- A version that was put into the trash by a snapshot is listed there and can be restored. -/
theorem snapshotted_of_snapped
    {config : Config}
    (named : ∀ root ∈ config.roots, IsName root)
    (distinct : config.roots.Nodup)
    {timed : Bool}
    {since : Int}
    (reachable : Reachable (fun _ _ _ => True) (start config timed since) session)
    {now : Int}
    {source? : Option Source}
    {time? : Option Int}
    {left : Store}
    (ran :
      (writing (Txn.snapshot now text source? time?)).runOn session.store = (.ok ⟨⟩, left))
    {path : CleanPath}
    {version : Entry}
    (isPath : CleanPath.ofText text = .ok path)
    (snapped : Txn.Snapped now (time?.getD now) session.store.tables path version left.tables)
    (holds : Txn.SnapshotOf session.store.tables path version left.tables source?) :
    session.store.Snapshotted now text source? (time?.getD now) left path version := by
  obtain ⟨sound, modest⟩ := Modest.of_reachable named distinct reachable
  have leaves := snapshot_leaves sound modest now text source? time?
  have isDone : ((writing (Txn.snapshot now text source? time?)).runOn session.store).1 = .ok ⟨⟩ :=
    congrArg Prod.fst ran
  obtain ⟨staying, idle⟩ := idle_of_writing sound.steady leaves isDone
  rw [ran] at leaves idle
  -- The store that is left is that of a session that was reached by one event more.
  obtain ⟨next, isNext⟩ :
      ∃ next, next = session.after now (.whole (.snapshot text source? time?)) :=
    ⟨_, rfl⟩
  have isLeft : next.store = left := by
    rw [isNext]
    change ((Call.whole now (.snapshot text source? time?)).runOn session.store).2 = left
    rw [Call.whole, runOn_ignoring, Store.runOn_snapshot, ran]
  have reached : Reachable (fun _ _ _ => True) (start config timed since) next :=
    isNext ▸ reachable.tail (.event trivial trivial)
  obtain ⟨soundNext, modestNext⟩ := Modest.of_reachable named distinct reached
  have writesNext := WritesFiles.of_reachable named distinct reached
  subst isLeft
  have coherent := soundNext.all.tables.coherent
  refine ⟨isPath, snapped, holds, fun root directories => ?_, ?_⟩
  · exact ⟨_, runOn_reading_query soundNext.steady idle.outside idle.opened _ _,
      snapped.mem_history coherent root directories⟩
  · intro later target place isPlace receives
    obtain ⟨_, name, -, -, isName⟩ := Txn.exists_names_of_not_isRoot snapped.proper
    have called : IsName version.name := by
      rw [snapped.called, isName]
      exact name.property
    have restorable :
        next.store.tables.Restorable next.store.InUse ⟨path.directory, version⟩ place version :=
      ⟨coherent.trashed?_eq_some snapped.member snapped.isDeleted, receives.proper, receives.free,
        receives.leads⟩
    obtain ⟨row, after, isRestored, copied, gives⟩ :=
      gives_restored soundNext modestNext writesNext (leaves.closing.trans staying) idle.outside
        idle.opened later isPlace called restorable
    exact ⟨row, after, isRestored, copied, fun data bytes => gives data
      (holds.contains sound.all.tables.coherent coherent snapped.member bytes)⟩

/-- Whatever happened in a session on a new store, a snapshot ends and leaves the live tree as it
is, and what it was taken of is in the trash when it was stored. -/
theorem snapshots_of_reachable
    {config : Config}
    (named : ∀ root ∈ config.roots, IsName root)
    (distinct : config.roots.Nodup)
    {timed : Bool}
    {since : Int}
    (reachable : Reachable (fun _ _ _ => True) (start config timed since) session)
    (now : Int)
    (text : String)
    (source? : Option Source)
    (time? : Option Int) :
    session.store.Snapshots now text source? (time?.getD now)
      ((Store.snapshot now text source? time?).runOn session.store) := by
  obtain ⟨sound, modest⟩ := Modest.of_reachable named distinct reachable
  have coherent := sound.all.tables.coherent
  have leaves := snapshot_leaves sound modest now text source? time?
  rw [Store.runOn_snapshot]
  rcases ran : (writing (Txn.snapshot now text source? time?)).runOn session.store with
    ⟨outcome, left⟩
  rw [ran] at leaves
  obtain ⟨sameTree, locks, ordered⟩ :
      session.store.tables.SameTree left.tables ∧ session.store.locks.Same left.locks ∧
        left.tables.Ordered := by
    cases outcome with
    | error fault =>
        obtain ⟨same, locks⟩ := leaves.undone fault rfl
        rw [same]
        exact ⟨.refl _, locks, modest.ordered.tables⟩
    | ok value =>
        obtain ⟨-, locks, ⟨⟨path, version, -, snapped, -⟩, soundAfter⟩, ordered⟩ :=
          leaves.done value rfl
        exact ⟨snapped.sameTree coherent soundAfter.coherent, locks, ordered⟩
  constructor
  case rooted =>
    exact Txn.directoryId?_ne_none coherent.topRow
  case ends =>
    exact ⟨_, rfl⟩
  case sameTree =>
    exact sameTree
  case answers =>
    exact Store.answersAlike_of_sameTree sound.steady leaves.steady leaves.savepoints leaves.closed
      locks modest.ordered.tables ordered sameTree
  case stored =>
    intro isStored
    cases outcome with
    | error fault =>
        cases isStored
    | ok value =>
        obtain ⟨-, -, ⟨⟨path, version, isPath, snapped, holds⟩, -⟩, -⟩ := leaves.done value rfl
        exact ⟨path, version,
          snapshotted_of_snapped named distinct reachable ran isPath snapped holds⟩
  case unstored =>
    intro isUnstored
    cases outcome with
    | error fault =>
        exact (leaves.undone fault rfl).1
    | ok value =>
        cases isUnstored
  case certain =>
    intro path isPath proper available outside staying open_
    have decides :=
      @Txn.snapshot_certain (session.store.setting (fun _ => False) session.store.InUse) False _ _ _
        source? session.store.locks.gives now sound.all.tables (modest.numbered sound) text isPath
        proper available time?
    obtain ⟨value, after, isDone, -⟩ :=
      decides.runs_writing ⟨sound.steady, outside, open_⟩ staying session.store.fits_inUse rfl
    rw [isDone] at ran
    cases ran
    rfl

/-- Bytes are kept below a directory that there is not, and restored elsewhere. -/
theorem snapshots_below_missing :
    let session := (start {} false 0).after 1 (.whole (.write "home/a" ⟨#[1]⟩ none none))
    ∃ left version,
      (Store.snapshot 2 "home/d/f" (some (.ofBytes ⟨#[7, 8]⟩)) (some 99)).runOn session.store =
          (.ok true, left) ∧
        ((Store.stat "home/d").runOn left).1 = ((Store.stat "home/d").runOn session.store).1 ∧
          version ∈ left.tables.entries ∧
            version.lastModified = 99 ∧
              ∃ after,
                (Store.recover 3 "home/b" [⟨"home/d", version⟩]).runOn left = (.ok (1, 0), after) ∧
                  after.Gives "home/b" ⟨#[7, 8]⟩ := by
  intro session
  have reachable : Reachable (fun _ _ _ => True) (start {} false 0) session :=
    Relation.ReflTransGen.single (.event trivial trivial)
  have snapshots :=
    snapshots_of_reachable (by decide) (by decide) reachable 2 "home/d/f"
      (some (.ofBytes ⟨#[7, 8]⟩)) (some 99)
  let home : Name := ⟨"home", by decide⟩
  have isPath :
      CleanPath.ofText "home/d/f" = .ok ⟨[home, ⟨"d", by decide⟩, ⟨"f", by decide⟩]⟩ := by
    decide
  have isPlace : CleanPath.ofText "home/b" = .ok ⟨[home, ⟨"b", by decide⟩]⟩ := by
    decide
  have free : session.store.savepoints.isEmpty = true ∧ session.store.closing = false ∧
      session.store.closed = false := by
    decide +kernel
  have isStored :=
    snapshots.certain _ isPath (by decide) (Source.bytes_ofBytes _).2 (List.isEmpty_iff.mp free.1)
      free.2.1 free.2.2
  have empty : session.store.tables.lookupAt? ⟨[home, ⟨"b", by decide⟩]⟩ = none := by
    decide +kernel
  have directories :
      ∀ names ∈ [[], [home]],
        (session.store.tables.lookupAt? ⟨names⟩).map (·.isDirectory) = some true := by
    decide +kernel
  rcases ran : (Store.snapshot 2 "home/d/f" (some (.ofBytes ⟨#[7, 8]⟩)) (some 99)).runOn
    session.store with ⟨outcome, left⟩
  rw [ran] at snapshots isStored
  dsimp only at isStored
  subst isStored
  have sameTree := snapshots.sameTree
  obtain ⟨path, version, snapshotted⟩ := snapshots.stored rfl
  cases isPath.symm.trans snapshotted.isPath
  have receives : left.tables.GivesWay left.InUse ⟨[home, ⟨"b", by decide⟩]⟩ := by
    refine ⟨by decide, ?_, fun names file along here => ?_⟩
    · rintro ⟨old, found, -⟩
      rw [sameTree.found, empty] at found
      cases found
    · have isDirectory := directories names ((List.mem_inits names [home]).mpr along)
      rw [← sameTree.found, here.found, Option.map_some, here.isFile] at isDirectory
      cases isDirectory
  obtain ⟨row, after, isRestored, -, gives⟩ := snapshotted.restored 3 "home/b" _ isPlace receives
  exact ⟨left, version, rfl, snapshots.answers.stat "home/d", snapshotted.snapped.member,
    snapshotted.snapped.modified, after, isRestored, gives _ (.delivered _)⟩

end Session

end VersionStore
