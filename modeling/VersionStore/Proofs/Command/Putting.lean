import VersionStore.Proofs.Command.Appending
import VersionStore.Proofs.Content.Replacing
import VersionStore.Proofs.Host.RootListings
import VersionStore.Proofs.Session.Closing

namespace VersionStore

/-!
# Storing files by a command

A file is stored by a command all at once, or added to in steps. Where nothing is at a path yet both
come to the same: they succeed where no file is in the way and the source does not fail, and then
the same is seen, the directories on the way included.
-/

open Tables ConsoleAction VersionStore.Action

namespace Txn

/-- Where nothing is at the path of a text a file is written if no file is in the way, and if the
source does not fail. -/
theorem writeFrom_begins
    {setting : Setting}
    {gives : Int → Bool → Bool}
    {strict : Prop}
    {known : List Entry}
    {before : Tables}
    {text : String}
    (sound : before.Sound strict known)
    (numbered : before.Numbered)
    (lacks : before.Lacks text)
    (now : Int)
    (source : Source)
    (time? : Option Int) :
    Decides setting gives (· = before) (writeFrom now text source none time?)
      (source.failure? = none ∧ before.LeadsTo text)
      fun _ after =>
        ∃ path,
          CleanPath.ofText text = .ok path ∧
            after.sights = before.sights.put path (.ofBytes (time?.getD now) source.bytes) := by
  have writes :=
    @writeFrom_writes setting strict known before now sound numbered text source none time?
  by_cases ready : source.failure? = none ∧ ∃ path, CleanPath.ofText text = .ok path
  · obtain ⟨ends, path, isPath⟩ := ready
    have accepts :
        before.Accepts gives path ↔ source.failure? = none ∧ before.LeadsTo text := by
      refine ⟨fun accepts => ⟨ends, path, isPath, accepts.proper, accepts.leads⟩, ?_⟩
      rintro ⟨-, other, isOther, proper, leads⟩
      cases isPath.symm.trans isOther
      refine ⟨proper, fun entry found => ?_, leads⟩
      cases (lacks path isPath).symm.trans found
    have decides :=
      @writeFrom_decides setting gives strict known before path now text isPath source ends
        none time? sound numbered
    exact (decides.exactly accepts).weaken (fun _ same => same)
      fun _ _ put => ⟨path, isPath, put.seen⟩
  · refine (Decides.never (writes.weaken (fun _ same => same) (fun row after written => ?_)
      fun _ _ _ => trivial)).exactly (iff_of_false not_false ?_)
    · obtain ⟨path, isPath, -⟩ := written.replaced
      exact ready ⟨written.ends, path, isPath⟩
    · rintro ⟨ends, path, isPath, -⟩
      exact ready ⟨ends, path, isPath⟩

end Txn

namespace Command

/-- Store a file at once. -/
def storeAtOnce
    (now : Int)
    (id : StoreId)
    (text : String)
    (source : Source)
    (time? : Option Int) :
    ConsoleAction Entry :=
  within ("Failed to write " ++ text) (onStore id (Store.writeFrom now text source none time?))

section Storing

variable
  {strict : Prop}
  {known : List Entry}
  {host left : Host}
  {id : StoreId}
  {store : Store}
  {text : String}

/-- A command that stores a file comes to what adding or storing at once comes to. A line is printed
then. -/
theorem runOn_put
    {appending : Bool}
    {now : Int}
    {source : Source}
    {time? : Option Int}
    {action : ConsoleAction Entry}
    {outcome : Except Failure Entry}
    (isAction :
      action =
        if appending then append now id text source time?
        else storeAtOnce now id text source time?)
    (comes : Comes action host outcome left) :
    ((put now id text source appending time?).runOn host).1 = outcome ∧
      ((put now id text source appending time?).runOn host).2.2 = left := by
  have inTurn :
      put now id text source appending time? = action >>= fun entry => do
        printLine (text ++ ": " ++ Text.fileSize entry.length)
        return entry := by
    rw [isAction, put]
    cases appending <;> simp only [Bool.false_eq_true, if_false, if_true, storeAtOnce]
  rw [inTurn, ConsoleAction.runOn, run_bind, comes .empty]
  cases outcome <;> exact ⟨rfl, rfl⟩

/-- Where nothing is at a path a file is stored at once if no file is in the way, and if the source
does not fail. -/
theorem storeAtOnce_comes
    (awaits : host.Awaits id store)
    (sound : store.tables.Sound strict known)
    (numbered : store.tables.Numbered)
    (lacks : store.tables.Lacks text)
    (now : Int)
    (source : Source)
    (time? : Option Int) :
    ∃ outcome left,
      Comes (storeAtOnce now id text source time?) host outcome left ∧
        (outcome.isOk = true ↔ source.failure? = none ∧ store.tables.LeadsTo text) ∧
          (outcome.isOk = true →
            ∃ path,
              CleanPath.ofText text = .ok path ∧
                (left.found id).tables.sights =
                  store.tables.sights.put path (.ofBytes (time?.getD now) source.bytes)) := by
  have decides :=
    @Txn.writeFrom_begins (store.setting fun _ => False) store.locks.gives strict known
      store.tables text sound numbered lacks now source time?
  rcases comes_decided awaits decides with
    ⟨unable, halts⟩ | ⟨able, entry, left, tables, locks, comes, stands, -, path, isPath, seen⟩
  · obtain ⟨failure, left, -, comes, -⟩ := halts.within _
    exact ⟨_, left, comes, iff_of_false Bool.false_ne_true unable, fun isOk => by cases isOk⟩
  · refine ⟨_, left, comes.within _, iff_of_true rfl able, fun _ => ⟨path, isPath, ?_⟩⟩
    rw [stands.found]
    exact seen

/-- What is seen once a file was added where nothing was. -/
theorem Adding.seen
    {before : Tables}
    {now : Int}
    {source : Source}
    {time? : Option Int}
    {outcome : Except Failure Entry}
    (adding : Adding id host before now text source time? outcome left)
    (lacks : before.Lacks text)
    (isOk : outcome.isOk = true) :
    ∃ path,
      CleanPath.ofText text = .ok path ∧
        (left.found id).tables.sights =
          before.sights.put path (.ofBytes (time?.getD now) source.bytes) := by
  cases adding with
  | refused | broken =>
      cases isOk
  | added left path row tables stamped ends isPath presents appended =>
      refine ⟨path, isPath, ?_⟩
      rw [presents.tables_eq, appended.seen, appended.begun (lacks path isPath)]

/-! ## Stores that refuse changes -/

/-- A store is idle and stays open, or it refuses every change. -/
theorem idle_or_refuses
    (steady : store.Steady) :
    store.Idle ∧ store.closing = false ∨
      ∃ fault, ∀ {α : Type} (action : Action α),
        (writing action).runOn store = (.error fault, store) := by
  have refuses {fault : Fault} (barred : Request.Barred store fault)
      (staying : store.closing = false) {α : Type} (action : Action α) :
      (writing action).runOn store = (.error fault, store) := by
    rw [Request.runOn_writing_barred barred, Request.unlessClosing, staying]
    rfl
  by_cases closing : store.closing = true
  · refine .inr ⟨.closed, fun action => ?_⟩
    rw [runOn_writing, if_pos closing]
  have staying := Bool.eq_false_of_not_eq_true closing
  by_cases entered : store.entered = true
  · exact .inr ⟨_, refuses (Request.runOn_enter_entered entered) staying⟩
  by_cases closed : store.closed = true
  · exact .inr ⟨_, refuses
      (Request.barred_of_closed (Bool.eq_false_of_not_eq_true entered) closed) staying⟩
  · exact .inl
      ⟨⟨steady, steady.outside entered, Bool.eq_false_of_not_eq_true closed⟩, staying⟩

variable
  {fault : Fault}
  (refuses : ∀ {α : Type} (action : Action α),
    (writing action).runOn (host.found id) = (.error fault, host.found id))

include refuses

/-- Nothing is added to a file of a store that refuses changes, and the store stays as it is. -/
theorem append_refused
    (now : Int)
    (source : Source)
    (time? : Option Int) :
    ∃ failure,
      Comes (append now id text source time?) host (.error failure)
        (host.keep id (host.found id)) := by
  rw [append_eq]
  cases above : parentText? text with
  | some directory =>
      have stops :
          Comes (makeWay now id text) host (.error (.ofFault fault))
            (host.keep id (host.found id)) := by
        rw [makeWay, above]
        exact (Comes.onStore (refuses (Txn.makeDirectories now directory))).stops
      exact ⟨_, stops.stops⟩
  | none =>
      have made : Comes (makeWay now id text) host (.ok ⟨⟩) host := by
        rw [makeWay, above]
        exact .pure _ _
      have refused :
          ∃ fault,
            (Writer.openPath now text true).runOn (host.found id) =
              (.error fault, host.found id) := by
        rw [Writer.openPath, runOn_bind, Txn.clean, runOn_ofExcept]
        cases CleanPath.ofText text with
        | error fault =>
            exact ⟨fault, rfl⟩
        | ok path =>
            dsimp only
            rw [runOn_bind, refuses]
            exact ⟨_, rfl⟩
      obtain ⟨fault, ran⟩ := refused
      exact ⟨_, made.bind ((Comes.onStore ran).within _).stops⟩

/-- Nor is a file stored at once. -/
theorem storeAtOnce_refused
    (now : Int)
    (source : Source)
    (time? : Option Int) :
    ∃ failure,
      Comes (storeAtOnce now id text source time?) host (.error failure)
        (host.keep id (host.found id)) :=
  ⟨_, (Comes.onStore (refuses _)).within _⟩

end Storing

/-! ## In every state -/

/-- In every state that a store can reach, adding to a file is refused with nothing changed, or
everything that the source delivers is added behind the bytes that are there. Where nothing is at
the path it succeeds when storing the file at once does, and the same is seen then. What is left out
is a text that ends in a component that is no name. -/
theorem put_adds_of_reachable
    {config : Config}
    (named : ∀ root ∈ config.roots, IsName root)
    (distinct : config.roots.Nodup)
    {timed : Bool}
    {since : Int}
    {session : Session}
    (reachable :
      Session.Reachable (fun _ _ _ => True) (Session.start config timed since) session)
    {host : Host}
    {id : StoreId}
    (there : id < host.stores.size)
    {file : Option String}
    (found : host.found id = { session.store with file })
    {text : String}
    (here : lastComponent text ≠ ".")
    (above : lastComponent text ≠ "..")
    (now : Int)
    (source : Source)
    (time? : Option Int) :
    let adding := (put now id text source true time?).runOn host
    let storing := (put now id text source false time?).runOn host
    Adding id host session.store.tables now text source time? adding.1 adding.2.2 ∧
      (session.store.tables.Lacks text →
        (adding.1.isOk = true ↔ storing.1.isOk = true) ∧
          (adding.1.isOk = true →
            (adding.2.2.found id).tables.sights = (storing.2.2.found id).tables.sights)) := by
  obtain ⟨sound, modest⟩ := Session.Modest.of_reachable named distinct reachable
  have steady : (host.found id).Steady := by
    rw [found]
    exact { sound.steady with }
  rcases idle_or_refuses steady with ⟨idle, staying⟩ | ⟨fault, refuses⟩
  case inl =>
    have awaits : host.Awaits id (host.found id).online := ⟨there, idle, staying, rfl⟩
    have reads := Session.ReadsGiven.of_reachable named distinct reachable
    rw [found] at idle staying awaits
    have grants := modest.grants reads { idle with } staying
    obtain ⟨added, left, adds, adding, addedIff⟩ :=
      append_adds awaits sound.all.tables (modest.numbered sound) grants
        (aims_of_lastComponent here above) now source time?
    obtain ⟨isAdded, addedLeft⟩ := runOn_put (if_pos rfl).symm adds
    dsimp only
    rw [isAdded, addedLeft]
    refine ⟨adding, fun lacks => ?_⟩
    obtain ⟨stored, middle, stores, storedIff, seen⟩ :=
      storeAtOnce_comes awaits sound.all.tables (modest.numbered sound) lacks now source time?
    obtain ⟨isStored, storedLeft⟩ := runOn_put (if_neg Bool.false_ne_true).symm stores
    rw [isStored, storedLeft]
    have same : added.isOk = true ↔ stored.isOk = true := (addedIff lacks).trans storedIff.symm
    refine ⟨same, fun isOk => ?_⟩
    obtain ⟨path, isPath, addedSights⟩ := adding.seen lacks isOk
    obtain ⟨other, isOther, storedSights⟩ := seen (same.mp isOk)
    cases isPath.symm.trans isOther
    exact addedSights.trans storedSights.symm
  case inr =>
    obtain ⟨failure, adds⟩ := @append_refused host id text fault refuses now source time?
    obtain ⟨other, stores⟩ := @storeAtOnce_refused host id text fault refuses now source time?
    obtain ⟨isAdded, addedLeft⟩ := runOn_put (if_pos rfl).symm adds
    obtain ⟨isStored, storedLeft⟩ := runOn_put (if_neg Bool.false_ne_true).symm stores
    dsimp only
    rw [isAdded, addedLeft, isStored, storedLeft]
    refine ⟨.refused failure _ ?_ fun presents => presents.keep_found,
      fun _ => ⟨iff_of_false Bool.false_ne_true Bool.false_ne_true, nofun⟩⟩
    rw [Host.store_keep_self, if_pos there, found]

/-- A file is added to behind its bytes. In a directory that is not there yet one is begun, as it is
when it is stored at once. -/
theorem put_adds_and_begins :
    let session :=
      (Session.start {} false 0).after 1 (.whole (.write "home/a" ⟨#[1]⟩ none none))
    let host : Host := { stores := #[session.store] }
    let source : Source := ⟨[.bytes ⟨#[2]⟩], none⟩
    let adding (text : String) := (put 2 0 text source true none).runOn host
    let storing (text : String) := (put 2 0 text source false none).runOn host
    (adding "home/a").1.isOk = true ∧
      Adding 0 host session.store.tables 2 "home/a" source none (adding "home/a").1
        (adding "home/a").2.2 ∧
        (storing "home/b/c").1.isOk = true ∧
          ((adding "home/b/c").2.2.found 0).tables.sights =
            ((storing "home/b/c").2.2.found 0).tables.sights := by
  intro session host source adding storing
  have reachable : Session.Reachable (fun _ _ _ => True) (Session.start {} false 0) session :=
    .single (.event trivial trivial)
  have sound : session.Sound False :=
    (Session.Modest.of_reachable (by decide) (by decide) reachable).1
  have unfiled : session.store.connected = true ∧ session.store.file = none := by
    decide +kernel
  have added : (adding "home/a").1.isOk = true := by
    decide +kernel
  have begun : (adding "home/b/c").1.isOk = true := by
    decide +kernel
  have lacks : session.store.tables.Lacks "home/b/c" := by
    intro path isPath
    have isThat :
        CleanPath.ofText "home/b/c" =
          .ok ⟨[⟨"home", by decide⟩, ⟨"b", by decide⟩, ⟨"c", by decide⟩]⟩ := by
      decide
    cases isThat.symm.trans isPath
    decide +kernel
  clear_value session
  have isFound : host.found 0 = { session.store with file := session.store.file } :=
    Host.found_single unfiled.1 unfiled.2 sound.steady.others
  have adds :=
    put_adds_of_reachable (by decide) (by decide) reachable Nat.zero_lt_one isFound
      (by decide : lastComponent "home/a" ≠ ".") (by decide) 2 source none
  have begins :=
    put_adds_of_reachable (by decide) (by decide) reachable Nat.zero_lt_one isFound
      (by decide : lastComponent "home/b/c" ≠ ".") (by decide) 2 source none
  obtain ⟨same, seen⟩ := begins.2 lacks
  exact ⟨added, adds.1, same.mp begun, seen begun⟩

/-- What a source delivered before it failed is kept, though nothing was there and the command
fails. -/
theorem put_keeps_delivered :
    let host : Host := { stores := #[(Session.start {} false 0).store] }
    let source : Source := ⟨[.bytes ⟨#[1]⟩], some ⟨.other, "source failed", []⟩⟩
    let adding := (put 1 0 "home/d" source true none).runOn host
    let path : CleanPath := ⟨[⟨"home", by decide⟩, ⟨"d", by decide⟩]⟩
    adding.1.isOk = false ∧
      (host.found 0).tables.lookupAt? path = none ∧
        ((adding.2.2.found 0).tables.lookupAt? path).map Entry.length = some 1 := by
  decide +kernel

end Command

end VersionStore
