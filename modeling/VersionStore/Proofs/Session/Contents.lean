import VersionStore.Proofs.Session.Enduring
import VersionStore.Proofs.Stream.Storing

namespace VersionStore

/-!
# The contents of a session

The parts of every file lie in a row, and its row says what they come to, unless a writer
has the file open. This holds as long as no one goes on in a scope after a call failed in
it, no close of a writer fails, and no close of the store is forced.
-/

open Tables VersionStore.Action

/-! ## Calls -/

/-- A call that does not fail carries contents over. -/
theorem Call.carrying_inside
    {setting : Setting}
    {base : Tables}
    (filed : base.Filed setting.busy)
    (now : Int)
    (call : Call) :
    Txn.Carrying setting base (fun _ => False) (call.inside now) := by
  unfold Txn.Carrying
  have edits := Txn.endures_carries base fun _ => False
  have removing := edits.toEnduresRemoving
  have claimed : ∀ id, True → ¬setting.held id → ¬False := fun _ _ _ => id
  cases call with
  | stat text =>
      rw [inside, Works.ignoring_iff]
      exact Works.loosely (Txn.stat_keeps text)
  | list text =>
      rw [inside, Works.ignoring_iff]
      exact Works.loosely (Txn.list_keeps text)
  | makeDirectories text =>
      rw [inside, Works.ignoring_iff]
      exact Works.loosely (Txn.makeDirectories_grows edits.grows now text)
  | write text data links? time? =>
      rw [inside, Works.ignoring_iff]
      exact Txn.carrying_writeFrom filed.toNumbered now text _ links? time?
  | writeFrom text source links? time? =>
      rw [inside, Works.ignoring_iff]
      exact Txn.carrying_writeFrom filed.toNumbered now text source links? time?
  | snapshot text source? time? =>
      exact Txn.carrying_snapshot filed now text source? time?
  | delete text =>
      rw [inside, Works.ignoring_iff]
      exact Works.loosely (Txn.delete_endures removing now text claimed)
  | deleteEntry entry =>
      rw [inside, Works.ignoring_iff]
      exact Works.loosely (Txn.deleteEntry_endures removing now trivial (claimed _ trivial))
  | copy target source time? =>
      rw [inside, Works.ignoring_iff]
      exact Txn.carrying_copy filed now target source time?
  | moveTo target source time? =>
      rw [inside, Works.ignoring_iff]
      exact Works.loosely (Txn.moveTo_endures edits now target source time?)
  | setLastModified text time =>
      rw [inside, Works.ignoring_iff]
      exact Works.loosely (Txn.setLastModified_endures edits text time)
  | setWritable text writable =>
      rw [inside, Works.ignoring_iff]
      exact Works.loosely (Txn.setWritable_endures edits text writable)
  | setLinks text targets =>
      rw [inside, Works.ignoring_iff]
      exact Works.loosely (Txn.setLinks_endures edits text targets)
  | prune entry =>
      rw [inside, Works.ignoring_iff]
      exact Works.loosely (Txn.prune_endures removing now trivial id)
  | pruneHistory infos all =>
      rw [inside, Works.ignoring_iff]
      refine Works.loosely (Works.asking (Txn.pruneHistory_endures removing infos all) ?_)
      exact fun _ carries => ⟨carries, fun _ _ _ _ _ => ⟨trivial, id⟩⟩
  | recover target infos =>
      rw [inside, Works.ignoring_iff]
      exact Txn.carrying_recover filed now target infos
  | sweep select? =>
      rw [inside, Works.ignoring_iff]
      refine Works.loosely (Works.asking (Txn.sweep_endures removing select?) ?_)
      exact fun _ carries => ⟨carries, fun _ _ => ⟨trivial, id⟩⟩

namespace Writer

/-! ## Writers of a session -/

/-- A writer that is open, at another place than this one. -/
def Besides (writers : List Writer) (index : Nat) (other : Writer) : Prop :=
  ∃ place, place ≠ index ∧ writers[place]? = some other ∧ other.isClosed = false

variable
  {writers : List Writer}
  {index : Nat}
  {writer other : Writer}

/-- Another writer in the place of one is besides the same writers. -/
theorem besides_set
    (left : Writer) :
    Besides (writers.set index left) index = Besides writers index := by
  funext other
  refine propext (exists_congr fun place => and_congr_right fun apart => ?_)
  rw [List.getElem?_set_ne (Ne.symm apart)]

/-- A writer that is open is this one or besides it. -/
theorem open_iff
    (found : writers[index]? = some writer) :
    (other ∈ writers ∧ other.isClosed = false) ↔
      Besides writers index other ∨ other = writer ∧ writer.isClosed = false := by
  constructor
  · rintro ⟨member, open_⟩
    obtain ⟨place, isPlace⟩ := List.mem_iff_getElem?.mp member
    by_cases same : place = index
    · subst same
      obtain rfl : other = writer := Option.some.inj (isPlace.symm.trans found)
      exact .inr ⟨rfl, open_⟩
    · exact .inl ⟨place, same, isPlace, open_⟩
  · rintro (⟨place, -, isPlace, open_⟩ | ⟨rfl, open_⟩)
    · exact ⟨List.mem_of_getElem? isPlace, open_⟩
    · exact ⟨List.mem_of_getElem? found, open_⟩

end Writer

namespace Session

variable
  {session next : Session}
  {now : Int}
  {event : Event}

/-- A writer has this file open. -/
def Busy (session : Session) (id : Int) : Prop :=
  ∃ writer ∈ session.writers, writer.isClosed = false ∧ writer.fileId = id

/-- Every writer that has no lock any longer was closed with success. -/
def Finished (session : Session) : Prop :=
  ∀ writer ∈ session.writers,
    writer.guard = none →
    writer.result ≠ none

/-- The files that writers have open are those of one writer and of those besides it. -/
theorem busy_iff
    {index : Nat}
    {writer : Writer}
    (found : session.writers[index]? = some writer)
    (id : Int) :
    session.Busy id ↔
      (∃ other, Writer.Besides session.writers index other ∧ other.fileId = id) ∨
        writer.isClosed = false ∧ id = writer.fileId := by
  constructor
  · rintro ⟨other, member, open_, rfl⟩
    rcases (Writer.open_iff found).mp ⟨member, open_⟩ with besides | ⟨rfl, -⟩
    · exact .inl ⟨other, besides, rfl⟩
    · exact .inr ⟨open_, rfl⟩
  · rintro (⟨other, besides, rfl⟩ | ⟨open_, rfl⟩)
    · obtain ⟨member, open_⟩ := (Writer.open_iff found).mpr (.inl besides)
      exact ⟨other, member, open_, rfl⟩
    · exact ⟨writer, List.mem_of_getElem? found, open_, rfl⟩

/-- A use of a writer leaves those besides it as they are. -/
theorem writers_used
    {index : Nat}
    {writer : Writer}
    (found : session.writers[index]? = some writer)
    (now : Int)
    (use : WriterUse) :
    (session.after now (.useWriter index use)).writers[index]? =
        some ((use.run now).runOn writer session.store).2.1 ∧
      Writer.Besides (session.after now (.useWriter index use)).writers index =
        Writer.Besides session.writers index := by
  have writers :
      (session.after now (.useWriter index use)).writers =
        session.writers.set index ((use.run now).runOn writer session.store).2.1 :=
    congrArg Session.writers (onWriter_eq found (use.run now))
  rw [writers]
  exact ⟨List.getElem?_set_self (List.getElem?_eq_some_iff.mp found).1, Writer.besides_set _⟩

/-- Every row says what the parts of its file come to, unless a writer has the file open, and
those writers know how the parts lie. -/
structure Filed (session : Session) : Prop where
  orderly : session.Orderly
  filed : session.store.All (Tables.Filed session.Busy)
  tracks :
    ∀ writer ∈ session.writers,
      writer.isClosed = false →
      session.store.All writer.Tracks

namespace Filed

/-- The files that writers have open are busy. -/
theorem fits
    (filed : session.Filed) :
    session.store.Fits (session.store.setting session.Busy) := by
  refine ⟨rfl, ?_, fun _ absurd => absurd.elim⟩
  rintro _ ⟨writer, member, open_, rfl⟩
  exact filed.orderly.current.exclusive_of_writer filed.orderly.accounted member open_

/-- Contents are carried over from where they are. -/
theorem carries_refl
    (filed : session.Filed) :
    session.store.tables.Carries (fun _ => False) (fun _ => False) session.store.tables :=
  .refl filed.filed.tables.toNumbered

/-- A call carries contents over from where they are. -/
theorem carrying
    (filed : session.Filed)
    (now : Int)
    (call : Call) :
    Txn.Carrying (session.store.setting session.Busy) session.store.tables (fun _ => False)
      (call.inside now) :=
  call.carrying_inside filed.filed.tables now

/-- What is not about contents leaves them filed. -/
theorem passing
    (filed : session.Filed)
    (orderly : next.Orderly)
    (writers : next.writers = session.writers)
    (all : ∀ holds, session.store.All holds → next.store.All holds) :
    next.Filed := by
  have busy : next.Busy = session.Busy := by
    unfold Busy
    rw [writers]
  refine ⟨orderly, ?_, ?_⟩
  · rw [busy]
    exact all _ filed.filed
  · rw [writers]
    exact fun writer member open_ => all _ (filed.tracks writer member open_)

/-- Contents that are carried over are filed. -/
theorem carried
    (filed : session.Filed)
    (orderly : next.Orderly)
    (writers : next.writers = session.writers)
    (savepoints : next.store.savepoints = session.store.savepoints)
    (carries :
      session.store.tables.Carries (fun _ => False) (fun _ => False) next.store.tables) :
    next.Filed := by
  have busy : next.Busy = session.Busy := by
    unfold Busy
    rw [writers]
  refine ⟨orderly, ⟨?_, ?_⟩, fun writer member open_ => ⟨?_, ?_⟩⟩
  · rw [busy]
    exact carries.filed filed.filed.tables
  · rw [busy, savepoints]
    exact filed.filed.saved
  · rw [writers] at member
    exact (filed.tracks writer member open_).tables.carried carries
  · rw [writers] at member
    rw [savepoints]
    exact (filed.tracks writer member open_).saved

/-- A call in a transaction leaves contents filed when it does not fail. -/
theorem inside
    (filed : session.Filed)
    {call : Call}
    (opened : session.store.savepoints ≠ [])
    (orderly : (session.after now (.inside call)).Orderly)
    (succeeds : ((call.inside now).runOn session.store).1 = .ok ⟨⟩) :
    (session.after now (.inside call)).Filed := by
  have works := filed.carrying now call
  have inScope := filed.orderly.accounted.steady.inScope opened filed.fits
  obtain ⟨alike, ended⟩ := works session.store inScope filed.carries_refl
  rw [succeeds] at ended
  exact filed.carried orderly rfl alike.savepoints ended

/-- A call by itself leaves contents filed, whether it fails or not. -/
theorem whole
    (filed : session.Filed)
    {call : Call}
    (orderly : (session.after now (.whole call)).Orderly) :
    (session.after now (.whole call)).Filed := by
  have works := filed.carrying now call
  have passes :=
    Call.passes_whole filed.orderly.accounted.steady filed.fits works filed.carries_refl filed.carries_refl
  exact filed.carried orderly rfl passes.savepoints passes.tables

/-- A writer that is opened begins with what is filed. -/
theorem openWriter
    (filed : session.Filed)
    {text : String}
    {append : Bool}
    (orderly : (session.after now (.openWriter text append)).Orderly) :
    (session.after now (.openWriter text append)).Filed := by
  have leaves :=
    Writer.openPath_endures (Txn.endures_carries session.store.tables fun _ => False)
      (fun _ _ => ⟨trivial, id⟩) (fun _ _ _ => id) filed.orderly.accounted.steady filed.fits
      filed.carries_refl now text append
  have store :
      (session.after now (.openWriter text append)).store =
        ((Writer.openPath now text append).runOn session.store).2 :=
    holdWriter_store _ session
  have writers :
      (session.after now (.openWriter text append)).writers =
        session.writers ++
          (((Writer.openPath now text append).runOn session.store).1.toOption).toList :=
    holdWriter_writers _ session
  cases outcome : ((Writer.openPath now text append).runOn session.store).1 with
  | error fault =>
      rw [outcome] at writers
      refine filed.passing orderly (writers.trans (List.append_nil _)) fun holds all => ?_
      rw [store]
      exact leaves.all_undone outcome all
  | ok writer =>
      rw [outcome] at writers
      obtain ⟨-, -, carries, -, begins⟩ := leaves.done writer outcome
      have listed := orderly.listed.tables
      rw [store] at listed
      have isFiled := carries.filed filed.filed.tables
      have every
          {holds : Tables → Prop}
          (after : holds ((Writer.openPath now text append).runOn session.store).2.tables) :
          (session.after now (.openWriter text append)).store.All holds := by
        rw [store]
        exact leaves.all_done outcome after
      refine ⟨orderly, every (isFiled.leaving ?_), ?_⟩
      · rintro id ⟨other, member, open_, isFile⟩
        refine ⟨other, ?_, open_, isFile⟩
        rw [writers]
        exact List.mem_append_left _ member
      · rw [writers]
        intro other member open_
        rcases List.mem_append.mp member with old | new
        · exact every ((filed.tracks other old open_).tables.carried carries)
        · rw [List.mem_singleton.mp new]
          exact every (begins.tracks listed isFiled)

/-- A use of a writer leaves contents filed, unless it closes the writer and fails. -/
theorem useWriter
    (filed : session.Filed)
    {index : Nat}
    {use : WriterUse}
    (orderly : (session.after now (.useWriter index use)).Orderly)
    (finished : (session.after now (.useWriter index use)).Finished) :
    (session.after now (.useWriter index use)).Filed := by
  cases found : session.writers[index]? with
  | none =>
      have same := onWriter_none found (use.run now)
      refine filed.passing orderly ?_ fun holds all => ?_
      · change (session.onWriter index (use.run now)).writers = session.writers
        rw [same]
      · change (session.onWriter index (use.run now)).store.All holds
        rwa [same]
  | some writer =>
      have member := List.mem_of_getElem? found
      have upholds :
          writer.Upholds
            (fun id => ∃ other, Writer.Besides session.writers index other ∧ other.fileId = id)
            (Writer.Besides session.writers index) session.store := by
        refine ⟨filed.orderly.accounted.steady, fun _ => ?_, fun _ => ?_,
          filed.tracks writer member, ?_, ?_⟩
        · rw [← funext fun id => propext (busy_iff found id)]
          exact filed.filed
        · exact filed.orderly.tailed.tail writer member
        · rintro open_ other ⟨place, apart, isPlace, otherOpen⟩ sameFile
          have excludes := filed.orderly.current.excludes filed.orderly.accounted
          exact apart
            (excludes.writer place index other writer isPlace found otherOpen open_ trivial sameFile)
        · rintro other ⟨place, -, isPlace, otherOpen⟩
          exact filed.tracks other (List.mem_of_getElem? isPlace) otherOpen
      have after := upholds.run now use
      have store :
          (session.after now (.useWriter index use)).store =
            ((use.run now).runOn writer session.store).2.2 :=
        congrArg Session.store (onWriter_eq found (use.run now))
      obtain ⟨foundLeft, besides⟩ := session.writers_used found now use
      refine ⟨orderly, ?_, fun other otherMember open_ => ?_⟩
      · rw [store, funext fun id => propext (busy_iff foundLeft id), besides]
        apply after.filed
        by_contra none_
        rw [not_or, not_not, not_not] at none_
        exact finished _ (List.mem_of_getElem? foundLeft) none_.2 none_.1
      · rw [store]
        rcases (Writer.open_iff foundLeft).mp ⟨otherMember, open_⟩ with isBesides | ⟨rfl, open_⟩
        · exact after.others other (besides ▸ isBesides)
        · exact after.tracks open_

end Filed

end Session

end VersionStore
