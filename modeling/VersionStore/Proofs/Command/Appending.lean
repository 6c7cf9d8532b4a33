import VersionStore.Proofs.Command.Console
import VersionStore.Proofs.Command.Destination
import VersionStore.Proofs.Session.Lent
import VersionStore.Proofs.Stream.Appending

namespace VersionStore

/-!
# Adding to files by a command

The command that stores a file can add to it instead. It takes several steps for this, each of which
is complete in itself: the way to the file is made, a writer is opened, written to and closed, and
the time of the file is set. A step that fails leaves what the steps before it came to. Since the
way is not made where a writer cannot be opened then, only a source that fails leaves something:
what it delivered before is added to the file.
-/

open Tables ConsoleAction

namespace Command

/-! ## The steps -/

/-- Make the directories that a text names in front of its last component. -/
def makeWay (now : Int) (id : StoreId) (text : String) : ConsoleAction Unit :=
  match parentText? text with
  | some directory => do
      let _ ← onStore id (Store.makeDirectories now directory)
  | none => pure ()

/-- Open a writer behind the bytes of a file. -/
def openEnd (now : Int) (id : StoreId) (text : String) : ConsoleAction Writer :=
  within ("Failed to open " ++ text ++ " for append") (onStore id (Writer.openPath now text true))

/-- Set the time of a file, if there is one to set. -/
def stamp (id : StoreId) (text : String) (time? : Option Int) : ConsoleAction Unit :=
  match time? with
  | some time => do
      let _ ← onStore id (Store.setLastModified text time)
  | none => pure ()

/-- Adding to a file takes these steps. -/
theorem append_eq
    (now : Int)
    (id : StoreId)
    (text : String)
    (source : Source)
    (time? : Option Int) :
    append now id text source time? = do
      makeWay now id text
      let writer ← openEnd now id text
      let entry ← writeAndClose now id writer source
      stamp id text time?
      return entry := by
  unfold append makeWay openEnd stamp
  cases parentText? text <;> cases time? <;> simp

section Steps

variable
  {strict : Prop}
  {known : List Entry}
  {host : Host}
  {id : StoreId}
  {store : Store}
  {before : Tables}
  {text : String}
  {path : CleanPath}
  {row : Entry}
  (now : Int)

/-- Opening a writer is to a store that is awaited what it is to the one that is connected. -/
theorem openPath_awaited
    (awaits : host.Awaits id store)
    (isPath : CleanPath.ofText text = .ok path) :
    (Writer.openPath now text true).runOn (host.found id) =
      (Writer.openPath now text true).runOn store := by
  rw [Writer.openPath, Action.runOn_bind, Action.runOn_bind, Txn.clean, Action.runOn_ofExcept,
    Action.runOn_ofExcept, isPath]
  dsimp only
  rw [Action.runOn_bind, Action.runOn_bind, awaits.writing]

/-- The way to a path is made, unless nothing is there and a file is in the way. -/
theorem makeWay_comes
    (awaits : host.Awaits id store)
    (sound : store.tables.Sound strict known)
    (numbered : store.tables.Numbered)
    (proper : ¬path.isRoot = true)
    (top : parentText? text = none → path.dropLast = .root)
    (isAbove :
      ∀ directory,
        parentText? text = some directory →
        CleanPath.ofText directory = .ok path.dropLast) :
    (¬(store.tables.lookupAt? path = none → store.tables.sights.Leads path.dropLast) ∧
      Halts (makeWay now id text) host id store.tables) ∨
    ((store.tables.lookupAt? path = none → store.tables.sights.Leads path.dropLast) ∧
      ∃ left tables locks,
        Comes (makeWay now id text) host (.ok ⟨⟩) left ∧
          left.Awaits id (store.holding tables locks) ∧
            store.locks.Same locks ∧ Txn.Way strict known store.tables path tables) := by
  unfold makeWay
  cases isParent : parentText? text with
  | none =>
      obtain ⟨root, member, isTop⟩ := sound.coherent.top
      have found : store.tables.lookupAt? path.dropLast = some root := by
        rw [top isParent]
        exact sound.coherent.lookupAt?_eq_some_iff.mpr (.top member isTop.id)
      have stands :=
        sound.coherent.stands (sound.coherent.lookupAt?_eq_some_iff.mp found) isTop.isDirectory
      refine .inr ⟨fun _ => Stands.leads stands, host, store.tables, store.locks, .pure _ _, ?_,
        .refl _, .of_directory sound numbered proper found isTop.isDirectory⟩
      rwa [awaits.standing.holding_self]
  | some directory =>
      have decides :=
        @Txn.makeWay_decides (store.setting fun _ => False) store.locks.gives strict known
          store.tables path now directory (isAbove directory isParent) sound numbered proper
      rcases comes_decided awaits decides with
        ⟨unable, halts⟩ | ⟨able, made, left, tables, locks, comes, stands, same, way⟩
      · exact .inl ⟨unable, halts.stops⟩
      · exact .inr ⟨able, left, tables, locks, comes.bind (.pure _ _), stands.awaits, same, way⟩

/-- Where the way to a path was made a writer is opened, unless a directory is there or a file that
someone has open. -/
theorem openEnd_comes
    (awaits : host.Awaits id store)
    (isPath : CleanPath.ofText text = .ok path)
    (way : Txn.Way strict known before path store.tables)
    (sound : before.Sound strict known)
    (grants : store.locks.Grants (before.lastEntryId < ·)) :
    (before.lookupAt? path ≠ none ∧ Halts (openEnd now id text) host id before) ∨
    ∃ writer left tables locks row,
      Comes (openEnd now id text) host (.ok writer) left ∧
        left.Stands id (store.holding tables locks) ∧
          Opened strict known before path row tables ∧
            writer.Joins strict known row (store.holding tables locks) := by
  have standing := awaits.standing
  have awaited := openPath_awaited now awaits isPath
  cases found : before.lookupAt? path with
  | some row =>
      have same := way.found row found
      by_cases refused : row.isDirectory = true ∨ store.locks.gives row.id true = false
      · obtain ⟨fault, locks, ran, sane⟩ :=
          Writer.openPath_refused now standing isPath (same.symm ▸ found) refused
        obtain ⟨left, comes, stands⟩ := comes_change awaits awaited ran sane
        exact .inl ⟨Option.some_ne_none row, Halts.within ⟨_, left, _, comes, stands, same⟩ _⟩
      · obtain ⟨isFile, gives⟩ := not_or.mp refused
        have here : before.FileAt path row := ⟨found, Bool.eq_false_of_not_eq_true isFile⟩
        have free : store.locks.Grants (· = row.id) := by
          refine ⟨grants.running, fun _ isRow => isRow ▸ ?_⟩
          exact (LockTable.gives_exclusive_iff grants.running row.id).mp
            (Bool.eq_true_of_not_eq_false gives)
        obtain ⟨writer, locks, ran, sane, joins⟩ :=
          Writer.openPath_extends now standing isPath (same.symm ▸ here) free
            (same.symm ▸ sound) way.numbered
        obtain ⟨left, comes, stands⟩ := comes_change awaits awaited ran sane
        exact .inr ⟨writer, left, store.tables, locks, row, comes.within _, stands,
          same.symm ▸ here.opened sound, joins⟩
  | none =>
      obtain ⟨directory, isRoom⟩ := way.room found
      have free : store.locks.Grants (· = store.tables.lastEntryId + 1) := by
        refine ⟨grants.running, fun _ isNext => grants.free _ ?_⟩
        have notFewer := way.lastEntryId_le
        omega
      obtain ⟨writer, tables, locks, ran, sane, made, none_, soundAfter, joins⟩ :=
        Writer.openPath_begins now standing isPath isRoom way.numbered free
      obtain ⟨left, comes, stands⟩ := comes_change awaits awaited ran sane
      exact .inr ⟨writer, left, tables, locks, _, comes.within _, stands,
        made.opened found isRoom soundAfter none_, joins⟩

/-- What a source delivers goes through a writer that was just opened, and the writer is closed. A
failure of the source is handed on then. -/
theorem writeAndClose_comes
    {writer : Writer}
    (stands : host.Stands id store)
    (joins : writer.Joins strict known row store)
    (source : Source) :
    let written := bytesOf (store.tables.partsOf row.id) ++ source.bytes
    ∃ gap left tables locks,
      Comes (writeAndClose now id writer source) host
          (match source.failure? with
            | some fault => .error (.ofIo fault)
            | none => .ok (row.closed gap now written)) left ∧
        left.Stands id (store.holding tables locks) ∧
          (LaidFrom 0 (store.tables.pieces row.id) → gap = 0) ∧
            Lengthened store.tables strict known (row.closed gap now written) written tables := by
  intro written
  have standing := stands.standing
  obtain ⟨gap, adds, laid⟩ := joins.adds
  obtain ⟨after, middle, ranWriting, addsMore⟩ :=
    (Writer.Adds.absorbs standing).writeFrom source adds
  obtain ⟨closed, tables, locks, ranClosing, sane, lengthened⟩ :=
    addsMore.finished standing joins.found now
  have sameFile : middle.file = store.file := by
    rw [addsMore.holds]
    rfl
  have middleStands := stands.awaits.keep (addsMore.standing standing) sameFile
  have standingLeft : (store.holding tables locks).Standing := standing.holding sane
  have leftStands := middleStands.awaits.keep standingLeft sameFile.symm
  refine ⟨gap, _, tables, locks, ?_, leftStands, laid, lengthened⟩
  rw [← stands.found] at ranWriting
  unfold writeAndClose
  refine (Comes.onStream ranWriting).bind ?_
  cases source.failure? with
  | some fault =>
      have ranDisposing := Writer.runOn_dispose addsMore.open_ now middle
      rw [ranClosing, ← middleStands.found] at ranDisposing
      exact (Comes.onStream ranDisposing).bind (.throw _ _)
  | none =>
      rw [← middleStands.found] at ranClosing
      exact (Comes.onStream ranClosing).bind (.pure _ _)

/-- The time of a file that was added to is set, if there is one to set. -/
theorem stamp_comes
    {data : ByteArray}
    (stands : host.Stands id store)
    (sound : store.tables.Sound strict known)
    (isPath : CleanPath.ofText text = .ok path)
    (appended : before.Appended path data now row store.tables)
    (time? : Option Int) :
    ∃ left tables locks,
      Comes (stamp id text time?) host (.ok ⟨⟩) left ∧
        left.Stands id (store.holding tables locks) ∧
          before.Appended path data (time?.getD now)
            { row with lastModified := time?.getD now } tables := by
  have standing := stands.standing
  unfold stamp
  cases time? with
  | none =>
      have same : { row with lastModified := now } = row := by
        rw [← appended.lastModified]
      refine ⟨host, store.tables, store.locks, .pure _ _, ?_, same.symm ▸ appended⟩
      rwa [standing.holding_self]
  | some time =>
      obtain ⟨changed, locks, ran, sane, soundAfter⟩ :=
        standing.setLastModified sound isPath appended.here.found time
      obtain ⟨left, comes, standsAfter⟩ :=
        comes_change stands.awaits (by rw [stands.found]) ran sane
      exact ⟨left, _, locks, comes.bind (.pure _ _), standsAfter,
        appended.stamped sound.coherent time soundAfter.coherent⟩

end Steps

/-! ## All the steps -/

/-- What adding to a file comes to on a host. -/
inductive Adding (id : StoreId) (host : Host) (before : Tables) (now : Int) (text : String)
    (source : Source) (time? : Option Int) : Except Failure Entry → Host → Prop where
  /-- It is refused, and nothing is changed. -/
  | refused (failure : Failure) (left : Host)
      (same : (left.store id).tables = before)
      (stays : host.Presents id before → left.Presents id before) :
      Adding id host before now text source time? (.error failure) left
  /-- The source fails, and what it delivered before is added. -/
  | broken (fault : IoFault) (left : Host) (path : CleanPath) (row : Entry) (tables : Tables)
      (fails : source.failure? = some fault)
      (isPath : CleanPath.ofText text = .ok path)
      (presents : left.Presents id tables)
      (appended : before.Appended path source.bytes now row tables) :
      Adding id host before now text source time? (.error (.ofIo fault)) left
  /-- Everything is added. What is handed out is what is found at the path then, and it has its time
  if none was to be set. -/
  | added (left : Host) (path : CleanPath) (row : Entry) (tables : Tables) (stamped : Int)
      (ends : source.failure? = none)
      (isPath : CleanPath.ofText text = .ok path)
      (presents : left.Presents id tables)
      (appended : before.Appended path source.bytes (time?.getD now) row tables)
      (told : ((HostAction.on id (Store.stat text)).runOn left).1 = .ok (some row))
      (current : time? = none → stamped = row.lastModified) :
      Adding id host before now text source time? (.ok { row with lastModified := stamped }) left

section Adding

variable
  {strict : Prop}
  {known : List Entry}
  {host left : Host}
  {id : StoreId}
  {store : Store}
  {before : Tables}
  {text : String}
  {path : CleanPath}
  {row : Entry}
  {now : Int}
  {source : Source}
  {time? : Option Int}

/-- What fails before anything is written changes nothing. -/
theorem Adding.of_halts
    {action : ConsoleAction Entry}
    (halts : Halts action host id before) :
    ∃ failure left,
      Comes action host (.error failure) left ∧
        Adding id host before now text source time? (.error failure) left := by
  obtain ⟨failure, left, store, comes, stands, same⟩ := halts
  exact ⟨failure, left, comes,
    .refused failure left ((congrArg Store.tables stands.kept).trans same)
      fun _ => same ▸ stands.presents⟩

/-- Once a writer is open, everything that the source delivers is added. -/
theorem opened_adds
    {writer : Writer}
    (stands : host.Stands id store)
    (isPath : CleanPath.ofText text = .ok path)
    (opened : Opened strict known before path row store.tables)
    (joins : writer.Joins strict known row store)
    (source : Source)
    (time? : Option Int)
    (start : Host) :
    ∃ outcome left,
      Comes
          (do
            let entry ← writeAndClose now id writer source
            stamp id text time?
            return entry)
          host outcome left ∧
        Adding id start before now text source time? outcome left ∧
          (outcome.isOk = true ↔ source.failure? = none) := by
  obtain ⟨gap, middle, tables, locks, comes, standsAfter, laid, lengthened⟩ :=
    writeAndClose_comes now stands joins source
  rw [opened.bytesAt_eq] at comes lengthened
  have appended := opened.appended laid lengthened
  cases ends : source.failure? with
  | some fault =>
      rw [ends] at comes
      exact ⟨_, middle, comes.stops,
        .broken fault middle path _ tables ends isPath standsAfter.presents appended,
        iff_of_false Bool.false_ne_true (Option.some_ne_none fault)⟩
  | none =>
      rw [ends] at comes
      obtain ⟨left, after, locksAfter, stamps, standsLast, appendedLast⟩ :=
        stamp_comes now standsAfter lengthened.sound isPath appended time?
      obtain ⟨_, asked, -⟩ :=
        @HostAction.stat_tells id text path isPath after left standsLast.presents
      refine ⟨_, left, comes.bind (stamps.bind (.pure _ _)),
        .added left path _ after now ends isPath standsLast.presents appendedLast ?_ ?_,
        iff_of_true rfl rfl⟩
      · rw [asked, appendedLast.here.found]
      · rintro rfl
        rfl

/-- No file is added to at the root. -/
theorem append_root
    (awaits : host.Awaits id store)
    (sound : store.tables.Sound strict known)
    (above : parentText? text = none)
    (isPath : CleanPath.ofText text = .ok .root)
    (now : Int)
    (source : Source)
    (time? : Option Int) :
    Halts (append now id text source time?) host id store.tables := by
  obtain ⟨top, member, isTop⟩ := sound.coherent.top
  have found : store.tables.lookupAt? .root = some top :=
    sound.coherent.lookupAt?_eq_some_iff.mpr (.top member isTop.id)
  obtain ⟨fault, locks, ran, sane⟩ :=
    Writer.openPath_refused now awaits.standing isPath found (.inl isTop.isDirectory)
  obtain ⟨left, comes, stands⟩ := comes_change awaits (openPath_awaited now awaits isPath) ran sane
  have made : Comes (makeWay now id text) host (.ok ⟨⟩) host := by
    rw [makeWay, above]
    exact .pure _ _
  have unopened : Halts (openEnd now id text) host id store.tables :=
    Halts.within ⟨_, left, _, comes, stands, rfl⟩ _
  rw [append_eq]
  exact .behind made unopened.stops

/-- No file is added to when the text in front of the last component means nothing. -/
theorem append_nowhere
    (awaits : host.Awaits id store)
    {directory : String}
    (above : parentText? text = some directory)
    (noneAbove : CleanPath.ofText? directory = none)
    (now : Int)
    (source : Source)
    (time? : Option Int) :
    Halts (append now id text source time?) host id store.tables := by
  have decides :
      Action.Decides (store.setting fun _ => False) store.locks.gives (· = store.tables)
        (Txn.makeDirectories now directory) False fun _ _ => False := by
    refine .never (.bind (fun _ _ => False)
      (.clean (fun path isPath _ _ => ?_) fun _ _ _ => trivial)
      fun _ => .assuming False (fun _ absurd => absurd) False.elim)
    rw [CleanPath.ofText, noneAbove] at isPath
    cases isPath
  obtain ⟨-, halts⟩ | ⟨absurd, -⟩ := comes_decided awaits decides
  · have unmade : Halts (makeWay now id text) host id store.tables := by
      rw [makeWay, above]
      exact halts.stops
    rw [append_eq]
    exact unmade.stops
  · exact absurd.elim

/-- At a path that is not the root everything is added, unless the way to it cannot be made or what
is there cannot be added to. -/
theorem append_named
    (awaits : host.Awaits id store)
    (sound : store.tables.Sound strict known)
    (numbered : store.tables.Numbered)
    (grants : store.locks.Grants (store.tables.lastEntryId < ·))
    (isPath : CleanPath.ofText text = .ok path)
    (proper : ¬path.isRoot = true)
    (top : parentText? text = none → path.dropLast = .root)
    (isAbove :
      ∀ directory,
        parentText? text = some directory →
        CleanPath.ofText directory = .ok path.dropLast)
    (now : Int)
    (source : Source)
    (time? : Option Int) :
    ∃ outcome left,
      Comes (append now id text source time?) host outcome left ∧
        Adding id host store.tables now text source time? outcome left ∧
          (store.tables.lookupAt? path = none →
            (outcome.isOk = true ↔
              source.failure? = none ∧ store.tables.sights.Leads path.dropLast)) := by
  rcases makeWay_comes now awaits sound numbered proper top isAbove with
    ⟨unable, unmade⟩ | ⟨able, middle, tables, locks, made, awaitsAfter, sameLocks, way⟩
  · have halts : Halts (append now id text source time?) host id store.tables := by
      rw [append_eq]
      exact unmade.stops
    obtain ⟨failure, left, comes, adding⟩ := Adding.of_halts halts
    refine ⟨_, left, comes, adding, fun missing => ?_⟩
    exact iff_of_false Bool.false_ne_true fun able => unable fun _ => able.2
  rcases openEnd_comes now awaitsAfter isPath way sound (grants.same sameLocks) with
    ⟨some_, unopened⟩ | ⟨writer, ready, tables, locks, row, comes, stands, opened, joins⟩
  · have halts : Halts (append now id text source time?) host id store.tables := by
      rw [append_eq]
      exact .behind made unopened.stops
    obtain ⟨failure, left, comes, adding⟩ := Adding.of_halts halts
    exact ⟨_, left, comes, adding, fun missing => absurd missing some_⟩
  · obtain ⟨outcome, left, rest, adding, ends⟩ :=
      opened_adds stands isPath opened joins source time? host
    rw [append_eq]
    exact ⟨outcome, left, made.bind (comes.bind rest), adding, fun missing =>
      ends.trans (and_iff_left (able missing)).symm⟩

/-- Adding to a file is refused with nothing changed, or everything that the source delivers is
added. Where nothing is at the path it is not refused if no file is in the way. -/
theorem append_adds
    (awaits : host.Awaits id store)
    (sound : store.tables.Sound strict known)
    (numbered : store.tables.Numbered)
    (grants : store.locks.Grants (store.tables.lastEntryId < ·))
    (aims : Aims text)
    (now : Int)
    (source : Source)
    (time? : Option Int) :
    ∃ outcome left,
      Comes (append now id text source time?) host outcome left ∧
        Adding id host store.tables now text source time? outcome left ∧
          (store.tables.Lacks text →
            (outcome.isOk = true ↔ source.failure? = none ∧ store.tables.LeadsTo text)) := by
  cases aims with
  | root above isPath =>
      obtain ⟨failure, left, comes, adding⟩ :=
        Adding.of_halts (append_root awaits sound above isPath now source time?)
      refine ⟨_, left, comes, adding, fun _ => ?_⟩
      refine iff_of_false Bool.false_ne_true ?_
      rintro ⟨-, path, isOther, proper, -⟩
      cases isPath.symm.trans isOther
      exact proper rfl
  | nowhere directory above noPath noneAbove =>
      obtain ⟨failure, left, comes, adding⟩ :=
        Adding.of_halts (append_nowhere awaits above noneAbove now source time?)
      refine ⟨_, left, comes, adding, fun _ => ?_⟩
      refine iff_of_false Bool.false_ne_true ?_
      rintro ⟨-, path, isPath, -⟩
      rw [CleanPath.ofText, noPath] at isPath
      cases isPath
  | name above name isPath top isAbove =>
      have proper : ¬(⟨above.names ++ [name]⟩ : CleanPath).isRoot = true := by
        simp [CleanPath.isRoot]
      have isDirectory : (⟨above.names ++ [name]⟩ : CleanPath).dropLast = above := by
        simp [CleanPath.dropLast]
      obtain ⟨outcome, left, comes, adding, isOk⟩ :=
        append_named awaits sound numbered grants isPath proper (isDirectory.symm ▸ top)
          (isDirectory.symm ▸ isAbove) now source time?
      refine ⟨outcome, left, comes, adding, fun lacks => (isOk (lacks _ isPath)).trans ?_⟩
      refine and_congr_right fun _ => ⟨fun leads => ⟨_, isPath, proper, leads⟩, ?_⟩
      rintro ⟨path, isOther, -, leads⟩
      cases isPath.symm.trans isOther
      exact leads

end Adding

end Command

end VersionStore
