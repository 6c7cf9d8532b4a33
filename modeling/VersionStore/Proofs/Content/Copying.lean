import VersionStore.Proofs.Content.Storing

namespace VersionStore.Txn

/-!
# Copying contents

A copy gets the parts of the file that it is a copy of, with the length and the checksum
that are recorded there. The file is locked in the meantime, so that no one writes to it,
and making room for the copy leaves its parts alone.
-/

open Tables VersionStore.Action

variable
  {setting : Setting}
  {base : Tables}
  {kept : Int → Prop}
  {id : Int}

/-- Nothing was written to a file yet, so it has no parts. -/
theorem Filling.pieces_eq_nil
    {tables : Tables}
    {more : Prop}
    (filling : Filling base kept id more .empty tables) :
    tables.pieces id = [] := by
  have laid := filling.laid
  have bytes := filling.bytes
  cases pieces : tables.pieces id with
  | nil =>
      rfl
  | cons part rest =>
      rw [pieces] at laid bytes
      have some_ := laid.1.size_pos
      have none_ := congrArg ByteArray.size bytes
      simp only [bytesOf, List.map_cons, joined, ByteArray.size_append, ByteArray.size_empty] at none_
      omega

/-- The copies of the parts of a file lie as those do. -/
theorem Filling.copyParts
    {tables : Tables}
    (filling : Filling base kept id True .empty tables)
    (numbered : base.Numbered)
    {source : Entry}
    (stored : base.Stored source)
    (minded : kept source.id) :
    base.Carries (· = id) kept (tables.copyParts id source.id) ∧
      LaidFrom 0 ((tables.copyParts id source.id).pieces id) ∧
        bytesOf ((tables.copyParts id source.id).pieces id) = bytesOf (base.pieces source.id) := by
  have parts : tables.partsOf source.id = base.pieces source.id := by
    have pieces := filling.kept.carries.kept source.id minded
    rw [partsOf_eq_pieces (pieces ▸ stored.laid), pieces]
  obtain ⟨carries, copies⟩ :=
    filling.kept.carries.addCopies numbered rfl filling.kept.minded filling.kept.fresh
      filling.kept.given
      (tables.partsOf source.id)
  rw [filling.pieces_eq_nil, List.map_nil, List.nil_append, parts] at copies
  rw [Tables.copyParts, parts]
  rw [parts] at carries
  refine ⟨carries, ?_, ?_⟩
  · rw [← laidFrom_map_bare_iff, copies, laidFrom_map_bare_iff]
    exact stored.laid
  · rw [← bytesOf_map_bare, copies, bytesOf_map_bare]

/-- A file that is stored, unless someone writes to it, is copied with its content. -/
theorem copyEntry_carries
    (numbered : base.Numbered)
    {source : Entry}
    (member : source ∈ base.entries)
    (stored : ¬setting.busy source.id → base.Stored source)
    (now : Int)
    (path : CleanPath)
    (time? : Option Int) :
    Carrying setting base (· = source.id) (copyEntry now path source time?) := by
  refine .locked (fun free => ?_) fun _ _ => trivial
  replace stored := stored free
  refine .bind
    (fun found tables =>
      base.Carries (fun _ => False) (· = source.id) tables ∧ tables.lookupAt? path = found)
    (.entryAt? fun _ carries => ⟨carries, rfl⟩) fun existing => ?_
  have copying :
      Works setting
        (fun tables =>
          base.Carries (fun _ => False) (· = source.id) tables ∧
            ∀ entry, tables.lookupAt? path = some entry → ¬entry.id = source.id)
        (do
          let directory ← clearForWrite now path
          let modified := time?.getD now
          let id ← Action.insert fun tables =>
            tables.createEntry directory path.name false modified
          update fun tables =>
            (tables.copyParts id source.id).recordContent id source.length modified source.checksum
          Action.require (.notFound path.text) (← query fun tables => tables.entry? id))
        (fun _ => base.Carries (fun _ => False) (· = source.id))
        fun _ _ => True := by
    refine .bind _ (clearForWrite_carries now path) fun directory => ?_
    refine .bind (fun id => Filling base (· = source.id) id True .empty)
      (.insert fun tables carries => filling_addEntry carries ?_ rfl) fun id => ?_
    · have given := numbered.entry_le source member
      have earlier := carries.lastEntryId_le
      omega
    refine .bind (fun _ => base.Carries (fun _ => False) (· = source.id))
      (.update fun tables filling => ?_) fun _ => Works.loosely (requireEntry?_keeps id _)
    obtain ⟨carries, laid, bytes⟩ := filling.copyParts numbered stored rfl
    refine carries.recordContent numbered filling.kept.fresh laid ?_ _ ?_
    · rw [bytes]
      exact stored.length
    · rw [bytes]
      exact stored.checksum
  cases existing with
  | some existing =>
      simp only [throw_bind]
      refine .ite (fun _ => .throw fun _ _ => trivial) fun other => copying.asking ?_
      rintro tables ⟨carries, found⟩
      exact ⟨carries, fun entry isFound => by cases found.symm.trans isFound; exact other⟩
  | none =>
      refine copying.asking ?_
      rintro tables ⟨carries, found⟩
      exact ⟨carries, fun entry isFound => nomatch found.symm.trans isFound⟩

/-- A file that has to be there is there. -/
theorem requireFile_finds
    {holds : Tables → Prop}
    (path : CleanPath) :
    Works setting holds (requireFile path)
      (fun entry tables => holds tables ∧ entry ∈ tables.entries) fun _ => holds := by
  refine .bind (fun entry tables => holds tables ∧ entry ∈ tables.entries) ?_ fun entry => ?_
  · refine .bind (fun found tables => holds tables ∧ tables.lookupAt? path = found)
      (.entryAt? fun _ before => ⟨before, rfl⟩) fun found => ?_
    refine .require ?_ fun _ _ before => before.1
    rintro entry rfl tables ⟨before, found⟩
    exact ⟨before, (mem_of_lookup? found).1⟩
  · simp only [throw_bind]
    exact .ite (fun _ => .throw fun _ before => before.1) fun _ => .pure fun _ before => before

section Filed

variable (filed : base.Filed setting.busy)

include filed

/-- What is there is copied with its content. -/
theorem carrying_copyEntry
    (now : Int)
    (path : CleanPath)
    (source : Entry)
    (time? : Option Int) :
    Works setting
      (fun tables => base.Carries (fun _ => False) (fun _ => False) tables ∧ source ∈ tables.entries)
      (copyEntry now path source time?)
      (fun _ => base.Carries (fun _ => False) fun _ => False)
      fun _ _ => True := by
  refine .named fun start ⟨first, member⟩ => ?_
  refine (copyEntry_carries first.toNumbered member ((first.filed filed).stored source member) now
    path time?).weaken ?_ (fun _ tables second => ?_) fun _ _ _ => trivial
  · rintro _ rfl
    exact .refl first.toNumbered
  · exact first.trans (second.minding fun _ absurd => absurd.elim)

theorem carrying_copy
    (now : Int)
    (target source : String)
    (time? : Option Int) :
    Carrying setting base (fun _ => False) (copy now target source time?) :=
  .bind _ (clean_keeps source).loosely fun origin =>
    .bind _ (requireFile_finds origin).loosely fun entry =>
      .bind _ (clean_keeps target).loosely fun path =>
        carrying_copyEntry filed now path entry time?

theorem carrying_restoreEach
    (now : Int)
    (target : CleanPath)
    (single : Bool)
    (infos : List TrashEntry) :
    Carrying setting base (fun _ => False) (restoreEach now target single infos) := by
  induction infos with
  | nil =>
      exact .pure fun _ carries => carries
  | cons info rest inductionHypothesis =>
      rw [restoreEach]
      refine .bind (fun _ => base.Carries (fun _ => False) fun _ => False) ?_ fun path => ?_
      · unfold restoreTarget
        refine .ite (fun _ => .pure fun _ carries => carries) fun _ => .ofExcept fun _ carries => ?_
        cases target.join info.entry.name with
        | ok path =>
            exact carries
        | error fault =>
            trivial
      have restored :
          Carrying setting base (fun _ => False) (restore now path info) := by
        refine .bind
          (fun found tables =>
            base.Carries (fun _ => False) (fun _ => False) tables ∧
              tables.trashed? info.entry.id = found)
          (.query fun _ carries => ⟨carries, rfl⟩) fun found => ?_
        refine .bind
          (fun version tables =>
            base.Carries (fun _ => False) (fun _ => False) tables ∧ version ∈ tables.entries)
          (.require ?_ fun _ _ _ => trivial) fun version =>
            carrying_copyEntry filed now path version _
        rintro version rfl tables ⟨carries, found⟩
        exact ⟨carries, List.mem_of_find?_eq_some found⟩
      have undone :
          Keeps setting (base.Carries (fun _ => False) fun _ => False)
            (transaction (restore now path info)) :=
        restored.transaction fun _ _ _ carries _ => carries
      refine .bind (fun _ => base.Carries (fun _ => False) fun _ => False)
        ((Works.attempt undone).promising fun outcome _ ended => ?_)
        fun outcome => .bind _ inductionHypothesis fun _ => .pure fun _ carries => carries
      cases outcome with
      | ok entry | error fault =>
          exact ended

theorem carrying_recover
    (now : Int)
    (target : String)
    (infos : List TrashEntry) :
    Carrying setting base (fun _ => False) (recover now target infos) :=
  .bind _ (clean_keeps target).loosely fun path => carrying_restoreEach filed now path _ infos

/-- A snapshot of a file has its content. -/
theorem carrying_snapshot
    (now : Int)
    (text : String)
    (source? : Option Source)
    (time? : Option Int) :
    Carrying setting base (fun _ => False) (snapshot now text source? time?) := by
  refine .bind _ (clean_keeps text).loosely fun path => ?_
  simp only [throw_bind]
  refine .ite (fun _ => .throw fun _ _ => trivial) fun _ => ?_
  cases source? with
  | some source =>
      have edits := endures_carries base fun _ => False
      refine .bind _ (snapshotDirectory_grows edits.grows now _).loosely fun directory => ?_
      refine .bind (fun id => Filling base (fun _ => False) id True .empty)
        (.insert fun tables carries => filling_addEntry carries id rfl) fun id => ?_
      refine .bind _ (storeContent_filling filed.toNumbered source) fun stored => .update ?_
      rintro tables ⟨written, filling, rfl⟩
      exact filling.recordContent filed.toNumbered _
  | none =>
      refine .bind _ (requireFile_finds path).loosely fun live =>
        .locked (fun free => ?_) fun _ _ => trivial
      refine .named fun start ⟨first, member⟩ => ?_
      have numbered := first.toNumbered
      have stored := (first.filed filed).stored live member free
      have edits := endures_carries start (· = live.id)
      have copying :
          Carrying setting start (· = live.id) (do
            let directory ← snapshotDirectory now path.dropLast.names.reverse
            let id ← Action.insert fun tables =>
              tables.createTrashed directory path.name false (time?.getD now) live.length now
                live.checksum
            update fun tables => tables.copyParts id live.id) := by
        refine .bind _ (snapshotDirectory_grows edits.grows now _).loosely fun directory => ?_
        refine .bind
          (fun id tables =>
            Filling start (· = live.id) id True .empty tables ∧
              ∀ entry ∈ tables.entries,
                entry.id = id →
                entry.length = live.length ∧ entry.checksum = live.checksum ∧
                  entry.isDirectory = false)
          (.insert fun tables carries => ?_) fun id => .update fun tables ⟨filling, row⟩ => ?_
        · have given := numbered.entry_le live member
          have earlier := carries.lastEntryId_le
          refine ⟨filling_addEntry carries (by omega) rfl, fun entry isEntry isId => ?_⟩
          rcases List.mem_append.mp isEntry with old | new
          · have known := carries.entry_le entry old
            change entry.id = tables.lastEntryId + 1 at isId
            omega
          · rw [List.mem_singleton.mp new]
            exact ⟨rfl, rfl, rfl⟩
        · obtain ⟨carries, laid, bytes⟩ := filling.copyParts numbered stored rfl
          refine carries.settled fun entry isEntry isId => ?_
          subst isId
          have isRow : entry ∈ tables.entries := by
            obtain ⟨parts, lastPartId, isCopy⟩ := addCopies_eq entry.id (tables.partsOf live.id) tables
            rwa [Tables.copyParts, isCopy] at isEntry
          obtain ⟨length, checksum, isFile⟩ := row entry isRow rfl
          refine ⟨laid, ?_, fun sum isSum => ?_, fun isDirectory => ?_⟩
          · rw [length, bytes]
            exact stored.length
          · rw [bytes]
            exact stored.checksum sum (checksum ▸ isSum)
          · exact (Bool.false_ne_true (isFile.symm.trans isDirectory)).elim
      refine copying.weaken ?_ (fun _ tables second => ?_) fun _ _ _ => trivial
      · rintro _ rfl
        exact .refl numbered
      · exact first.trans (second.minding fun _ absurd => absurd.elim)

end Filed

end VersionStore.Txn
