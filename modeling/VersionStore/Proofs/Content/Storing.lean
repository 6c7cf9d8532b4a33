import VersionStore.Proofs.Content.Enduring

namespace VersionStore.Txn

/-!
# Storing contents

What a source delivers is cut into parts as it arrives. However it was split, the parts
of the new file lie in a row, and length and checksum are those of the bytes that were
delivered. A copy has the parts of the file that it is a copy of.
-/

open Tables VersionStore.Action

/-- An action that carries contents over when it succeeds. -/
abbrev Carrying (setting : Setting) (base : Tables) (kept : Int → Prop) (action : Action α) : Prop :=
  Works setting (base.Carries (fun _ => False) kept) action
    (fun _ => base.Carries (fun _ => False) kept) fun _ _ => True

/-- What was carried over is so still after edits that write no contents. -/
theorem endures_carries
    (base : Tables)
    (kept : Int → Prop) :
    Endures (fun _ => True) (fun id => ¬kept id) (base.Carries (fun _ => False) kept) where
  touchable _ _ _ _ _ := trivial
  added _ _ length checksum carries :=
    carries.addEntry (fun absurd => absurd.elim) fun _ => ⟨length, checksum⟩
  modified _ id _ _ same carries := carries.modifyEntry id fun entry => (same entry).1
  trashed _ id _ _ _ carries := carries.modifyEntry id fun _ => ⟨rfl, rfl, rfl, rfl⟩
  elsewhere _ directories targets links carries := carries.elsewhere directories targets links
  removed _ id _ carries := carries.removeEntry id
  removedFile _ _ _ minded carries := carries.removeFile minded

/-- A file on the way to its content: the bytes that are stored already lie in a row, and as
long as more may follow, in full parts. Something else is kept meanwhile. -/
structure Filled (holds : Tables → Prop) (id : Int) (more : Prop) (written : ByteArray)
    (tables : Tables) : Prop where
  kept : holds tables
  laid : LaidFrom 0 (tables.pieces id)
  full : more → ∀ part ∈ tables.pieces id, part.data.size = partSize
  bytes : bytesOf (tables.pieces id) = written

/-- Bytes that were taken in, behind those that are stored. -/
structure Intake.Holds (written : ByteArray) (intake : Intake) : Prop where
  offset : intake.offset = written.size
  digest : intake.digest = Sha256.Digest.empty.update (written ++ intake.buffer)
  short : intake.buffer.size < partSize

/-- Bytes on their way into a file, some of which are stored. -/
def Taking (holds : Tables → Prop) (id : Int) (total : ByteArray) (intake : Intake)
    (tables : Tables) : Prop :=
  ∃ written,
    Filled holds id True written tables ∧ intake.Holds written ∧ written ++ intake.buffer = total

variable
  {setting : Setting}
  {base : Tables}
  {kept : Int → Prop}
  {id : Int}
  {more : Prop}
  {written : ByteArray}

section Content

variable
  {holds : Tables → Prop}
  (adds :
    ∀ tables place data,
      holds tables →
      holds (tables.addPart id place data).2)

include adds

/-- A part is stored behind full parts. -/
theorem Filled.addPart
    {tables : Tables}
    (filled : Filled holds id True written tables)
    {data : ByteArray}
    (some_ : 0 < data.size)
    (fits : data.size ≤ partSize)
    (full : more → data.size = partSize) :
    Filled holds id more (written ++ data) (tables.addPart id written.size data).2 := by
  have pieces :
      (tables.addPart id written.size data).2.pieces id =
        tables.pieces id ++
          [{ id := tables.lastPartId + 1, fileId := id, offset := written.size,
             length := data.size, data }] := by
    unfold Tables.addPart
    rw [Carries.pieces_concat, if_pos rfl]
  have allFull := filled.full trivial
  refine ⟨adds _ _ _ filled.kept, ?_, fun isMore => ?_, ?_⟩
  · rw [pieces, laidFrom_concat_iff]
    refine ⟨filled.laid, allFull, ?_, rfl, some_, fits⟩
    rw [filled.bytes]
    simp
  · rw [pieces]
    intro part member
    rcases List.mem_append.mp member with old | new
    · exact allFull part old
    · rw [List.mem_singleton.mp new]
      exact full isMore
  · rw [pieces, bytesOf_append, filled.bytes, bytesOf_singleton]

/-- Full parts are stored one behind the other. -/
theorem storeParts_fills
    {parts : List ByteArray}
    (full : ∀ data ∈ parts, data.size = partSize)
    {failed : Fault → Tables → Prop} :
    Works setting (Filled holds id True written)
      (storeParts id written.size parts)
      (fun place tables =>
        place = (written ++ joined parts).size ∧
          Filled holds id True (written ++ joined parts) tables)
      failed := by
  induction parts generalizing written with
  | nil =>
      refine .pure fun tables filled => ?_
      simpa [joined] using filled
  | cons data rest inductionHypothesis =>
      have isFull := full data (by simp)
      refine .bind (fun _ => Filled holds id True (written ++ data)) (.insert ?_) fun _ => ?_
      · intro tables filled
        refine filled.addPart adds ?_ (Nat.le_of_eq isFull) fun _ => isFull
        rw [isFull]
        exact partSize_pos
      · have stored := @inductionHypothesis (written ++ data)
          fun data member => full data (List.mem_cons_of_mem _ member)
        simpa [joined, ByteArray.append_assoc] using stored

/-- Bytes are taken in, and stored as far as they fill parts. -/
theorem take_fills
    (total : ByteArray)
    (intake : Intake)
    (data : ByteArray)
    {failed : Fault → Tables → Prop} :
    Works setting (Taking holds id total intake)
      (intake.take id data)
      (Taking holds id (total ++ data))
      failed := by
  refine .choosing fun written => ?_
  obtain ⟨offset, buffer, digest⟩ := intake
  obtain ⟨whole, full, short⟩ := cutEvery_spec partSize partSize_pos (buffer ++ data)
  rw [Intake.take]
  dsimp only
  rcases cut : takeParts (buffer ++ data) with ⟨parts, rest⟩
  rw [takeParts] at cut
  rw [cut] at whole full short
  refine .assuming (Intake.Holds written ⟨offset, buffer, digest⟩ ∧ written ++ buffer = total)
    (fun _ before => before.2) fun ⟨taken, isTotal⟩ => ?_
  have isOffset : offset = written.size := taken.offset
  have isDigest : digest = Sha256.Digest.empty.update (written ++ buffer) := taken.digest
  subst isOffset isTotal
  refine .bind _ ((storeParts_fills adds full).asking fun _ before => before.1)
    fun place => .pure fun tables after => ⟨_, after.2, ⟨after.1, ?_, short⟩, ?_⟩
  · dsimp only
    rw [ByteArray.append_assoc, whole, isDigest, ← ByteArray.append_assoc]
    exact (Sha256.Digest.update_append _ _ _).symm
  · dsimp only
    rw [ByteArray.append_assoc, whole, ByteArray.append_assoc]

/-- Deliveries are taken in one after the other, up to the end or the failure of their source. -/
theorem drain_fills
    (failure : Option IoFault)
    (deliveries : List Delivery)
    (total : ByteArray)
    (intake : Intake) :
    Works setting (Taking holds id total intake)
      (intake.drain id failure deliveries)
      (Taking holds id (total ++ Source.bytesOf deliveries))
      fun _ _ => (Source.mk deliveries failure).failure? ≠ none := by
  induction deliveries generalizing total intake with
  | nil =>
      cases failure with
      | some fault =>
          exact .throw fun _ _ => by simp [Source.failure?, Source.endsEarly]
      | none =>
          exact .pure fun _ taking => by simpa [Source.bytesOf] using taking
  | cons delivery rest inductionHypothesis =>
      cases delivery with
      | interrupted =>
          exact inductionHypothesis total intake
      | bytes data =>
          rw [Intake.drain, Source.bytesOf]
          refine .ite (fun isEmpty => ?_) fun some_ => ?_
          · rw [if_pos isEmpty, ByteArray.append_empty]
            exact .pure fun _ taking => taking
          · have ends : (Source.mk (.bytes data :: rest) failure).failure? =
                (Source.mk rest failure).failure? := by
              simp [Source.failure?, Source.endsEarly, some_]
            rw [if_neg some_, ends, ← ByteArray.append_assoc]
            exact .bind _ (take_fills adds total intake data) fun taken =>
              inductionHypothesis _ taken

/-- What a source delivers is stored, with its length and checksum, unless the source fails. -/
theorem storeContent_fills
    (source : Source) :
    Works setting (Filled holds id True .empty)
      (storeContent id source)
      (fun stored tables =>
        Filled holds id False source.bytes tables ∧
          stored = ((source.bytes.size : Int), Checksum.ofData source.bytes))
      fun _ _ => source.failure? ≠ none := by
  refine .bind (Taking holds id source.bytes)
    ((drain_fills adds source.failure source.deliveries .empty {}).weaken ?_ ?_ fun _ _ failed => failed)
    fun intake => .choosing fun written => ?_
  · intro tables filled
    exact ⟨_, filled, ⟨rfl, by simp, partSize_pos⟩, rfl⟩
  · intro intake tables taking
    rwa [ByteArray.empty_append] at taking
  refine .assuming (intake.Holds written ∧ written ++ intake.buffer = source.bytes)
    (fun _ before => before.2) fun ⟨taken, isTotal⟩ => ?_
  have digest : Checksum.finish intake.digest = Checksum.ofData source.bytes := by
    rw [taken.digest, isTotal]
    rfl
  refine .bind
    (fun length tables =>
      Filled holds id False source.bytes tables ∧ length = (source.bytes.size : Int))
    ?_ fun length => .pure ?_
  · rw [taken.offset, ← isTotal]
    split
    · rename_i isEmpty
      have none_ : intake.buffer = .empty := by
        simpa [ByteArray.isEmpty, ByteArray.size_eq_zero_iff] using isEmpty
      rw [none_, ByteArray.append_empty]
      exact .pure fun tables before => ⟨{ before.1 with full := fun absurd => absurd.elim }, rfl⟩
    · rename_i notEmpty
      have some_ : 0 < intake.buffer.size := by
        simpa [ByteArray.isEmpty, Nat.pos_iff_ne_zero] using notEmpty
      refine .bind (fun _ => Filled holds id False (written ++ intake.buffer)) (.insert ?_)
        fun _ => .pure fun tables filled => ⟨filled, by simp⟩
      exact fun tables before =>
        before.1.addPart adds some_ (Nat.le_of_lt taken.short) fun absurd => absurd.elim
  · rintro tables ⟨filled, rfl⟩
    exact ⟨filled, by rw [digest]⟩

end Content

/-! ## New files -/

/-- Contents are carried over while a new file gets its own. -/
structure Growing (base : Tables) (kept : Int → Prop) (id : Int) (tables : Tables) : Prop where
  carries : base.Carries (· = id) kept tables
  fresh : base.lastEntryId < id
  given : id ≤ tables.lastEntryId
  minded : ¬kept id

/-- A new file on the way to its content. -/
abbrev Filling (base : Tables) (kept : Int → Prop) (id : Int) (more : Prop)
    (written : ByteArray) (tables : Tables) : Prop :=
  Filled (Growing base kept id) id more written tables

/-- A part of the new file is no part of another. -/
theorem Growing.addPart
    (numbered : base.Numbered)
    (tables : Tables)
    (place : Int)
    (data : ByteArray)
    (growing : Growing base kept id tables) :
    Growing base kept id (tables.addPart id place data).2 :=
  ⟨growing.carries.addPart numbered rfl growing.minded growing.fresh growing.given _ rfl rfl,
    growing.fresh, growing.given, growing.minded⟩

/-- What a source delivers is stored as the content of a new file. -/
theorem storeContent_filling
    (numbered : base.Numbered)
    (source : Source) :
    Works setting (Filling base kept id True .empty)
      (storeContent id source)
      (fun stored tables =>
        ∃ written,
          Filling base kept id False written tables ∧
            stored = ((written.size : Int), Checksum.ofData written))
      fun _ _ => True :=
  ((storeContent_fills (Growing.addPart numbered) source).promising
    fun _ _ stored => ⟨_, stored⟩).loosely

/-! ## Whole files -/

/-- A new row begins without parts. -/
theorem filling_addEntry
    {tables : Tables}
    (carries : base.Carries (fun _ => False) kept tables)
    (minded : ¬kept (tables.lastEntryId + 1))
    {entry : Entry}
    (isFile : entry.isDirectory = false) :
    Filling base kept (tables.lastEntryId + 1) True .empty (tables.addEntry entry).2 := by
  have pieces : (tables.addEntry entry).2.pieces (tables.lastEntryId + 1) = [] := by
    apply carries.pieces_eq_nil
    omega
  have earlier := carries.lastEntryId_le
  refine ⟨⟨?_, by omega, Int.le_refl _, minded⟩, ?_, ?_, ?_⟩
  · exact carries.starting.addEntry (fun _ => isFile) fun other => (other rfl).elim
  · rw [pieces]
    trivial
  · rw [pieces]
    simp
  · rw [pieces]
    rfl

/-- The content of a file is recorded once it is there. -/
theorem Filling.recordContent
    {tables : Tables}
    (filling : Filling base kept id more written tables)
    (numbered : base.Numbered)
    (modified : Int) :
    base.Carries (fun _ => False) kept
      (tables.recordContent id written.size modified (some (Checksum.ofData written))) := by
  refine filling.kept.carries.recordContent numbered filling.kept.fresh filling.laid ?_ modified ?_
  · rw [filling.bytes]
  · rw [filling.bytes]
    simp

/-- Room is made at a path whose file, if there is one, is not minded. -/
theorem clearForWrite_carries
    (now : Int)
    (path : CleanPath) :
    Works setting
      (fun tables =>
        base.Carries (fun _ => False) kept tables ∧
          ∀ entry, tables.lookupAt? path = some entry → ¬kept entry.id)
      (clearForWrite now path)
      (fun _ => base.Carries (fun _ => False) kept)
      fun _ _ => True := by
  have makeRoom : Carrying setting base kept (makeDirectoriesAt now path.dropLast) :=
    Works.loosely (makeDirectoriesAt_grows (endures_carries base kept).grows now _)
  unfold clearForWrite
  simp only [throw_bind]
  refine .ite (fun _ => .throw fun _ _ => trivial) fun _ => ?_
  refine .bind
    (fun found tables =>
      base.Carries (fun _ => False) kept tables ∧ ∀ entry, found = some entry → ¬kept entry.id)
    (.entryAt? fun _ before => before) fun found => ?_
  cases found with
  | none =>
      exact makeRoom.asking fun _ before => before.1
  | some entry =>
      refine .ite (fun _ => .throw fun _ _ => trivial) fun _ => ?_
      refine .assuming (¬kept entry.id) (fun _ before => before.2 entry rfl) fun minded => ?_
      have deleted :
          Keeps setting (base.Carries (fun _ => False) kept) (deleteExisting now entry) :=
        deleteExisting_endures (endures_carries base kept).toEnduresRemoving now trivial
          fun _ => minded
      refine .bind _ (deleted.loosely.asking fun _ before => before.1) fun gone => ?_
      exact .ite (fun _ => .throw fun _ _ => trivial) fun _ => makeRoom

theorem carrying_writeFrom
    (numbered : base.Numbered)
    (now : Int)
    (text : String)
    (source : Source)
    (links? : Option (List String))
    (time? : Option Int) :
    Carrying setting base (fun _ => False) (writeFrom now text source links? time?) := by
  refine .bind _ (clean_keeps text).loosely fun path => ?_
  refine .bind _ ((clearForWrite_carries now path).asking fun _ carries => ⟨carries, fun _ _ => id⟩)
    fun directory => ?_
  refine .bind (fun id => Filling base (fun _ => False) id True .empty)
    (.insert fun tables carries => filling_addEntry carries id rfl) fun id => ?_
  refine .bind _ (storeContent_filling numbered source) fun stored => ?_
  refine .bind (fun _ => base.Carries (fun _ => False) fun _ => False) (.update ?_) fun _ => ?_
  · rintro tables ⟨written, filling, rfl⟩
    exact filling.recordContent numbered _
  cases links? with
  | some links =>
      exact .bind (fun _ => base.Carries (fun _ => False) fun _ => False)
        (.update fun _ => endures_setLinks (endures_carries base _) id links) fun _ =>
          Works.loosely (requireEntry?_keeps id _)
  | none =>
      exact Works.loosely (requireEntry?_keeps id _)

end VersionStore.Txn
