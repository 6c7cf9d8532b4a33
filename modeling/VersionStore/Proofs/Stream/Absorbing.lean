import VersionStore.Proofs.Stream.Writing

namespace VersionStore

/-!
# Writers that take everything in

What is known of a writer and its store together with the bytes that went through the writer stays
known along every write if it stays so when bytes are buffered and when a full buffer is stored.
All bytes are taken in then, however they were delivered, also those of a source that fails in the
end.
-/

open StreamAction

namespace Writer

/-- What is known of a writer, its store and the bytes so far goes on to be known while bytes are
written. The writer stays open, and a full buffer can be stored. -/
structure Absorbs (holds : ByteArray → Writer → Store → Prop) : Prop where
  steady :
    ∀ {written writer store},
      holds written writer store →
      store.Steady
  open_ :
    ∀ {written writer store},
      holds written writer store →
      writer.isClosed = false
  fits :
    ∀ {written writer store},
      holds written writer store →
      writer.buffer.size ≤ partSize
  watched :
    ∀ {written writer store} (watchdog : Option Watchdog),
      holds written writer store →
      holds written { writer with watchdog } store
  buffered :
    ∀ {written data writer store},
      holds written writer store →
      writer.buffer.size + data.size ≤ partSize →
      holds (written ++ data) (writer.buffered data) store
  emptied :
    ∀ {written writer store},
      holds written writer store →
      writer.buffer.size = partSize →
      ∃ left,
        (Action.streaming (storeBuffer writer)).runOn store = (.ok ⟨⟩, left) ∧
          holds written writer.emptied left

namespace Absorbs

variable
  {holds : ByteArray → Writer → Store → Prop}
  {written : ByteArray}
  (absorbs : Absorbs holds)

include absorbs

/-- After the buffer was stored if it was full, there is room in it. -/
theorem flushFull :
    Yields (holds written) Writer.flushFull fun _ writer store =>
      holds written writer store ∧ writer.buffer.size < partSize := by
  intro writer store before
  by_cases full : writer.buffer.size = partSize
  · obtain ⟨left, ran, after⟩ := absorbs.emptied before full
    refine ⟨⟨⟩, writer.emptied, left, ?_, after, partSize_pos⟩
    rw [runOn_flushFull (absorbs.steady before) full, ran]
  · exact ⟨⟨⟩, writer, store, runOn_flushFull_of_room full store, before,
      Nat.lt_of_le_of_ne (absorbs.fits before) full⟩

/-- Bytes are taken in behind those before. -/
theorem pour
    (data : ByteArray) :
    Yields (holds written) (Writer.pour data) fun _ => holds (written ++ data) := by
  induction size : data.size using Nat.strongRecOn generalizing data written with
  | _ count inductionHypothesis =>
      rw [Writer.pour]
      split
      · rename_i isEmpty
        have none_ : data = .empty := by
          simpa [ByteArray.isEmpty, ByteArray.size_eq_zero_iff] using isEmpty
        exact .pure fun _ _ before => by rwa [none_, ByteArray.append_empty]
      · rename_i notEmpty
        have more : 0 < data.size := by
          simpa [ByteArray.isEmpty, Nat.pos_iff_ne_zero] using notEmpty
        refine .bind _ absorbs.flushFull fun _ => .current fun seen => ?_
        refine .assuming (seen.buffer.size < partSize) ?_ fun room => ?_
        · rintro _ store ⟨⟨-, room⟩, rfl⟩
          exact room
        dsimp only
        split
        · rename_i fits
          refine .bind (fun _ => holds (written ++ data)) (.change ?_) fun _ =>
            absorbs.flushFull.weaken (fun _ _ before => before) fun _ _ _ after => after.1
          rintro _ store ⟨⟨before, -⟩, rfl⟩
          exact absorbs.buffered before (by omega)
        · rw [dif_pos (by omega)]
          refine .bind
            (fun _ => holds (written ++ data.extract 0 (partSize - seen.buffer.size)))
            (.change ?_) fun _ => ?_
          · rintro _ store ⟨⟨before, -⟩, rfl⟩
            refine absorbs.buffered before ?_
            rw [ByteArray.size_extract]
            omega
          refine .bind _
            (absorbs.flushFull.weaken (fun _ _ before => before) fun _ _ _ after => after.1)
            fun _ => ?_
          have rest := @inductionHypothesis _ ?_
            (written ++ data.extract 0 (partSize - seen.buffer.size))
            (data.extract (partSize - seen.buffer.size) data.size) rfl
          · rwa [ByteArray.append_assoc, ← ByteArray.extract_eq_extract_append_extract _
              (Nat.zero_le _) (by omega), ByteArray.extract_zero_size] at rest
          · rw [ByteArray.size_extract]
            omega

/-- A write takes all its bytes in. -/
theorem write
    (data : ByteArray) :
    Yields (holds written) (Writer.write data) fun count writer store =>
      count = data.size ∧ holds (written ++ data) writer store := by
  refine .bind (fun _ => holds written) (.change fun _ _ before => absorbs.watched _ before)
    fun _ => .current fun seen => ?_
  refine .assuming (seen.isClosed = false) ?_ fun open_ => ?_
  · rintro _ store ⟨before, rfl⟩
    exact absorbs.open_ before
  simp only [throw_bind, open_, Bool.false_eq_true, if_false]
  refine .bind _ ((absorbs.pour data).weaken (fun _ _ before => before.1) fun _ _ _ => id)
    fun _ => ?_
  refine .bind (fun _ => holds (written ++ data))
    (.change fun _ _ before => absorbs.watched _ before) fun _ => .pure fun _ _ after => ⟨rfl, after⟩

/-- What deliveries bring up to an empty one is taken in. -/
theorem writeEach
    (deliveries : List Delivery) :
    Yields (holds written) (Writer.writeEach deliveries) fun _ =>
      holds (written ++ Source.bytesOf deliveries) := by
  induction deliveries generalizing written with
  | nil =>
      exact .pure fun _ _ before => by rwa [Source.bytesOf, ByteArray.append_empty]
  | cons delivery rest inductionHypothesis =>
      cases delivery with
      | interrupted =>
          exact inductionHypothesis
      | bytes data =>
          rw [Writer.writeEach, Source.bytesOf]
          split
          · exact .pure fun _ _ before => by rwa [ByteArray.append_empty]
          · refine .bind _ (absorbs.write data) fun _ => ?_
            have more := @inductionHypothesis (written ++ data)
            rw [ByteArray.append_assoc] at more
            exact more.weaken (fun _ _ before => before.2) fun _ _ _ => id

/-- Everything that a source delivers is taken in, and only the source can fail. -/
theorem writeFrom
    {writer : Writer}
    {store : Store}
    (source : Source)
    (before : holds written writer store) :
    ∃ after left,
      (Writer.writeFrom source).runOn writer store =
        (match source.failure? with
          | some fault => .error (.io fault)
          | none => .ok (), after, left) ∧
        holds (written ++ source.bytes) after left := by
  obtain ⟨_, after, left, ran, holdsAfter⟩ :=
    absorbs.writeEach source.deliveries writer store before
  refine ⟨after, left, ?_, holdsAfter⟩
  rw [Writer.writeFrom, runOn_bind, ran]
  cases source.failure? <;> rfl

end Absorbs

end Writer

end VersionStore
