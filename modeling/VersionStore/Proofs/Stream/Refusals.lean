import VersionStore.Proofs.Stream.Feeding

namespace VersionStore

/-!
# Writes that fail

While its store is closed or in a scope, a writer cannot store its buffer. A write that fills the
buffer fails then. The bytes that there was room for stay in the buffer and count as written, the
others do not. So it is as if nothing had been written only if the buffer was full before, and a
write that is repeated as a whole writes what was taken in a second time. What counts as written is
the same where others have the database as well and a write fails for that.
-/

open Tables StreamAction

/-- A store does not let anyone in: it is closed, or a scope is open on it. -/
def Store.Barred (store : Store) : Prop :=
  store.savepoints ≠ [] ∨ store.closed = true

/-- A store that lets no one in refuses all that is asked for from outside, and stays as it is. -/
theorem Store.Barred.refuses
    {store : Store}
    (barred : store.Barred)
    (steady : store.Steady) :
    ∃ fault,
      ∀ action : Action Unit,
        (Action.streaming action).runOn store = (.error fault, store) := by
  by_cases entered : store.entered = true
  · refine ⟨.reentered, fun action => ?_⟩
    rw [Action.streaming, Action.reading, Action.runOn_bind, Action.runOn_enter steady.toAlone,
      if_pos entered]
  · have closed : store.closed = true :=
      barred.resolve_left (not_not_intro (steady.outside entered))
    refine ⟨.closed, fun action => ?_⟩
    rw [Action.streaming, Action.reading, Action.runOn_bind, Action.runOn_enter steady.toAlone,
      if_neg entered, if_pos closed]

namespace Writer

variable
  {writer left : Writer}
  {store after : Store}
  {data : ByteArray}
  {fault : Fault}

/-- How many bytes more go into the buffer. -/
def room (writer : Writer) : Nat :=
  partSize - writer.buffer.size

/-- A writer that was used just now. -/
def touched (writer : Writer) : Writer :=
  { writer with watchdog := writer.watchdog.map Watchdog.touch }

/-- Bytes fill the buffer, so that it has to be stored. -/
structure Fills (data : ByteArray) (writer : Writer) : Prop where
  some_ : 0 < data.size
  fits : writer.buffer.size ≤ partSize
  enough : partSize ≤ writer.buffer.size + data.size

/-- A use of a writer leaves its buffer as it is. -/
theorem Fills.touched
    (fills : writer.Fills data) :
    writer.touched.Fills data :=
  ⟨fills.some_, fills.fits, fills.enough⟩

/-- Nothing more in the buffer changes nothing. -/
theorem buffered_empty
    (writer : Writer) :
    writer.buffered .empty = writer := by
  rw [buffered, ByteArray.append_empty, Sha256.Digest.update_empty]

/-- A full buffer that cannot be stored stays as it is. -/
theorem flushFull_refused
    (steady : store.Steady)
    (full : writer.buffer.size = partSize)
    (refused : (Action.streaming (storeBuffer writer)).runOn store = (.error fault, store)) :
    flushFull.runOn writer store = (.error fault, writer, store) := by
  rw [runOn_flushFull steady full, refused]

/-- Bytes that fill a buffer that cannot be stored are taken in as far as there is room. -/
theorem pour_refused
    (steady : store.Steady)
    (refused :
      ∀ action : Action Unit, (Action.streaming action).runOn store = (.error fault, store))
    (fills : writer.Fills data) :
    (pour data).runOn writer store =
      (.error fault, writer.buffered (data.extract 0 writer.room), store) := by
  obtain ⟨some_, fits, enough⟩ := fills
  have notEmpty : ¬data.isEmpty = true := by
    simpa [ByteArray.isEmpty] using Nat.ne_of_gt some_
  rw [pour, if_neg notEmpty, runOn_bind]
  by_cases full : writer.buffer.size = partSize
  · have none_ : data.extract 0 writer.room = .empty := by
      rw [ByteArray.extract_eq_empty_iff, room]
      omega
    rw [flushFull_refused steady full (refused _), none_, buffered_empty]
  have filled : (writer.buffered (data.extract 0 writer.room)).buffer.size = partSize := by
    change (writer.buffer ++ data.extract 0 writer.room).size = partSize
    rw [ByteArray.size_append, ByteArray.size_extract, room]
    omega
  rw [runOn_flushFull_of_room full]
  dsimp only
  rw [runOn_bind, runOn_current]
  dsimp only
  split
  · rename_i all
    have whole : data.extract 0 writer.room = data := by
      rw [room, show partSize - writer.buffer.size = data.size by omega,
        ByteArray.extract_zero_size]
    rw [whole] at filled ⊢
    rw [runOn_bind, runOn_change]
    exact flushFull_refused steady filled (refused _)
  · rw [room] at filled ⊢
    rw [dif_pos (by omega), runOn_bind, runOn_change]
    dsimp only
    rw [runOn_bind, flushFull_refused steady filled (refused _)]

/-- Bytes that do not fill the buffer are taken in, whatever the store does. -/
theorem pour_of_room
    (notFilled : ¬writer.Fills data)
    (store : Store) :
    ((pour data).runOn writer store).1 = .ok ⟨⟩ := by
  rw [pour]
  split
  · rfl
  rename_i notEmpty
  have more : 0 < data.size := by
    simpa [ByteArray.isEmpty, Nat.pos_iff_ne_zero] using notEmpty
  have beside : partSize < writer.buffer.size ∨ writer.buffer.size + data.size < partSize := by
    by_contra neither
    exact notFilled ⟨more, by omega, by omega⟩
  rw [runOn_bind, runOn_flushFull_of_room (by omega)]
  dsimp only
  rw [runOn_bind, runOn_current]
  dsimp only
  split
  · have notFull : (writer.buffered data).buffer.size ≠ partSize := by
      change (writer.buffer ++ data).size ≠ partSize
      rw [ByteArray.size_append]
      omega
    rw [runOn_bind, runOn_change]
    exact congrArg Prod.fst (runOn_flushFull_of_room notFull store)
  · rw [dif_neg (by omega)]
    rfl

/-- A store that lets everyone in stores a full buffer. -/
theorem flushFull_idle :
    Yields (fun _ store => store.Idle) flushFull fun _ _ store => store.Idle := by
  intro writer store idle
  by_cases full : writer.buffer.size = partSize
  · obtain ⟨⟨⟩, left, ran, idleAfter, -⟩ :=
      (@storeBuffer_works writer (store.setting fun _ => False) (fun _ => True) (fun _ => True)
        (fun _ _ => False) fun _ _ => trivial).runs_streaming idle .idle trivial
    refine ⟨⟨⟩, writer.emptied, left, ?_, idleAfter⟩
    rw [runOn_flushFull idle.toSteady full, ran]
  · exact ⟨⟨⟩, writer, store, runOn_flushFull_of_room full store, idle⟩

/-- A store that lets everyone in takes in all bytes. -/
theorem pour_idle
    (data : ByteArray) :
    Yields (fun _ store => store.Idle) (pour data) fun _ _ store => store.Idle := by
  induction size : data.size using Nat.strongRecOn generalizing data with
  | _ count inductionHypothesis =>
      rw [pour]
      split
      · exact .pure fun _ _ => id
      rename_i notEmpty
      have more : 0 < data.size := by
        simpa [ByteArray.isEmpty, Nat.pos_iff_ne_zero] using notEmpty
      refine .bind _ flushFull_idle fun _ => .current fun seen => ?_
      dsimp only
      split
      · exact .bind _ (.change fun _ _ before => before.1) fun _ => flushFull_idle
      split
      · refine .bind (fun _ _ store => store.Idle) (.change fun _ _ before => before.1) fun _ =>
          .bind _ flushFull_idle fun _ => inductionHypothesis _ ?_ _ rfl
        rw [ByteArray.size_extract]
        omega
      · exact .pure fun _ _ before => before.1

/-- A write that is let in gives what taking the bytes in gives. -/
theorem runOn_write
    (open_ : writer.isClosed = false)
    (data : ByteArray)
    (store : Store) :
    (write data).runOn writer store =
      match (pour data).runOn writer.touched store with
      | (.ok _, left) => (.ok data.size, left.1.touched, left.2)
      | (.error fault, left) => (.error fault, left) := by
  have stillOpen : writer.touched.isClosed = false := open_
  rw [write, touch, runOn_bind, runOn_change]
  change ((do
    if (← current).isClosed then throw .closed
    pour data
    touch
    return data.size : StreamAction Writer Nat)).runOn writer.touched store = _
  rw [runOn_bind, runOn_current]
  dsimp only
  rw [stillOpen]
  simp only [throw_bind, Bool.false_eq_true, if_false]
  rw [runOn_bind]
  rcases (pour data).runOn writer.touched store with ⟨fault | ⟨⟩, left⟩
  · rfl
  · dsimp only
    rw [runOn_bind, touch, runOn_change]
    rfl

/-- A write of an open writer fails just when it fills the buffer and the store lets no one in. -/
theorem write_fails_iff
    (steady : store.Steady)
    (open_ : writer.isClosed = false) :
    (∃ fault, ((write data).runOn writer store).1 = .error fault) ↔
      store.Barred ∧ writer.Fills data := by
  rw [runOn_write open_]
  constructor
  · rintro ⟨fault, failed⟩
    have poured : ∃ fault, ((pour data).runOn writer.touched store).1 = .error fault := by
      rcases ran : (pour data).runOn writer.touched store with ⟨fault' | value, left⟩
      · exact ⟨fault', rfl⟩
      · rw [ran] at failed
        cases failed
    obtain ⟨fault', isFault⟩ := poured
    constructor
    · by_contra idle
      rw [Store.Barred, not_or, not_not, Bool.not_eq_true] at idle
      obtain ⟨value, left, after, ran, -⟩ := pour_idle data writer.touched store ⟨steady, idle.1, idle.2⟩
      rw [ran] at isFault
      cases isFault
    · by_contra notFilled
      have stillNot : ¬writer.touched.Fills data := fun fills =>
        notFilled ⟨fills.some_, fills.fits, fills.enough⟩
      have ran := pour_of_room stillNot store
      rw [isFault] at ran
      cases ran
  · rintro ⟨barred, fills⟩
    obtain ⟨fault, refused⟩ := barred.refuses steady
    refine ⟨fault, ?_⟩
    rw [pour_refused steady refused fills.touched]

/-- A write that fails leaves as many bytes in the buffer as there was room for. -/
theorem write_refused
    (steady : store.Steady)
    (open_ : writer.isClosed = false)
    (failed : ((write data).runOn writer store).1 = .error fault) :
    (write data).runOn writer store =
      (.error fault, writer.touched.buffered (data.extract 0 writer.room), store) := by
  obtain ⟨barred, fills⟩ := (write_fails_iff steady open_).mp ⟨fault, failed⟩
  obtain ⟨fault', refused⟩ := barred.refuses steady
  have ran := pour_refused steady refused fills.touched
  rw [runOn_write open_, ran] at failed ⊢
  cases failed
  rfl

/-- What a write that failed leaves of a writer. -/
structure Stops (data : ByteArray) (writer left : Writer) : Prop where
  open_ : left.isClosed = false
  buffer : left.buffer = writer.buffer ++ data.extract 0 writer.room
  digest : left.digest = writer.digest.update (data.extract 0 writer.room)
  taken : writer.room ≤ data.size
  full : left.buffer.size = partSize
  position : left.position = writer.position + writer.room
  unmoved : left.position = writer.position ↔ writer.buffer.size = partSize

/-- A write that fails changes nothing but the writer, and this only as far as there was room. -/
theorem stops_of_failed
    (steady : store.Steady)
    (open_ : writer.isClosed = false)
    (failed : ((write data).runOn writer store).1 = .error fault) :
    ∃ left,
      (write data).runOn writer store = (.error fault, left, store) ∧ writer.Stops data left := by
  obtain ⟨-, some_, fits, enough⟩ := (write_fails_iff steady open_).mp ⟨fault, failed⟩
  refine ⟨_, write_refused steady open_ failed, ?_⟩
  have taken : (data.extract 0 writer.room).size = writer.room := by
    rw [ByteArray.size_extract, room]
    omega
  have buffered :
      (writer.buffer ++ data.extract 0 writer.room).size = writer.buffer.size + writer.room := by
    rw [ByteArray.size_append, taken]
  have position :
      writer.offset + ((writer.buffer ++ data.extract 0 writer.room).size : Int) =
        writer.position + writer.room := by
    rw [buffered, Writer.position]
    omega
  refine ⟨open_, rfl, rfl, ?_, ?_, position, ?_⟩
  · rw [room]
    omega
  · refine buffered.trans ?_
    rw [room]
    omega
  · change writer.offset + ((writer.buffer ++ data.extract 0 writer.room).size : Int) = _ ↔ _
    rw [position, room]
    omega

/-! ## Stores that others use as well -/

/-- So many of some bytes went through a writer. -/
structure TakesIn (data : ByteArray) (writer : Writer) (taken : Nat) (left : Writer) : Prop where
  within : taken ≤ data.size
  position : left.position = writer.position + taken
  digest : left.digest = writer.digest.update (data.extract 0 taken)

/-- Storing a buffer, whether it succeeds or not, keeps what giving the buffer up keeps. -/
theorem keeps_flushFull_of
    {holds : Writer → Prop}
    (untailed : ∀ writer : Writer, holds writer → holds writer.untailed)
    (emptied : ∀ writer : Writer, holds writer → holds writer.emptied) :
    Keeps (fun writer _ => holds writer) flushFull := by
  refine .bind (fun _ _ => id) fun seen => ?_
  split
  · refine .bind (.onStore fun _ _ => id) fun _ => .bind (.onStore fun _ _ => id) fun _ =>
      .bind (.attempt (.bind (fun _ _ => id) fun part => ?_)) fun outcome =>
        .bind (.attempt (.onStore fun _ _ => id)) fun ended =>
          .bind (.onStore fun _ _ => id) fun _ => .bind (.ofExcept _) fun _ => .ofExcept _
    split
    · exact .pure _
    · exact .bind (.change fun writer _ => untailed writer) fun _ =>
        .bind (.onStore fun _ _ => id) fun _ => .change fun writer _ => emptied writer
  · exact .pure _

/-- Storing a buffer, whether it succeeds or not, leaves the place of a writer and the digest. -/
theorem keeps_flushFull
    (position : Int)
    (digest : Sha256.Digest) :
    Keeps (fun writer _ => writer.position = position ∧ writer.digest = digest) flushFull := by
  have emptied (writer : Writer) : writer.emptied.position = writer.position := by
    change writer.offset + (writer.buffer.size : Int) + ((0 : Nat) : Int) = _
    rw [Writer.position]
    omega
  exact keeps_flushFull_of (fun _ => id) fun writer before =>
    ⟨(emptied writer).trans before.1, before.2⟩

namespace TakesIn

variable {seen : Writer} {taken more : Nat}

/-- A writer as it is has taken in nothing. -/
theorem refl
    (writer : Writer)
    (data : ByteArray) :
    writer.TakesIn data 0 writer := by
  refine ⟨Nat.zero_le _, (Int.add_zero _).symm, ?_⟩
  rw [ByteArray.extract_same, Sha256.Digest.update_empty]

/-- Storing the buffer makes no difference. -/
theorem flushed
    (takes : writer.TakesIn data taken seen)
    (store : Store) :
    writer.TakesIn data taken (flushFull.runOn seen store).2.1 := by
  obtain ⟨position, digest⟩ := keeps_flushFull seen.position seen.digest seen store ⟨rfl, rfl⟩
  exact ⟨takes.within, position.trans takes.position, digest.trans takes.digest⟩

/-- The first bytes go into the buffer. -/
theorem buffered
    (takes : writer.TakesIn data 0 seen)
    (within : taken ≤ data.size) :
    writer.TakesIn data taken (seen.buffered (data.extract 0 taken)) := by
  have position : seen.position = writer.position := by
    rw [takes.position]
    exact Int.add_zero _
  have digest : seen.digest = writer.digest := by
    rw [takes.digest, ByteArray.extract_same, Sha256.Digest.update_empty]
  refine ⟨within, ?_, ?_⟩
  · change seen.offset + ((seen.buffer ++ data.extract 0 taken).size : Int) = _
    rw [ByteArray.size_append, ByteArray.size_extract, ← position, Writer.position]
    omega
  · change seen.digest.update _ = _
    rw [digest]

/-- More bytes follow. -/
theorem trans
    (first : writer.TakesIn data taken seen)
    (second : seen.TakesIn (data.extract taken data.size) more left) :
    writer.TakesIn data (taken + more) left := by
  have within := second.within
  have before := first.within
  rw [ByteArray.size_extract] at within
  refine ⟨by omega, ?_, ?_⟩
  · rw [second.position, first.position]
    omega
  · rw [second.digest, first.digest, ← Sha256.Digest.update_append, ByteArray.extract_extract,
      Nat.add_zero, ByteArray.extract_append_extract]
    congr 2
    omega

end TakesIn

/-- Whatever a store does, a writer takes in a first stretch of the bytes. If it fails before it
took any in, its buffer was full. -/
theorem pour_takes
    (data : ByteArray)
    (writer : Writer)
    (store : Store) :
    ∃ taken,
      writer.TakesIn data taken ((pour data).runOn writer store).2.1 ∧
        ∀ fault,
          ((pour data).runOn writer store).1 = .error fault →
          taken = 0 →
          writer.buffer.size = partSize := by
  induction size : data.size using Nat.strongRecOn generalizing data writer store with
  | _ count inductionHypothesis =>
      rw [pour]
      split
      · exact ⟨0, .refl writer data, fun _ absurd => by cases absurd⟩
      rename_i notEmpty
      have more : 0 < data.size := by
        simpa [ByteArray.isEmpty, Nat.pos_iff_ne_zero] using notEmpty
      have flushed := (TakesIn.refl writer data).flushed store
      rw [runOn_bind]
      rcases ran : flushFull.runOn writer store with ⟨fault | ⟨⟩, seen, after⟩
      · rw [ran] at flushed
        refine ⟨0, flushed, fun _ _ _ => ?_⟩
        by_contra notFull
        rw [runOn_flushFull_of_room notFull] at ran
        cases ran
      rw [ran] at flushed
      dsimp only at flushed ⊢
      rw [runOn_bind, runOn_current]
      dsimp only
      split
      · have whole := (flushed.buffered (Nat.le_refl _)).flushed after
        rw [ByteArray.extract_zero_size] at whole
        rw [runOn_bind, runOn_change]
        exact ⟨data.size, whole, fun _ _ none_ => by omega⟩
      split
      · generalize partSize - seen.buffer.size = room at *
        have first : writer.TakesIn data room _ := (flushed.buffered (by omega)).flushed after
        rw [runOn_bind, runOn_change]
        dsimp only
        rw [runOn_bind]
        rcases again : flushFull.runOn (seen.buffered (data.extract 0 room)) after with
          ⟨fault | ⟨⟩, left, last⟩
        · rw [again] at first
          exact ⟨room, first, fun _ _ none_ => by omega⟩
        · rw [again] at first
          obtain ⟨taken, rest, -⟩ :=
            inductionHypothesis (data.extract room data.size).size
              (by rw [ByteArray.size_extract]; omega) (data.extract room data.size) left last rfl
          exact ⟨room + taken, first.trans rest, fun _ _ none_ => by omega⟩
      · exact ⟨0, flushed, fun _ absurd => by cases absurd⟩

/-- Whatever a store does, the place of an open writer after a write that failed is behind those of
the bytes that the writer took in. It is where it was only if the buffer was full. -/
theorem write_takes
    (open_ : writer.isClosed = false)
    (store : Store)
    (failed : ((write data).runOn writer store).1 = .error fault) :
    ∃ taken,
      writer.TakesIn data taken ((write data).runOn writer store).2.1 ∧
        (taken = 0 → writer.buffer.size = partSize) := by
  obtain ⟨taken, takes, isFull⟩ := pour_takes data writer.touched store
  rw [runOn_write open_] at failed ⊢
  rcases ran : (pour data).runOn writer.touched store with ⟨fault' | ⟨⟩, left⟩
  · rw [ran] at takes isFull
    exact ⟨taken, ⟨takes.within, takes.position, takes.digest⟩, isFull fault' rfl⟩
  · rw [ran] at failed
    cases failed

end Writer

end VersionStore
