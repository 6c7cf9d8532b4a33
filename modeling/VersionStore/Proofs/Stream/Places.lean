import Mathlib.Algebra.Group.Int.Defs
import VersionStore.Proofs.Stream.Cursor

namespace VersionStore

/-!
# Places at the edge of sixty-four bits

A place comes to a reader as an unsigned number of sixty-four bits, is taken for a signed one and
is compared with the length. Seeks add signed numbers that may not fit. A seek goes where it would
go if numbers had no end. A read at a place does so as well below the half of the range, and above
it the place is taken for one in front of the file, where there is nothing to read.
-/

/-- What numbers a seek is given. -/
def SeekFrom.Fits : SeekFrom → Prop
  | .start offset => offset < 2 ^ 64
  | .stop delta | .current delta => -2 ^ 63 ≤ delta ∧ delta < 2 ^ 63

namespace Reader

open StreamAction

/-- A signed number of sixty-four bits. What does not fit comes in again from the other end. -/
def wrapped (value : Int) : Int :=
  value.bmod (2 ^ 64)

/-- The place that a seek leads to in signed numbers of sixty-four bits. -/
def wrappedTarget (cursor : Cursor) : SeekFrom → Int
  | .start offset => wrapped offset
  | .stop delta => wrapped (cursor.bytes.size + delta)
  | .current delta => wrapped (cursor.position + delta)

/-- What fits is not changed. -/
theorem wrapped_of_fits
    {value : Int}
    (above : -2 ^ 63 ≤ value)
    (below : value < 2 ^ 63) :
    wrapped value = value :=
  Int.bmod_eq_of_le_mul_two (by omega) (by omega)

/-- What is too large becomes negative. -/
theorem wrapped_of_large
    {value : Int}
    (above : 2 ^ 63 ≤ value)
    (below : value < 2 ^ 64) :
    wrapped value = value - 2 ^ 64 := by
  have shifted : wrapped value = wrapped (value - 2 ^ 64) := by
    rw [wrapped, wrapped, ← Int.sub_bmod_right value]
    rfl
  rw [shifted, wrapped_of_fits (by omega) (by omega)]

/-- An unsigned number is taken for a signed one by wrapping it. -/
theorem signed_eq_wrapped
    {value : Nat}
    (fits : value < 2 ^ 64) :
    signed value = wrapped value := by
  unfold signed
  split
  · rename_i small
    change value < 2 ^ 63 at small
    rw [wrapped_of_fits (by omega) (by omega)]
  · rename_i large
    change ¬value < 2 ^ 63 at large
    rw [wrapped_of_large (by omega) (by omega)]
    rfl

/-- A place in the lower half of the range is taken for itself. -/
theorem signed_of_small
    {value : Nat}
    (small : value < 2 ^ 63) :
    signed value = value := by
  rw [signed_eq_wrapped (by omega), wrapped_of_fits (by omega) (by omega)]

/-- A place in the upper half of the range is taken for one in front of the file. -/
theorem signed_of_large
    {value : Nat}
    (large : 2 ^ 63 ≤ value)
    (fits : value < 2 ^ 64) :
    signed value < 0 := by
  rw [signed_eq_wrapped fits, wrapped_of_large (by omega) (by omega)]
  omega

/-- What is added to a place of a file comes in again from the other end as a negative number, if
at all. -/
theorem wrapped_within_iff
    {value : Int}
    {length : Nat}
    (small : length < 2 ^ 63)
    (above : -2 ^ 63 ≤ value)
    (below : value < 2 ^ 64) :
    (0 ≤ wrapped value ∧ wrapped value ≤ length ↔ 0 ≤ value ∧ value ≤ length) ∧
      (0 ≤ value → value ≤ length → wrapped value = value) := by
  by_cases fits : value < 2 ^ 63
  · rw [wrapped_of_fits above fits]
    exact ⟨.rfl, fun _ _ => rfl⟩
  · rw [wrapped_of_large (by omega) below]
    omega

/-- The place that a seek leads to in numbers without an end is the one in signed numbers of
sixty-four bits wherever one of the two is within the file. -/
theorem wrappedTarget_within_iff
    {cursor : Cursor}
    (small : cursor.bytes.size < 2 ^ 63)
    (within : cursor.position ≤ cursor.bytes.size)
    {target : SeekFrom}
    (fits : target.Fits) :
    (0 ≤ wrappedTarget cursor target ∧ wrappedTarget cursor target ≤ cursor.bytes.size ↔
        0 ≤ cursor.target target ∧ cursor.target target ≤ cursor.bytes.size) ∧
      (0 ≤ cursor.target target →
        cursor.target target ≤ cursor.bytes.size →
        wrappedTarget cursor target = cursor.target target) := by
  cases target with
  | start offset =>
      unfold SeekFrom.Fits at fits
      exact wrapped_within_iff small (by omega) (by omega)
  | stop delta =>
      obtain ⟨above, below⟩ := fits
      exact wrapped_within_iff small (by omega) (by omega)
  | current delta =>
      obtain ⟨above, below⟩ := fits
      exact wrapped_within_iff small (by omega) (by omega)

/-! ## Readers in use -/

variable
  {file : Int}
  {parts : List Part}
  {reader : Reader}
  {store : Store}
  {place : Nat}

/-- A reader is over some parts, at a place within their bytes, on a store that has them, whatever is
under way there. It is open or not. -/
structure Over (file : Int) (parts : List Part) (reader : Reader) (store : Store) : Prop where
  extents : reader.extents = parts.map Part.extent
  length : reader.length = (bytesOf parts).size
  position : ∃ place ≤ (bytesOf parts).size, reader.position = (place : Nat)
  cached : ∀ content ∈ reader.cache.contents, ∃ part ∈ parts, part.content = content
  bears : store.Bears file parts

namespace Over

/-- A reader begins over the parts that the store has. -/
theorem of_opened
    (opened : OpenedOn store reader)
    (bears : store.Bears reader.entry.id parts)
    (contiguous : Contiguous 0 parts) :
    reader.Over reader.entry.id parts store := by
  obtain ⟨-, extents, length, position, cached⟩ := opened.begins bears contiguous
  exact ⟨extents, length, ⟨0, Nat.zero_le _, position⟩, by simp [cached], bears⟩

/-- An open reader over some parts is ready when nothing is under way on the store. -/
theorem ready
    (isOver : reader.Over file parts store)
    (open_ : reader.isClosed = false)
    (idle : store.Idle) :
    ∃ place ≤ (bytesOf parts).size, reader.Ready file parts place store := by
  obtain ⟨place, within, position⟩ := isOver.position
  exact ⟨place, within, open_, isOver.extents, isOver.length, position, isOver.cached,
    isOver.bears.offers idle⟩

/-- A use of a reader does not count against it. -/
theorem watched
    (isOver : reader.Over file parts store)
    (watchdog : Option Watchdog) :
    Over file parts { reader with watchdog } store :=
  ⟨isOver.extents, isOver.length, isOver.position, isOver.cached, isOver.bears⟩

/-- The cursor of a reader may be moved within the bytes. -/
theorem moved
    (isOver : reader.Over file parts store)
    {position : Int}
    (above : 0 ≤ position)
    (below : position ≤ (bytesOf parts).size) :
    Over file parts { reader with position } store :=
  ⟨isOver.extents, isOver.length,
    ⟨position.toNat, by omega, (Int.toNat_of_nonneg above).symm⟩, isOver.cached, isOver.bears⟩

/-- A reader may lose its lock. -/
theorem released
    (isOver : reader.Over file parts store)
    (guard : Guard) :
    Over file parts { reader with guard := none }
      { store with locks := store.locks.release guard } where
  extents := isOver.extents
  length := isOver.length
  position := isOver.position
  cached := isOver.cached
  bears :=
    ⟨isOver.bears.toSteady.withLocks (isOver.bears.sane.release guard), isOver.bears.parts,
      isOver.bears.keyed⟩

/-- A reader may find another store that has the parts. -/
theorem onto
    (isOver : reader.Over file parts store)
    {other : Store}
    (bears : other.Bears file parts) :
    reader.Over file parts other :=
  { isOver with bears }

end Over

/-! ## What one use leaves -/

/-- The extent that is found for a place is that of a part that does not begin behind it. -/
theorem exists_part_of_extentAt?
    (extents : reader.extents = parts.map Part.extent)
    {position : Int}
    {extent : Extent}
    (found : reader.extentAt? position = some extent) :
    ∃ part ∈ parts, part.extent = extent ∧ part.offset ≤ position := by
  obtain ⟨isExtent, contains⟩ := Option.filter_eq_some_iff.mp found
  have member : extent ∈ parts.map Part.extent := by
    rw [← extents]
    exact List.mem_of_getElem? isExtent
  obtain ⟨part, isPart, rfl⟩ := List.mem_map.mp member
  rw [Extent.contains, Bool.and_eq_true, decide_eq_true_eq, decide_eq_true_eq] at contains
  exact ⟨part, isPart, rfl, contains.1⟩

/-- A part lies within the bytes of all parts. -/
theorem offset_le_of_contiguous
    (contiguous : Contiguous 0 parts)
    {part : Part}
    (member : part ∈ parts) :
    0 ≤ part.offset ∧ part.offset + part.data.size ≤ (bytesOf parts).size := by
  obtain ⟨before, behind, rfl⟩ := List.append_of_mem member
  have offset := contiguous.place_eq.1
  rw [bytesOf_append, bytesOf_cons, ByteArray.size_append, ByteArray.size_append]
  omega

/-- No part holds a place in front of the file. -/
theorem Ready.extentAt?_of_neg
    (ready : reader.Ready file parts place store)
    (contiguous : Contiguous 0 parts)
    {position : Int}
    (negative : position < 0) :
    reader.extentAt? position = none := by
  by_contra some_
  obtain ⟨extent, found⟩ := Option.ne_none_iff_exists'.mp some_
  obtain ⟨part, member, -, above⟩ := exists_part_of_extentAt? ready.extents found
  have inFront := (offset_le_of_contiguous contiguous member).1
  omega

/-- There is nothing to read in front of the file. -/
theorem Ready.readFrom_of_neg
    (ready : reader.Ready file parts place store)
    (contiguous : Contiguous 0 parts)
    {position : Int}
    (negative : position < 0)
    (room : Nat) :
    (readFrom position room).runOn reader store = (.ok .empty, reader, store) := by
  rw [readFrom, runOn_bind, runOn_current]
  dsimp only
  rw [ready.open_, if_neg Bool.false_ne_true, gather, runOn_bind, runOn_current]
  dsimp only
  rw [ready.extentAt?_of_neg contiguous negative, ite_self]
  rfl

/-- A closed reader reads nothing. -/
theorem readFrom_closed
    (closed : reader.isClosed = true)
    (position : Int)
    (room : Nat) :
    (readFrom position room).runOn reader store = (.error .closed, reader, store) := by
  rw [readFrom, runOn_bind, runOn_current]
  dsimp only
  rw [closed, if_pos rfl]
  rfl

/-- A reader over some parts is left over them where it was, whether the action succeeds or not, and
what the action gives is as told. -/
def Tells (file : Int) (parts : List Part) (action : StreamAction Reader α) (told : α → Prop) :
    Prop :=
  ∀ reader store,
    Over file parts reader store →
    Over file parts (action.runOn reader store).2.1 (action.runOn reader store).2.2 ∧
      (action.runOn reader store).2.1.position = reader.position ∧
        ∀ value, (action.runOn reader store).1 = .ok value → told value

/-- Whatever is under way on the store, a part that is given has its own bytes. -/
theorem contentOf_tells
    {part : Part}
    (member : part ∈ parts) :
    Tells file parts (contentOf part.id) (· = part.content) := by
  intro reader store isOver
  have isStored := isOver.bears.content?_eq member
  rw [contentOf, runOn_bind, runOn_current]
  dsimp only
  cases found : reader.cache.find? part.id with
  | some content =>
      rw [PartCache.get_of_cached found]
      have isCached := List.mem_of_find?_eq_some found
      obtain ⟨other, isPart, rfl⟩ := isOver.cached content isCached
      have sameId : other.content.id = part.id := by
        simpa using List.find?_some found
      refine ⟨{ isOver with cached := fun another isAnother => ?_ }, rfl, ?_⟩
      · rcases PartCache.mem_promote isAnother with rfl | kept
        · exact ⟨other, isPart, rfl⟩
        · exact isOver.cached another kept
      · rintro _ ⟨⟩
        have isOther := isOver.bears.content?_eq isPart
        rw [show other.id = part.id from sameId] at isOther
        exact Option.some.inj (isOther.symm.trans isStored)
  | none =>
      obtain ⟨stays, same, -⟩ :=
        stays_load isOver.bears.toSteady (.refl reader store) reader.entry.name part.id
      have bears := isOver.bears.connected stays.connected
      have isContent := @content?_of_load reader.entry.name part.id reader store
      rw [PartCache.get_of_missing found, runOn_bind, runOn_bind]
      rcases ran : (load reader.entry.name part.id).runOn reader store with ⟨fault | content, left, after⟩
      · rw [ran] at same bears
        dsimp only at same bears ⊢
        subst same
        exact ⟨isOver.onto bears, rfl, fun _ isValue => by cases isValue⟩
      · rw [ran] at same bears isContent
        dsimp only at same bears isContent ⊢
        subst same
        obtain rfl : content = part.content :=
          Option.some.inj ((isContent rfl).symm.trans isStored)
        refine ⟨{ isOver.onto bears with cached := fun another isAnother => ?_ }, rfl, ?_⟩
        · rcases PartCache.mem_admitted isAnother with rfl | kept
          · exact ⟨part, member, rfl⟩
          · exact isOver.cached another kept
        · rintro _ ⟨⟩
          rfl

section Uses

variable (contiguous : Contiguous 0 parts)

include contiguous

/-- No more bytes are gathered than there are behind a place. -/
theorem gather_tells
    (position : Int)
    (room : Nat)
    (gathered : ByteArray) :
    Tells file parts (gather position room gathered) fun data =>
      data.size ≤ gathered.size + ((bytesOf parts).size - position).toNat := by
  induction room using Nat.strongRecOn generalizing position gathered with
  | _ room inductionHypothesis =>
      intro reader store isOver
      have nothing (value : ByteArray) (same : (.ok gathered : Except Fault ByteArray) = .ok value) :
          value.size ≤ gathered.size + ((bytesOf parts).size - position).toNat := by
        cases same
        omega
      rw [gather, runOn_bind, runOn_current]
      dsimp only
      cases found : (if position < reader.length then reader.extentAt? position else none) with
      | none =>
          exact ⟨isOver, rfl, nothing⟩
      | some extent =>
          dsimp only
          by_cases full : room = 0
          · rw [if_pos full]
            exact ⟨isOver, rfl, nothing⟩
          rw [if_neg full]
          have isExtent : reader.extentAt? position = some extent := by
            split at found
            · exact found
            · cases found
          obtain ⟨part, member, rfl, above⟩ := exists_part_of_extentAt? isOver.extents isExtent
          have ends := (offset_le_of_contiguous contiguous member).2
          have tells : Tells file parts (contentOf part.extent.id) (· = part.content) :=
            contentOf_tells member
          obtain ⟨left, stays, told⟩ := tells reader store isOver
          rw [runOn_bind]
          rcases ran : (contentOf part.extent.id).runOn reader store with
            ⟨fault | content, used, after⟩
          · rw [ran] at left stays
            exact ⟨left, stays, fun _ isValue => by cases isValue⟩
          · rw [ran] at left stays told
            dsimp only at left stays ⊢
            obtain rfl := told content rfl
            have offset : part.content.offset = part.offset := rfl
            have size : part.content.size = part.data.size := rfl
            have whole : part.content.data.size = part.data.size := rfl
            generalize counted :
              min (part.content.size - (position - part.content.offset).toNat) room = count
            split
            · rename_i more
              obtain ⟨further, staysToo, gets⟩ :=
                inductionHypothesis (room - count) (by omega) (position + count) _ used after left
              refine ⟨further, staysToo.trans stays, fun value isValue => ?_⟩
              have fits := gets value isValue
              rw [ByteArray.size_append, ByteArray.size_extract] at fits
              omega
            · exact ⟨left, stays, nothing⟩

/-- No more bytes are read than there are behind a place. -/
theorem readFrom_tells
    (position : Int)
    (room : Nat) :
    Tells file parts (readFrom position room) fun data =>
      data.size ≤ ((bytesOf parts).size - position).toNat := by
  intro reader store isOver
  cases closed : reader.isClosed with
  | true =>
      rw [readFrom_closed closed]
      exact ⟨isOver, rfl, nofun⟩
  | false =>
      rw [readFrom, runOn_bind, runOn_current]
      dsimp only
      rw [closed, if_neg Bool.false_ne_true]
      simpa using gather_tells contiguous position room .empty reader store isOver

/-- Reading at the cursor leaves a reader over its parts. -/
theorem keeps_read
    (room : Nat) :
    Keeps (Over file parts) (read room) := by
  refine .bind (.change fun _ _ isOver => isOver.watched _) fun _ =>
    .current fun reader store isOver => ?_
  obtain ⟨place, within, position⟩ := isOver.position
  obtain ⟨left, stays, told⟩ := readFrom_tells contiguous reader.position room reader store isOver
  rw [runOn_bind]
  rcases ran : (readFrom reader.position room).runOn reader store with ⟨fault | data, used, after⟩
  · rw [ran] at left
    exact left
  · rw [ran] at left stays told
    have fits := told data rfl
    dsimp only at left stays ⊢
    refine left.moved ?_ ?_ <;> omega

/-- Reading at a place leaves a reader over its parts. -/
theorem keeps_readAt
    (position room : Nat) :
    Keeps (Over file parts) (readAt position room) := by
  refine .bind (.change fun _ _ isOver => isOver.watched _) fun _ =>
    .current fun reader store isOver => ?_
  simp only [throw_bind]
  split
  · exact isOver
  · exact (readFrom_tells contiguous _ room reader store isOver).1

/-- Reading until there is enough leaves a reader over its parts. -/
theorem keeps_readUntil
    (fuel room : Nat)
    (gathered : ByteArray) :
    Keeps (Over file parts) (readUntil fuel room gathered) := by
  induction fuel generalizing room gathered with
  | zero =>
      exact .pure _
  | succ fuel inductionHypothesis =>
      rw [readUntil]
      split
      · exact .pure _
      · refine .bind (keeps_read contiguous _) fun data => ?_
        split
        · exact .pure _
        · exact inductionHypothesis _ _

/-- Reading ever more leaves a reader over its parts. -/
theorem keeps_readDoubling
    (fuel room : Nat)
    (gathered : ByteArray) :
    Keeps (Over file parts) (readDoubling fuel room gathered) := by
  induction fuel generalizing room gathered with
  | zero =>
      exact .pure _
  | succ fuel inductionHypothesis =>
      refine .bind (keeps_read contiguous _) fun data => ?_
      split
      · exact .pure _
      · exact inductionHypothesis _ _

/-- Delivering what is left of a file leaves a reader over its parts. -/
theorem keeps_deliver
    (fuel : Nat) :
    Keeps (Over file parts) (deliver fuel) := by
  induction fuel with
  | zero =>
      exact .pure _
  | succ fuel inductionHypothesis =>
      refine .bind (.attempt (keeps_read contiguous _)) fun outcome => ?_
      cases outcome with
      | error fault =>
          exact .pure _
      | ok data =>
          dsimp only
          split
          · exact .pure _
          · exact .bind inductionHypothesis fun _ => .pure _

omit contiguous in
/-- Moving the cursor leaves a reader over its parts. -/
theorem keeps_seek
    (target : SeekFrom) :
    Keeps (Over file parts) (seek target) := by
  refine .bind (.change fun _ _ isOver => isOver.watched _) fun _ =>
    .current fun reader store isOver => ?_
  simp only [throw_bind]
  split
  · exact isOver
  have moved (place : Int) :
      Over file parts
        ((if (place < 0 || place > reader.length) = true then throw .endOfStream
          else (do
            StreamAction.change fun reader => { reader with position := place }
            return place.toNat : StreamAction Reader Nat)).runOn reader store).2.1
        ((if (place < 0 || place > reader.length) = true then throw .endOfStream
          else (do
            StreamAction.change fun reader => { reader with position := place }
            return place.toNat : StreamAction Reader Nat)).runOn reader store).2.2 := by
    split
    · exact isOver
    · rename_i inside
      simp only [Bool.or_eq_true, decide_eq_true_eq, not_or, isOver.length] at inside
      exact isOver.moved (by omega) (by omega)
  cases target <;> exact moved _

omit contiguous in
/-- A reader that is closed is still over its parts. -/
theorem keeps_close :
    Keeps (Over file parts) close := by
  refine .current fun reader store isOver => ?_
  cases reader.guard with
  | none =>
      exact isOver
  | some guard =>
      exact isOver.released guard

/-- Every use of a reader leaves it over its parts. -/
theorem keeps_run
    (use : ReaderUse) :
    Keeps (Over file parts) use.run := by
  cases use with
  | read room =>
      exact .bind (keeps_read contiguous room) fun _ => .pure _
  | readAt position room =>
      exact .bind (keeps_readAt contiguous position room) fun _ => .pure _
  | readExact count =>
      refine .bind (.bind (keeps_readUntil contiguous _ _ _) fun data => ?_) fun _ => .pure _
      simp only [throw_bind]
      split
      · exact .throw _
      · exact .pure _
  | readAll =>
      refine .bind (.bind (fun _ _ => id) fun reader =>
        .bind (.attempt (keeps_readDoubling contiguous _ _ _)) fun outcome => ?_) fun _ => .pure _
      cases outcome with
      | ok data =>
          exact .pure _
      | error fault =>
          exact .throw _
  | toSource =>
      exact .bind (.bind (fun _ _ => id) fun _ =>
        .bind (keeps_deliver contiguous _) fun _ => .pure _) fun _ => .pure _
  | seek target =>
      exact .bind (keeps_seek target) fun _ => .pure _
  | finish =>
      exact .bind (.change fun _ _ isOver => isOver.watched _) fun _ => keeps_close
  | elapse milliseconds =>
      refine .bind (.change fun _ _ isOver => isOver.watched _) fun _ =>
        .bind (fun _ _ => id) fun _ => ?_
      split
      · exact keeps_close
      · exact .pure _

end Uses

/-- A use of a reader, and the store and the watchdog that it finds. -/
structure Occasion where
  store : Store
  watchdog : Option Watchdog := none
  use : ReaderUse

/-- A reader after one use and the other. -/
def used (reader : Reader) : List Occasion → Reader
  | [] => reader
  | occasion :: rest =>
      used (occasion.use.run.runOn { reader with watchdog := occasion.watchdog } occasion.store).2.1
        rest

/-- However a reader is used, it stays over its parts as long as the stores that it finds have
them. -/
theorem Over.used
    (isOver : reader.Over file parts store)
    (contiguous : Contiguous 0 parts)
    {occasions : List Occasion}
    (unchanged : ∀ occasion ∈ occasions, occasion.store.Bears file parts)
    (bears : store.Bears file parts) :
    (reader.used occasions).Over file parts store := by
  induction occasions generalizing reader with
  | nil =>
      exact isOver
  | cons occasion rest inductionHypothesis =>
      have found := (isOver.watched occasion.watchdog).onto (unchanged occasion (by simp))
      have left := keeps_run contiguous occasion.use _ _ found
      exact inductionHypothesis (left.onto bears) fun later member =>
        unchanged later (List.mem_cons_of_mem _ member)

/-! ## Every place -/

/-- What a reader over some bytes does at every place of sixty-four bits. -/
structure Places (bytes : ByteArray) (place : Nat) (reader : Reader) (store : Store) : Prop where
  position : reader.position = place
  within : place ≤ bytes.size
  /-- Behind the end a read ends, whether the reader is open or not. -/
  behind :
    ∀ position room,
      bytes.size < position →
      position < 2 ^ 63 →
      ((readAt position room).runOn reader store).1 = .error .endOfStream
  closed :
    reader.isClosed = true →
    ∀ position room,
      position ≤ bytes.size ∨ 2 ^ 63 ≤ position ∧ position < 2 ^ 64 →
      ((readAt position room).runOn reader store).1 = .error .closed
  reads :
    reader.isClosed = false →
    ∀ position room,
      position ≤ bytes.size →
      ∃ data,
        ((readAt position room).runOn reader store).1 = .ok data ∧
          data = bytes.extract position (position + room) ∧
            data.size = min room (bytes.size - position)
  /-- In the upper half of the range there is nothing to read, and no end. -/
  far :
    reader.isClosed = false →
    ∀ position room,
      2 ^ 63 ≤ position →
      position < 2 ^ 64 →
      ((readAt position room).runOn reader store).1 = .ok .empty
  moves :
    reader.isClosed = false →
    ∀ target,
      0 ≤ (Cursor.mk bytes place).target target →
      (Cursor.mk bytes place).target target ≤ bytes.size →
      ∃ left,
        (seek target).runOn reader store =
            (.ok ((Cursor.mk bytes place).target target).toNat, left, store) ∧
          left.position = (Cursor.mk bytes place).target target
  refuses :
    reader.isClosed = false →
    ∀ target,
      ¬(0 ≤ (Cursor.mk bytes place).target target ∧
          (Cursor.mk bytes place).target target ≤ bytes.size) →
      ∃ left,
        (seek target).runOn reader store = (.error .endOfStream, left, store) ∧
          left.position = place
  /-- Signed numbers of sixty-four bits lead a seek to the same place. -/
  unwrapped :
    ∀ target : SeekFrom,
      target.Fits →
      (0 ≤ wrappedTarget ⟨bytes, place⟩ target ∧ wrappedTarget ⟨bytes, place⟩ target ≤ bytes.size ↔
          0 ≤ (Cursor.mk bytes place).target target ∧
            (Cursor.mk bytes place).target target ≤ bytes.size) ∧
        (0 ≤ (Cursor.mk bytes place).target target →
          (Cursor.mk bytes place).target target ≤ bytes.size →
          wrappedTarget ⟨bytes, place⟩ target = (Cursor.mk bytes place).target target)

/-- A read at a place compares the place with the length, and only then looks whether the reader is
open. -/
theorem runOn_readAt
    (reader : Reader)
    (store : Store)
    (position room : Nat) :
    ((readAt position room).runOn reader store).1 =
      if signed position > reader.length then .error .endOfStream
      else
        ((readFrom (signed position) room).runOn
          { reader with watchdog := reader.watchdog.map Watchdog.touch } store).1 := by
  rw [readAt, touch, runOn_bind, runOn_change]
  dsimp only
  rw [runOn_bind, runOn_current]
  dsimp only
  split <;> rfl

/-- A reader over some parts does at every place what its bytes say. -/
theorem Over.places
    (isOver : reader.Over file parts store)
    (idle : store.Idle)
    (contiguous : Contiguous 0 parts)
    (small : (bytesOf parts).size < 2 ^ 63) :
    ∃ place, reader.Places (bytesOf parts) place store := by
  obtain ⟨place, within, position⟩ := isOver.position
  have length : reader.length = (bytesOf parts).size := isOver.length
  have ready (open_ : reader.isClosed = false) : reader.Ready file parts place store :=
    ⟨open_, isOver.extents, length, position, isOver.cached, isOver.bears.offers idle⟩
  refine ⟨place, position, within, fun position room beyond fits => ?_,
    fun closed position room near => ?_, fun open_ position room near => ?_,
    fun open_ position room far fits => ?_, fun open_ target above below => ?_,
    fun open_ target outside => ?_, fun target fits => wrappedTarget_within_iff small within fits⟩
  · rw [runOn_readAt, signed_of_small fits, length, if_pos (by omega)]
  · have notBehind : ¬signed position > reader.length := by
      rcases near with inside | ⟨far, fits⟩
      · rw [signed_of_small (by omega), length]
        omega
      · have negative := signed_of_large far fits
        omega
    rw [runOn_readAt, if_neg notBehind]
    exact congrArg Prod.fst
      (@readFrom_closed { reader with watchdog := reader.watchdog.map Watchdog.touch } store closed
        _ _)
  · have fits : position < Nat.pow 2 63 := Nat.lt_of_le_of_lt near small
    obtain ⟨data, _, _, ran, isData, -⟩ :=
      readAt_yields contiguous fits near room reader store (ready open_)
    refine ⟨data, congrArg Prod.fst ran, isData, ?_⟩
    rw [isData, ByteArray.size_extract]
    omega
  · have negative := signed_of_large far fits
    rw [runOn_readAt, if_neg (by omega)]
    exact congrArg Prod.fst
      (((ready open_).watched _).readFrom_of_neg contiguous negative room)
  · obtain ⟨goal, isGoal⟩ := Int.eq_ofNat_of_zero_le above
    obtain ⟨left, ran, readyAfter⟩ := seek_moves (ready open_) isGoal (by omega)
    rw [isGoal, Int.toNat_natCast]
    exact ⟨left, ran, readyAfter.position⟩
  · obtain ⟨left, ran, readyAfter⟩ := seek_refused (ready open_) outside
    exact ⟨left, ran, readyAfter.position⟩

/-- A reader that is opened on a file whose parts lie one behind the other, and that has been used
in whatever way since, open or closed by now, does at every place what the bytes of the file
say. Only in the upper half of the range of places is there no end of the file for it, and behind
the end it does not notice that it is closed. -/
theorem places_of_opened
    {occasions : List Occasion}
    {now : Store}
    (opened : OpenedOn store reader)
    (offers : store.Offers reader.entry.id parts)
    (contiguous : Contiguous 0 parts)
    (small : (bytesOf parts).size < 2 ^ 63)
    (unchanged : ∀ occasion ∈ occasions, occasion.store.Offers reader.entry.id parts)
    (nowOffers : now.Offers reader.entry.id parts) :
    ∃ place, (reader.used occasions).Places (bytesOf parts) place now := by
  have begun := Over.of_opened opened offers.bears contiguous
  have left :=
    begun.used contiguous (fun occasion member => (unchanged occasion member).bears) offers.bears
  exact (left.onto nowOffers.bears).places nowOffers.toIdle contiguous small

/-- A reader that has read two of three bytes has nothing to read in the upper half of the range
of places, where a place behind the end is its end. Once closed, it still sees the end first. -/
theorem places_three_bytes :
    let seeded := Tables.seed ["home"] 0
    let filed := (seeded.createEntry 2 "f" false 0).2
    let tables := (filed.addPart 3 0 ⟨#[1, 2, 3]⟩).2
    let store := Session.opened {} false tables
    ∃ reader : Reader,
      OpenedOn store reader ∧
        (reader.used [⟨store, none, .read 2⟩]).Places ⟨#[1, 2, 3]⟩ 2 store ∧
        ((readAt (2 ^ 63) 1).runOn (reader.used [⟨store, none, .read 2⟩]) store).1 =
          .ok .empty ∧
        ((readAt 4 1).runOn (reader.used [⟨store, none, .read 2⟩, ⟨store, none, .finish⟩]) store).1 =
          .error .endOfStream := by
  intro seeded filed tables store
  let parts : List Part := [⟨1, 3, 0, 3, ⟨#[1, 2, 3]⟩⟩]
  have isParts : store.tables.partsOf 3 = parts := by
    have pieces : store.tables.pieces 3 = parts := by decide
    rw [Tables.partsOf, show store.tables.parts.filter (·.fileId == 3) = parts from pieces]
    exact List.mergeSort_singleton _
  have offers : store.Offers 3 parts :=
    ⟨⟨Session.Sound.steady_opened _ _ _, rfl, rfl⟩, isParts, by decide⟩
  have contiguous : Contiguous 0 parts := ⟨rfl, rfl, trivial⟩
  have isOpened :
      ((openPath "home/f").runOn store).1.toOption.map
          (fun reader =>
            (reader.entry.id, (reader.used [⟨store, none, .read 2⟩]).position,
              (reader.used [⟨store, none, .read 2⟩]).isClosed)) =
        some (3, 2, false) := by
    decide +kernel
  obtain ⟨reader, isSome, isReader⟩ := Option.map_eq_some_iff.mp isOpened
  obtain ⟨isFile, isPlace, isOpen⟩ := by simpa only [Prod.mk.injEq] using isReader
  have opened : OpenedOn store reader := .inl ⟨"home/f", eq_ok_of_toOption isSome⟩
  rw [← isFile] at offers
  obtain ⟨place, reading⟩ :=
    @places_of_opened parts reader store [⟨store, none, .read 2⟩] store opened offers contiguous
      (by decide) (by simpa using offers) offers
  obtain ⟨_, closed⟩ :=
    @places_of_opened parts reader store [⟨store, none, .read 2⟩, ⟨store, none, .finish⟩] store
      opened offers contiguous (by decide) (by simpa using offers) offers
  have atTwo : place = 2 := Int.ofNat_inj.mp (reading.position.symm.trans isPlace)
  rw [atTwo] at reading
  exact ⟨reader, opened, reading, reading.far isOpen _ 1 (Nat.le_refl _) (by decide),
    closed.behind 4 1 (by decide) (by decide)⟩

end Reader

end VersionStore
