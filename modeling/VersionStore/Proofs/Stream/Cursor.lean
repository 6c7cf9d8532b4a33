import VersionStore.Proofs.Content.Contiguous
import VersionStore.Proofs.Session.Tree

namespace VersionStore

/-!
# Readers as cursors

A reader over parts that lie one behind the other answers as a cursor over their bytes does.
Neither how the bytes are cut into parts nor
which of the parts are cached makes a difference, nor what becomes of the rest of the store
between two uses. Copying the file out hands the same bytes on.
-/

/-! ## Cursors -/

/-- A place in some bytes. -/
structure Cursor where
  bytes : ByteArray
  position : Nat := 0

namespace Reader

/-- What a reader is asked for. -/
inductive Request where
  | read (room : Nat)
  | readAll
  | readAt (place room : Nat)
  | seek (target : SeekFrom)

/-- What a reader gives when it does not fail. -/
inductive Answer where
  | bytes (data : ByteArray)
  | place (place : Nat)
  deriving DecidableEq

/-- Ask a reader. -/
def Request.run : Request → StreamAction Reader Answer
  | read room => do return .bytes (← Reader.read room)
  | readAll => do return .bytes (← Reader.readAll)
  | readAt place room => do return .bytes (← Reader.readAt place room)
  | seek target => do return .place (← Reader.seek target)

/-- The place that a request names is a signed number of sixty-four bits. -/
def Request.Fits : Request → Prop
  | readAt place _ => place < Nat.pow 2 63
  | _ => True

end Reader

namespace Cursor

/-- A cursor that has moved on. -/
def advanced (cursor : Cursor) (count : Nat) : Cursor :=
  { cursor with position := cursor.position + count }

/-- The number of bytes behind a place. -/
def remaining (cursor : Cursor) (place : Nat) : Nat :=
  cursor.bytes.size - place

/-- Bytes from a place on, as many as there is room for. -/
def slice (cursor : Cursor) (place room : Nat) : ByteArray :=
  cursor.bytes.extract place (place + min room (cursor.remaining place))

/-- The place that a seek leads to. -/
def target (cursor : Cursor) : SeekFrom → Int
  | .start offset => offset
  | .stop delta => cursor.bytes.size + delta
  | .current delta => cursor.position + delta

/-- What a cursor over bytes in memory answers, and where it is then. -/
def answer (cursor : Cursor) : Reader.Request → Except Fault Reader.Answer × Cursor
  | .read room =>
      (.ok (.bytes (cursor.slice cursor.position room)),
        cursor.advanced (min room (cursor.remaining cursor.position)))
  | .readAll =>
      (.ok (.bytes (cursor.bytes.extract cursor.position cursor.bytes.size)),
        { cursor with position := cursor.bytes.size })
  | .readAt place room =>
      if place ≤ cursor.bytes.size then (.ok (.bytes (cursor.slice place room)), cursor)
      else (.error .endOfStream, cursor)
  | .seek target =>
      let place := cursor.target target
      if 0 ≤ place ∧ place ≤ cursor.bytes.size then
        (.ok (.place place.toNat), { cursor with position := place.toNat })
      else (.error .endOfStream, cursor)

/-- The answers of a cursor to one request after the other, each with the place it leaves the
cursor at. -/
def converse (cursor : Cursor) : List Reader.Request → List (Except Fault Reader.Answer × Int)
  | [] => []
  | request :: rest =>
      let (answer, left) := cursor.answer request
      (answer, left.position) :: left.converse rest

theorem size_slice
    (cursor : Cursor)
    (place room : Nat) :
    (cursor.slice place room).size = min room (cursor.remaining place) := by
  rw [slice, ByteArray.size_extract, remaining]
  omega

/-- What is cut off by the end of the bytes need not be counted. -/
theorem slice_eq
    (cursor : Cursor)
    (place room : Nat) :
    cursor.slice place room = cursor.bytes.extract place (place + room) := by
  by_cases fits : room ≤ cursor.remaining place
  · rw [slice, Nat.min_eq_left fits]
  · have clamped : cursor.bytes.extract place (place + room) =
        (cursor.bytes.extract 0 cursor.bytes.size).extract place (place + room) := by
      rw [ByteArray.extract_zero_size]
    rw [clamped, ByteArray.extract_extract, slice, remaining]
    unfold remaining at fits
    by_cases inside : place ≤ cursor.bytes.size
    · congr 1 <;> omega
    · have none_ (stop : Nat) (less : min stop cursor.bytes.size ≤ place) :
          cursor.bytes.extract place stop = .empty := ByteArray.extract_eq_empty_iff.mpr less
      rw [none_ _ (by omega), Nat.zero_add, none_ _ (by omega)]

/-- A cursor stays within its bytes. -/
theorem answer_within
    {cursor : Cursor}
    (within : cursor.position ≤ cursor.bytes.size)
    (request : Reader.Request) :
    (cursor.answer request).2.bytes = cursor.bytes ∧
      (cursor.answer request).2.position ≤ cursor.bytes.size := by
  cases request with
  | read room =>
      refine ⟨rfl, ?_⟩
      simp only [answer, advanced, remaining]
      omega
  | readAll =>
      exact ⟨rfl, Nat.le_refl _⟩
  | readAt place room =>
      simp only [answer]
      split <;> exact ⟨rfl, within⟩
  | seek target =>
      simp only [answer]
      split
      · refine ⟨rfl, ?_⟩
        dsimp only
        omega
      · exact ⟨rfl, within⟩

end Cursor

/-! ## What readers find -/

namespace Store

/-- A store has these parts of a file whatever is under way on it, and every part has an id of its
own. -/
structure Bears (file : Int) (parts : List Part) (store : Store) : Prop extends store.Steady where
  parts : store.tables.partsOf file = parts
  keyed : (store.tables.parts.map (·.id)).Nodup

/-- A store has these parts of a file, and every part has an id of its own. -/
structure Offers (file : Int) (parts : List Part) (store : Store) : Prop extends store.Idle where
  parts : store.tables.partsOf file = parts
  keyed : (store.tables.parts.map (·.id)).Nodup

variable {file : Int} {parts : List Part} {store after : Store}

/-- Connecting a store changes nothing about what it has. -/
theorem Bears.connected
    (bears : store.Bears file parts)
    (connected : store.Connected after) :
    after.Bears file parts := by
  have steady := connected.steady bears.toSteady
  obtain ⟨_, -, rfl⟩ := connected
  exact ⟨steady, bears.parts, bears.keyed⟩

/-- The bytes of each part are found by its id. -/
theorem Bears.content?_eq
    (bears : store.Bears file parts)
    {part : Part}
    (member : part ∈ parts) :
    store.tables.content? part.id = some part.content := by
  have isPart : part ∈ store.tables.parts := by
    rw [← bears.parts, Tables.partsOf] at member
    exact (List.mem_filter.mp (List.mem_mergeSort.mp member)).1
  unfold Tables.content?
  cases found : store.tables.parts.find? (·.id == part.id) with
  | none =>
      have missing := List.find?_eq_none.mp found part isPart
      simp at missing
  | some other =>
      have same : other.id = part.id := by
        simpa using List.find?_some found
      rw [List.inj_on_of_nodup_map bears.keyed (List.mem_of_find?_eq_some found) isPart same]
      rfl

/-- A store that nothing is under way on has the parts too. -/
theorem Offers.bears
    (offers : store.Offers file parts) :
    store.Bears file parts :=
  ⟨offers.toSteady, offers.parts, offers.keyed⟩

/-- Parts that a store has are there when nothing is under way on it. -/
theorem Bears.offers
    (bears : store.Bears file parts)
    (idle : store.Idle) :
    store.Offers file parts :=
  ⟨idle, bears.parts, bears.keyed⟩

/-- Connecting a store changes nothing about what it offers. -/
theorem Offers.connected
    (offers : store.Offers file parts)
    (connected : store.Connected after) :
    after.Offers file parts := by
  have bears := offers.bears.connected connected
  obtain ⟨_, -, rfl⟩ := connected
  exact bears.offers ⟨bears.toSteady, offers.outside, offers.opened⟩

/-- The bytes of each part are found by its id. -/
theorem Offers.content?_eq
    (offers : store.Offers file parts)
    {part : Part}
    (member : part ∈ parts) :
    store.tables.content? part.id = some part.content :=
  offers.bears.content?_eq member

end Store

namespace Reader

open StreamAction

variable
  {file : Int}
  {parts before behind : List Part}
  {part : Part}
  {reader : Reader}
  {store : Store}
  {place : Nat}

/-- A reader is open over some parts, at a place, on a store that has them. Whatever parts it
cached are among them. -/
structure Ready (file : Int) (parts : List Part) (place : Nat) (reader : Reader) (store : Store) :
    Prop where
  open_ : reader.isClosed = false
  extents : reader.extents = parts.map Part.extent
  length : reader.length = (bytesOf parts).size
  position : reader.position = place
  cached : ∀ content ∈ reader.cache.contents, ∃ part ∈ parts, part.content = content
  offers : store.Offers file parts

/-- A use of a reader does not count against it. -/
theorem Ready.watched
    (ready : reader.Ready file parts place store)
    (watchdog : Option Watchdog) :
    Ready file parts place { reader with watchdog } store :=
  ⟨ready.open_, ready.extents, ready.length, ready.position, ready.cached, ready.offers⟩

/-- The cursor of a reader is moved. -/
theorem Ready.moved
    (ready : reader.Ready file parts place store)
    {position : Int}
    {next : Nat}
    (isNext : position = next) :
    Ready file parts next { reader with position } store :=
  ⟨ready.open_, ready.extents, ready.length, isNext, ready.cached, ready.offers⟩

/-- A position within a part leads to its extent. -/
theorem Ready.extentAt?_eq
    (ready : reader.Ready file (before ++ part :: behind) place store)
    (contiguous : Contiguous 0 (before ++ part :: behind))
    {position : Nat}
    (behindBefore : (bytesOf before).size ≤ position)
    (inside : position < (bytesOf before).size + part.data.size) :
    reader.extentAt? position = some part.extent := by
  have isBoundary := boundary_ended contiguous behindBefore inside
  obtain ⟨offset, length⟩ := contiguous.place_eq
  have contains : part.extent.contains position = true := by
    rw [Extent.contains, Bool.and_eq_true, decide_eq_true_eq, decide_eq_true_eq]
    change part.offset ≤ _ ∧ _ < part.offset + part.length
    omega
  change
    (reader.extents[boundary (ended reader.extents position) 0 reader.extents.length]?).filter
      (·.contains position) = _
  rw [ready.extents, List.length_map, isBoundary, List.getElem?_map,
    List.getElem?_append_right (Nat.le_refl _), Nat.sub_self]
  simp [contains]

/-- The bytes of a part are the same from the cache and from the store. -/
theorem contentOf_yields
    (member : part ∈ parts) :
    Yields (Ready file parts place) (contentOf part.id) fun content reader store =>
      content = part.content ∧ reader.Ready file parts place store := by
  intro reader store ready
  rw [contentOf, runOn_bind, runOn_current]
  dsimp only
  cases found : reader.cache.find? part.id with
  | some content =>
      rw [PartCache.get_of_cached found]
      have isCached := List.mem_of_find?_eq_some found
      obtain ⟨other, isPart, isContent⟩ := ready.cached content isCached
      have sameId : content.id = part.id := by
        simpa using List.find?_some found
      have same : content = part.content := by
        have first := ready.offers.content?_eq isPart
        have second := ready.offers.content?_eq member
        rw [← isContent] at sameId ⊢
        rw [show other.id = part.id from sameId] at first
        exact Option.some.inj (first.symm.trans second)
      refine ⟨content, _, store, rfl, same, ?_⟩
      refine ⟨ready.open_, ready.extents, ready.length, ready.position, fun other isOther => ?_,
        ready.offers⟩
      rcases PartCache.mem_promote isOther with rfl | kept
      · exact ready.cached _ isCached
      · exact ready.cached other kept
  | none =>
      have steady := ready.offers.toSteady
      have answered :=
        Action.runOn_reading_query steady ready.offers.outside ready.offers.opened
          (fun tables => tables.content? part.id) .parts
      have connected := connected_reading steady (fun tables => tables.content? part.id) .parts
      have loaded : (load reader.entry.name part.id).runOn reader store =
          (.ok part.content, reader,
            ((Action.reading
              (Action.query (fun tables => tables.content? part.id) .parts)).runOn store).2) := by
        rw [load, runOn_bind, runOn_onStore, answered]
        dsimp only
        rw [ready.offers.content?_eq member]
        rfl
      rw [PartCache.get_of_missing found, runOn_bind, runOn_bind, loaded]
      refine ⟨part.content, _, _, rfl, rfl, ready.open_, ready.extents, ready.length,
        ready.position, fun other isOther => ?_, ready.offers.connected connected⟩
      rcases PartCache.mem_admitted isOther with rfl | kept
      · exact ⟨part, member, rfl⟩
      · exact ready.cached other kept

/-- Gathering gives the bytes from a position on, as far as there are any. -/
theorem gather_yields
    (contiguous : Contiguous 0 parts)
    {position : Nat}
    (within : position ≤ (bytesOf parts).size)
    (room : Nat)
    (gathered : ByteArray) :
    Yields (Ready file parts place) (gather position room gathered) fun data reader store =>
      data = gathered ++ (bytesOf parts).extract position (position + room) ∧
        reader.Ready file parts place store := by
  induction room using Nat.strongRecOn generalizing position gathered with
  | _ room inductionHypothesis =>
      rw [gather]
      refine .current fun seen => ?_
      by_cases inside : position < (bytesOf parts).size
      swap
      · have nothing : (bytesOf parts).extract position (position + room) = .empty := by
          rw [ByteArray.extract_eq_empty_iff]
          omega
        refine .assuming (¬(position : Int) < seen.length) ?_ fun behind => ?_
        · rintro _ store ⟨ready, rfl⟩
          rw [ready.length]
          omega
        rw [if_neg behind]
        exact .pure fun reader store before => ⟨by rw [nothing, ByteArray.append_empty], before.1⟩
      obtain ⟨before, part, behind, rfl, behindBefore, isInside⟩ := exists_part_at parts inside
      refine .assuming (seen.length = (bytesOf (before ++ part :: behind)).size ∧
          seen.extentAt? position = some part.extent) ?_ fun known => ?_
      · rintro _ store ⟨ready, rfl⟩
        exact ⟨ready.length, ready.extentAt?_eq contiguous behindBefore isInside⟩
      obtain ⟨isLength, isExtent⟩ := known
      rw [if_pos (by omega), isExtent]
      dsimp only
      split
      · rename_i none_
        subst none_
        refine .pure fun reader store before => ⟨?_, before.1⟩
        simp
      rename_i some_
      refine .bind _ ((contentOf_yields (by simp : part ∈ before ++ part :: behind)).weaken
        (fun _ _ before => before.1) fun _ _ _ => id) fun content => ?_
      refine .assuming (content = part.content) (fun _ _ before => before.1) fun isContent => ?_
      subst isContent
      obtain ⟨start, rfl⟩ := Nat.exists_eq_add_of_le behindBefore
      have isStart : (((((bytesOf before).size + start : Nat) : Int)) - part.content.offset).toNat =
          start := by
        have offset := contiguous.place_eq.1
        change (_ - part.offset).toNat = _
        omega
      rw [isStart]
      have size : part.content.size = part.data.size := rfl
      have total : (bytesOf (before ++ part :: behind)).size =
          (bytesOf before).size + (part.data.size + (bytesOf behind).size) := by
        rw [bytesOf_append, bytesOf_cons, ByteArray.size_append, ByteArray.size_append]
      have more : 0 < min (part.content.size - start) room := by
        omega
      rw [dif_pos more]
      generalize counted : min (part.content.size - start) room = count at more ⊢
      have next := @inductionHypothesis (room - count) (by omega)
        ((bytesOf before).size + start + count) (by omega)
        (gathered ++ part.content.data.extract start (start + count))
      refine next.weaken (fun _ _ before => before.2) fun data reader store after =>
        ⟨after.1.trans ?_, after.2⟩
      have taken := @extract_bytesOf before behind part start count (by omega)
      rw [ByteArray.append_assoc, show part.content.data = part.data from rfl, ← taken]
      congr 1
      rw [ByteArray.extract_append_extract]
      congr 1 <;> omega

/-- Reading at a place gives the bytes there, as far as there are any. -/
theorem readFrom_yields
    (contiguous : Contiguous 0 parts)
    {position : Nat}
    (within : position ≤ (bytesOf parts).size)
    (room : Nat) :
    Yields (Ready file parts place) (readFrom position room) fun data reader store =>
      data = (bytesOf parts).extract position (position + room) ∧
        reader.Ready file parts place store := by
  refine .current fun seen => ?_
  refine .assuming (seen.isClosed = false) ?_ fun open_ => ?_
  · rintro _ store ⟨ready, rfl⟩
    exact ready.open_
  simp only [throw_bind, open_, Bool.false_eq_true, if_false]
  refine (gather_yields contiguous within room .empty).weaken (fun _ _ before => before.1) ?_
  rintro data reader store ⟨isData, ready⟩
  exact ⟨isData.trans (ByteArray.empty_append), ready⟩

/-- Reading at a place up to the end leaves the cursor. -/
theorem readAt_yields
    (contiguous : Contiguous 0 parts)
    {position : Nat}
    (fits : position < Nat.pow 2 63)
    (within : position ≤ (bytesOf parts).size)
    (room : Nat) :
    Yields (Ready file parts place) (readAt position room) fun data reader store =>
      data = (bytesOf parts).extract position (position + room) ∧
        reader.Ready file parts place store := by
  have isSigned : signed position = position := if_pos fits
  refine .bind (fun _ => Ready file parts place) (.change fun _ _ ready => ready.watched _)
    fun _ => .current fun seen => ?_
  refine .assuming (seen.length = (bytesOf parts).size) ?_ fun isLength => ?_
  · rintro _ store ⟨ready, rfl⟩
    exact ready.length
  rw [isSigned, if_neg (by omega)]
  exact (readFrom_yields contiguous within room).weaken (fun _ _ before => before.1) fun _ _ _ => id

/-- Reading at a place behind the end fails. -/
theorem readAt_refused
    (ready : reader.Ready file parts place store)
    {position : Nat}
    (fits : position < Nat.pow 2 63)
    (beyond : (bytesOf parts).size < position)
    (room : Nat) :
    ∃ left,
      (readAt position room).runOn reader store = (.error .endOfStream, left, store) ∧
        left.Ready file parts place store := by
  have isSigned : signed position = position := if_pos fits
  refine ⟨_, ?_, ready.watched (reader.watchdog.map Watchdog.touch)⟩
  rw [readAt, touch, runOn_bind, runOn_change]
  dsimp only
  rw [runOn_bind, runOn_current]
  dsimp only
  rw [isSigned, ready.length, if_pos (by omega)]
  rfl

/-- What a seek does once it is known where to. -/
theorem seek_eq
    (ready : reader.Ready file parts place store)
    (target : SeekFrom) :
    (seek target).runOn reader store =
      let goal := (Cursor.mk (bytesOf parts) place).target target
      StreamAction.runOn (do
          if goal < 0 || goal > reader.length then throw .endOfStream
          StreamAction.change fun reader => { reader with position := goal }
          return goal.toNat)
        { reader with watchdog := reader.watchdog.map Watchdog.touch } store := by
  have open_ :
      isClosed { reader with watchdog := reader.watchdog.map Watchdog.touch } = false := ready.open_
  rw [seek, touch, runOn_bind, runOn_change]
  dsimp only
  rw [runOn_bind, runOn_current]
  dsimp only
  rw [open_, if_neg Bool.false_ne_true]
  cases target with
  | start offset =>
      rfl
  | stop delta =>
      have isGoal : reader.length + delta = (Cursor.mk (bytesOf parts) place).target (.stop delta) := by
        rw [ready.length]
        rfl
      rw [← isGoal]
  | current delta =>
      have isGoal :
          reader.position + delta = (Cursor.mk (bytesOf parts) place).target (.current delta) := by
        rw [ready.position]
        rfl
      rw [← isGoal]

/-- The cursor moves to a place up to the end. -/
theorem seek_moves
    (ready : reader.Ready file parts place store)
    {target : SeekFrom}
    {goal : Nat}
    (isGoal : (Cursor.mk (bytesOf parts) place).target target = goal)
    (within : goal ≤ (bytesOf parts).size) :
    ∃ left,
      (seek target).runOn reader store = (.ok goal, left, store) ∧
        left.Ready file parts goal store := by
  have inside : ¬((goal : Int) < 0 || (goal : Int) > reader.length) = true := by
    simp only [Bool.or_eq_true, decide_eq_true_eq, ready.length]
    omega
  refine ⟨_, ?_,
    (ready.watched (reader.watchdog.map Watchdog.touch)).moved (rfl : (goal : Int) = goal)⟩
  rw [seek_eq ready, isGoal]
  dsimp only
  rw [if_neg inside]
  rfl

/-- The cursor stays when it is to move to another place. -/
theorem seek_refused
    (ready : reader.Ready file parts place store)
    {target : SeekFrom}
    (outside :
      ¬(0 ≤ (Cursor.mk (bytesOf parts) place).target target ∧
        (Cursor.mk (bytesOf parts) place).target target ≤ (bytesOf parts).size)) :
    ∃ left,
      (seek target).runOn reader store = (.error .endOfStream, left, store) ∧
        left.Ready file parts place store := by
  refine ⟨_, ?_, ready.watched (reader.watchdog.map Watchdog.touch)⟩
  rw [seek_eq ready]
  generalize (Cursor.mk (bytesOf parts) place).target target = goal at outside ⊢
  have isOutside : (goal < 0 || goal > reader.length) = true := by
    simp only [Bool.or_eq_true, decide_eq_true_eq, ready.length]
    omega
  dsimp only
  rw [if_pos isOutside]
  rfl

/-- Reading at the cursor moves it behind the bytes. -/
theorem read_yields
    (contiguous : Contiguous 0 parts)
    (within : place ≤ (bytesOf parts).size)
    (room : Nat) :
    Yields (Ready file parts place) (read room) fun data reader store =>
      data = (bytesOf parts).extract place (place + room) ∧
        reader.Ready file parts (place + data.size) store := by
  refine .bind (fun _ => Ready file parts place) (.change fun _ _ ready => ready.watched _)
    fun _ => .current fun seen => ?_
  refine .assuming (seen.position = place) ?_ fun isPlace => ?_
  · rintro _ store ⟨ready, rfl⟩
    exact ready.position
  rw [isPlace]
  refine .bind _ ((readFrom_yields contiguous within room).weaken (fun _ _ before => before.1)
    fun _ _ _ => id) fun data => ?_
  refine .bind (fun _ reader store =>
    data = (bytesOf parts).extract place (place + room) ∧
      reader.Ready file parts (place + data.size) store) (.change ?_) fun _ => .pure fun _ _ => id
  rintro reader store ⟨isData, ready⟩
  refine ⟨isData, ready.moved ?_⟩
  rw [ready.position]
  rfl

/-- Bytes from a place on, and then all behind them. -/
theorem extract_append_rest
    (bytes : ByteArray)
    (place room : Nat) :
    bytes.extract place (place + room) ++
        bytes.extract (place + (bytes.extract place (place + room)).size) bytes.size =
      bytes.extract place bytes.size := by
  by_cases fits : place + room ≤ bytes.size
  · have size : (bytes.extract place (place + room)).size = room := by
      rw [ByteArray.size_extract]
      omega
    rw [size, ByteArray.extract_append_extract]
    congr 1 <;> omega
  · have all : bytes.extract place (place + room) = bytes.extract place bytes.size := by
      have clamped := (Cursor.mk bytes place).slice_eq place room
      rw [← clamped, Cursor.slice, Cursor.remaining]
      by_cases inside : place ≤ bytes.size
      · congr 1
        dsimp only
        omega
      · have none_ {stop : Nat} (less : min stop bytes.size ≤ place) :
            bytes.extract place stop = .empty := ByteArray.extract_eq_empty_iff.mpr less
        rw [none_ (by dsimp only; omega), none_ (by omega)]
    have nothing :
        bytes.extract (place + (bytes.extract place bytes.size).size) bytes.size = .empty := by
      rw [ByteArray.extract_eq_empty_iff, ByteArray.size_extract]
      omega
    rw [all, nothing, ByteArray.append_empty]

/-- Reads that double in size come to the end. -/
theorem readDoubling_yields
    (contiguous : Contiguous 0 parts)
    (within : place ≤ (bytesOf parts).size)
    {fuel room : Nat}
    (enough : (bytesOf parts).size - place < fuel)
    (some_ : 0 < room)
    (gathered : ByteArray) :
    Yields (Ready file parts place) (readDoubling fuel room gathered) fun data reader store =>
      data = gathered ++ (bytesOf parts).extract place (bytesOf parts).size ∧
        reader.Ready file parts (bytesOf parts).size store := by
  induction fuel generalizing place room gathered with
  | zero =>
      omega
  | succ fuel inductionHypothesis =>
      refine .bind _ (read_yields contiguous within room) fun data => ?_
      refine .assuming (data = (bytesOf parts).extract place (place + room))
        (fun _ _ before => before.1) fun isData => ?_
      have size : data.size = min room ((bytesOf parts).size - place) := by
        rw [isData, ByteArray.size_extract]
        omega
      split
      · rename_i isEmpty
        have none_ : data.size = 0 := by
          simpa [ByteArray.isEmpty] using isEmpty
        have atEnd : place = (bytesOf parts).size := by
          omega
        refine .pure fun reader store before => ?_
        rw [none_, Nat.add_zero, atEnd] at before
        rw [atEnd, ByteArray.extract_same, ByteArray.append_empty]
        exact ⟨rfl, before.2⟩
      · rename_i notEmpty
        have more : 0 < data.size := by
          simpa [ByteArray.isEmpty, Nat.pos_iff_ne_zero] using notEmpty
        have further := @inductionHypothesis (place + data.size) (by omega) (2 * room) (by omega)
          (by omega) (gathered ++ data)
        refine further.weaken (fun _ _ before => before.2) fun all reader store after =>
          ⟨after.1.trans ?_, after.2⟩
        rw [ByteArray.append_assoc, isData, extract_append_rest]

/-- Reading everything gives the rest of the bytes. -/
theorem readAll_yields
    (contiguous : Contiguous 0 parts)
    (within : place ≤ (bytesOf parts).size) :
    Yields (Ready file parts place) readAll fun data reader store =>
      data = (bytesOf parts).extract place (bytesOf parts).size ∧
        reader.Ready file parts (bytesOf parts).size store := by
  refine .current fun seen => ?_
  refine .assuming (seen.length = (bytesOf parts).size ∧ seen.position = place) ?_
    fun ⟨isLength, isPlace⟩ => ?_
  · rintro _ store ⟨ready, rfl⟩
    exact ⟨ready.length, ready.position⟩
  rw [isLength, isPlace]
  have read := @readDoubling_yields file parts place contiguous within
    (((bytesOf parts).size - place : Int).toNat + 2) firstRead (by omega) (by decide) .empty
  refine .bind _ ((read.weaken (fun _ _ before => before.1) fun _ _ _ => id).attempt)
    fun outcome => ?_
  cases outcome with
  | error fault =>
      exact .assuming False (fun _ _ before => by obtain ⟨_, absurd, _⟩ := before; cases absurd)
        False.elim
  | ok data =>
      refine .pure ?_
      rintro reader store ⟨_, isOk, isData, ready⟩
      cases isOk
      exact ⟨isData.trans ByteArray.empty_append, ready⟩

/-- Deliveries of part size come to the end and do not fail. -/
theorem deliver_yields
    (contiguous : Contiguous 0 parts)
    (within : place ≤ (bytesOf parts).size)
    {fuel : Nat}
    (enough : (bytesOf parts).size - place < fuel) :
    Yields (Ready file parts place) (deliver fuel) fun delivered reader store =>
      (Source.bytesOf delivered.1 = (bytesOf parts).extract place (bytesOf parts).size ∧
          delivered.2 = none) ∧
        reader.Ready file parts (bytesOf parts).size store := by
  induction fuel generalizing place with
  | zero =>
      omega
  | succ fuel inductionHypothesis =>
      refine .bind _ (read_yields contiguous within partSize).attempt fun outcome => ?_
      cases outcome with
      | error fault =>
          exact .assuming False (fun _ _ before => by obtain ⟨_, absurd, _⟩ := before; cases absurd)
            False.elim
      | ok data =>
          refine .assuming (data = (bytesOf parts).extract place (place + partSize)) ?_ fun isData => ?_
          · rintro reader store ⟨_, isOk, isData, _⟩
            cases isOk
            exact isData
          have size : data.size = min partSize ((bytesOf parts).size - place) := by
            rw [isData, ByteArray.size_extract]
            omega
          dsimp only
          split
          · rename_i isEmpty
            have none_ : data.size = 0 := by
              simpa [ByteArray.isEmpty] using isEmpty
            have atEnd : place = (bytesOf parts).size := by
              have positive := partSize_pos
              omega
            refine .pure ?_
            rintro reader store ⟨_, isOk, _, ready⟩
            cases isOk
            rw [none_, Nat.add_zero, atEnd] at ready
            rw [atEnd, ByteArray.extract_same]
            exact ⟨⟨rfl, rfl⟩, ready⟩
          · rename_i notEmpty
            have more : 0 < data.size := by
              simpa [ByteArray.isEmpty, Nat.pos_iff_ne_zero] using notEmpty
            have further := @inductionHypothesis (place + data.size) (by omega) (by omega)
            refine .bind _ (further.weaken ?_ fun _ _ _ => id) fun delivered => .pure ?_
            · rintro reader store ⟨_, isOk, _, ready⟩
              cases isOk
              exact ready
            · rintro reader store ⟨⟨isRest, ends⟩, ready⟩
              refine ⟨⟨?_, ends⟩, ready⟩
              rw [Source.bytesOf, if_neg notEmpty, isRest, isData, extract_append_rest]

/-- A reader at the beginning is a source of all bytes that does not fail. -/
theorem toSource_yields
    (contiguous : Contiguous 0 parts) :
    Yields (Ready file parts 0) toSource fun source _ store =>
      (source.bytes = bytesOf parts ∧ source.failure? = none) ∧ store.Offers file parts := by
  refine .current fun seen => ?_
  refine .assuming (seen.length = (bytesOf parts).size ∧ seen.position = 0) ?_
    fun ⟨isLength, isPlace⟩ => ?_
  · rintro _ store ⟨ready, rfl⟩
    exact ⟨ready.length, ready.position⟩
  rw [isLength, isPlace]
  have delivers := @deliver_yields file parts 0 contiguous (Nat.zero_le _)
    (((bytesOf parts).size - 0 : Int).toNat + 2) (by omega)
  refine .bind _ (delivers.weaken (fun _ _ before => before.1) fun _ _ _ => id)
    fun delivered => .pure ?_
  rintro reader store ⟨⟨isRest, ends⟩, ready⟩
  rw [ByteArray.extract_zero_size] at isRest
  refine ⟨⟨isRest, ?_⟩, ready.offers⟩
  simp [Source.failure?, ends]

/-! ## Readers answer as cursors -/

/-- A reader over some parts answers a request as a cursor over their bytes does, and is left at
the place where the cursor is left. -/
theorem Ready.answers
    (ready : reader.Ready file parts place store)
    (contiguous : Contiguous 0 parts)
    (within : place ≤ (bytesOf parts).size)
    {request : Request}
    (fits : request.Fits) :
    ∃ left after,
      request.run.runOn reader store = (((Cursor.mk (bytesOf parts) place).answer request).1, left, after) ∧
        left.Ready file parts ((Cursor.mk (bytesOf parts) place).answer request).2.position after := by
  cases request with
  | read room =>
      obtain ⟨data, left, after, ran, isData, readyAfter⟩ :=
        read_yields contiguous within room reader store ready
      have sameData := (Cursor.mk (bytesOf parts) place).slice_eq place room
      have size := (Cursor.mk (bytesOf parts) place).size_slice place room
      refine ⟨left, after, ?_, ?_⟩
      · rw [Request.run, runOn_bind, ran, isData]
        simp only [Cursor.answer, sameData]
        rfl
      · rw [isData, ← sameData, size] at readyAfter
        exact readyAfter
  | readAll =>
      obtain ⟨data, left, after, ran, isData, readyAfter⟩ :=
        readAll_yields contiguous within reader store ready
      refine ⟨left, after, ?_, readyAfter⟩
      rw [Request.run, runOn_bind, ran, isData]
      rfl
  | readAt position room =>
      by_cases inside : position ≤ (bytesOf parts).size
      · obtain ⟨data, left, after, ran, isData, readyAfter⟩ :=
          readAt_yields contiguous fits inside room reader store ready
        have sameData := (Cursor.mk (bytesOf parts) place).slice_eq position room
        simp only [Cursor.answer, if_pos inside, sameData]
        refine ⟨left, after, ?_, readyAfter⟩
        rw [Request.run, runOn_bind, ran, isData]
        rfl
      · obtain ⟨left, ran, readyAfter⟩ :=
          readAt_refused ready fits (Nat.lt_of_not_le inside) room
        simp only [Cursor.answer, if_neg inside]
        refine ⟨left, store, ?_, readyAfter⟩
        rw [Request.run, runOn_bind, ran]
  | seek target =>
      simp only [Cursor.answer]
      split
      · rename_i inside
        obtain ⟨goal, isGoal⟩ := Int.eq_ofNat_of_zero_le inside.1
        obtain ⟨left, ran, readyAfter⟩ := seek_moves ready isGoal (by omega)
        rw [isGoal, Int.toNat_natCast]
        refine ⟨left, store, ?_, readyAfter⟩
        rw [Request.run, runOn_bind, ran]
        rfl
      · rename_i outside
        obtain ⟨left, ran, readyAfter⟩ := seek_refused ready outside
        refine ⟨left, store, ?_, readyAfter⟩
        rw [Request.run, runOn_bind, ran]

/-- A request, and the store and the watchdog that it finds. Others may have changed the store
since the request before, and time may have gone by. -/
structure Turn where
  store : Store
  watchdog : Option Watchdog := none
  request : Request

/-- The answers of a reader to one request after the other, each with the place it leaves the
reader at. -/
def converse (reader : Reader) : List Turn → List (Except Fault Answer × Int)
  | [] => []
  | turn :: rest =>
      let (answer, left, _) :=
        turn.request.run.runOn { reader with watchdog := turn.watchdog } turn.store
      (answer, left.position) :: left.converse rest

/-- A reader over some parts goes on answering as a cursor over their bytes as long as every store
it finds has them. -/
theorem Ready.converse_eq
    (ready : reader.Ready file parts place store)
    (contiguous : Contiguous 0 parts)
    (within : place ≤ (bytesOf parts).size)
    {turns : List Turn}
    (unchanged : ∀ turn ∈ turns, turn.store.Offers file parts)
    (fits : ∀ turn ∈ turns, turn.request.Fits) :
    reader.converse turns =
      (Cursor.mk (bytesOf parts) place).converse (turns.map (·.request)) := by
  induction turns generalizing reader store place with
  | nil =>
      rfl
  | cons turn rest inductionHypothesis =>
      have found : Ready file parts place { reader with watchdog := turn.watchdog } turn.store :=
        { ready.watched turn.watchdog with offers := unchanged turn (by simp) }
      obtain ⟨left, after, ran, readyAfter⟩ :=
        found.answers contiguous within (fits turn (by simp))
      obtain ⟨sameBytes, stays⟩ :=
        @Cursor.answer_within (Cursor.mk (bytesOf parts) place) within turn.request
      have further := inductionHypothesis readyAfter stays
        (fun turn member => unchanged turn (List.mem_cons_of_mem _ member))
        fun turn member => fits turn (List.mem_cons_of_mem _ member)
      have isCursor := congrArg (Cursor.mk · ((Cursor.mk (bytesOf parts) place).answer turn.request).2.position) sameBytes
      rw [converse, List.map_cons, Cursor.converse, ran]
      dsimp only
      rw [readyAfter.position, further, ← isCursor]

/-- A reader was opened on a store, by the path of a live file or by the id of any version. -/
def OpenedOn (store : Store) (reader : Reader) : Prop :=
  (∃ text, ((openPath text).runOn store).1 = .ok reader) ∨
    ∃ entry, ((openEntry entry).runOn store).1 = .ok reader

/-- A reader that was opened was given a lock on its file, and begins with what the store has. -/
theorem OpenedOn.starts
    (opened : OpenedOn store reader)
    (steady : store.Steady) :
    ∃ guard given,
      store.locks.lock? guard.id false = some (guard, given) ∧ reader.Starts guard store.tables := by
  rcases opened with ⟨text, isReader⟩ | ⟨entry, isReader⟩
  · obtain ⟨guard, given, isGiven, -, starts⟩ := (opened_openPath steady text).done reader isReader
    exact ⟨guard, given, isGiven, starts⟩
  · obtain ⟨guard, given, isGiven, -, starts⟩ := (opened_openEntry steady entry).done reader isReader
    exact ⟨guard, given, isGiven, starts⟩

/-- A reader that was opened is open, at the beginning of the parts that the store has, and has
cached none of them. -/
theorem OpenedOn.begins
    (opened : OpenedOn store reader)
    (bears : store.Bears reader.entry.id parts)
    (contiguous : Contiguous 0 parts) :
    reader.isClosed = false ∧
      reader.extents = parts.map Part.extent ∧
        reader.length = (bytesOf parts).size ∧
          reader.position = 0 ∧
            reader.cache.contents = [] := by
  obtain ⟨guard, -, -, starts⟩ := opened.starts bears.toSteady
  have extents : reader.extents = parts.map Part.extent := by
    rw [starts.extents, Tables.extents, bears.parts]
  refine ⟨?_, extents, ?_, starts.position, starts.cache⟩
  · rw [isClosed, starts.held]
    rfl
  · rw [starts.length, extents, contiguous.lengthOf]

/-- A reader begins at the beginning of the parts that the store has. -/
theorem OpenedOn.ready
    (opened : OpenedOn store reader)
    (offers : store.Offers reader.entry.id parts)
    (contiguous : Contiguous 0 parts) :
    reader.Ready reader.entry.id parts 0 store := by
  obtain ⟨open_, extents, length, position, cached⟩ := opened.begins offers.bears contiguous
  exact ⟨open_, extents, length, position, by simp [cached], offers⟩

end Reader

/-! ## Copying out -/

namespace Store

/-- Bytes that are handed on part by part come together. -/
theorem putAll_append
    (held : ByteArray)
    (parts : List Part) :
    putAll (fun taken data => .ok (taken ++ data)) held (parts.map Part.content) =
      .ok (held ++ bytesOf parts) := by
  induction parts generalizing held with
  | nil =>
      simp [putAll, bytesOf, joined]
  | cons part rest inductionHypothesis =>
      rw [List.map_cons, putAll]
      dsimp only
      rw [inductionHypothesis, bytesOf_cons, ByteArray.append_assoc]
      rfl

section Files

variable
  {store : Store}
  {parts : List Part}
  {text : String}
  {path : CleanPath}
  {entry : Entry}

/-- The file at a path is found in the tables of a store, which stays as it is. -/
theorem runOn_requireFile
    (alone : store.Alone)
    (outside : store.savepoints = [])
    (path : CleanPath) :
    (Txn.requireFile path).runOn store =
      (match store.tables.lookupAt? path with
        | none => .error (.notFound path.text)
        | some entry =>
            if entry.isDirectory then .error (.notAFile path.text) else .ok entry,
        store) := by
  have asked :
      (Txn.entryAt? path).runOn store = (.ok (store.tables.lookupAt? path), store) := by
    rw [Txn.entryAt?, Action.runOn_query alone, Action.noting_of_outside store outside]
    rfl
  rw [Txn.requireFile, Action.runOn_bind, Txn.requireEntry, Action.runOn_bind, asked]
  dsimp only
  cases store.tables.lookupAt? path with
  | none =>
      rfl
  | some entry =>
      dsimp only [Action.require]
      rw [Action.runOn_pure]
      dsimp only
      cases entry.isDirectory <;> rfl

/-- A file that is there is found inside the gate. -/
theorem Idle.runOn_requireFile
    (idle : store.Idle)
    (found : store.tables.lookupAt? path = some entry)
    (isFile : entry.isDirectory = false) :
    (Txn.requireFile path).runOn { store with entered := true, connected := true } =
      (.ok entry, { store with entered := true, connected := true }) := by
  have alone : ({ store with entered := true, connected := true } : Store).Alone :=
    ⟨idle.damage, idle.writable, idle.others⟩
  rw [Store.runOn_requireFile alone idle.outside]
  dsimp only
  rw [found]
  dsimp only
  rw [isFile, if_neg Bool.false_ne_true]

/-- Inside the gate a reader is opened on a file that is lent. It holds the lock. -/
theorem Offers.runOn_ofEntry
    (offers : store.Offers entry.id parts)
    {guard : Guard}
    {locks : LockTable}
    (given : store.locks.lock? entry.id false = some (guard, locks)) :
    ∃ reader,
      (Reader.ofEntry entry).runOn { store with entered := true, connected := true } =
          (.ok reader, { store with entered := true, connected := true, locks }) ∧
        reader.entry = entry ∧ reader.guard = some guard := by
  have alone : ({ store with entered := true, connected := true, locks } : Store).Alone :=
    ⟨offers.damage, offers.writable, offers.others⟩
  refine ⟨{
    entry
    extents := store.tables.extents entry.id
    length := Reader.lengthOf (store.tables.extents entry.id)
    cache := PartCache.empty store.config.cacheEntries
    guard := some guard
    watchdog := Watchdog.ofStore? { store with entered := true, connected := true, locks } }, ?_,
    rfl, rfl⟩
  rw [Reader.ofEntry, Action.runOn_bind, Action.lock, Action.runOn_lockId, given]
  dsimp only
  rw [Action.runOn_bind, Action.runOn_query alone,
    Action.noting_of_outside { store with entered := true, connected := true, locks }
      offers.outside]
  rfl

/-- A reader is opened on a file that is lent. It holds the lock, and is ready to read the file from
its beginning. -/
theorem Offers.openPath
    (offers : store.Offers entry.id parts)
    (contiguous : Contiguous 0 parts)
    (isPath : CleanPath.ofText text = .ok path)
    (found : store.tables.lookupAt? path = some entry)
    (isFile : entry.isDirectory = false)
    {guard : Guard}
    {locks : LockTable}
    (given : store.locks.lock? entry.id false = some (guard, locks)) :
    ∃ reader,
      (Reader.openPath text).runOn store =
          (.ok reader, { store with entered := false, connected := true, locks }) ∧
        reader.guard = some guard ∧ reader.Ready entry.id parts 0 store := by
  obtain ⟨reader, isReader, rfl, held⟩ := offers.runOn_ofEntry given
  have ran :
      (Reader.openPath text).runOn store =
        (.ok reader, { store with entered := false, connected := true, locks }) := by
    rw [Reader.openPath, Action.runOn_bind, Txn.clean, Action.runOn_ofExcept, isPath]
    dsimp only
    rw [Action.runOn_reading offers.toIdle, Action.runOn_bind,
      offers.toIdle.runOn_requireFile found isFile]
    dsimp only
    rw [isReader]
  exact ⟨reader, ran, held,
    Reader.OpenedOn.ready (.inl ⟨text, congrArg Prod.fst ran⟩) offers contiguous⟩

/-- A reader is opened on a file that is lent by its id, be it live or in the trash. -/
theorem Offers.openEntry
    (offers : store.Offers entry.id parts)
    (contiguous : Contiguous 0 parts)
    {info : Entry}
    (isFile : info.isDirectory = false)
    (found : store.tables.entry? info.id = some entry)
    {guard : Guard}
    {locks : LockTable}
    (given : store.locks.lock? entry.id false = some (guard, locks)) :
    ∃ reader,
      (Reader.openEntry info).runOn store =
          (.ok reader, { store with entered := false, connected := true, locks }) ∧
        reader.guard = some guard ∧ reader.Ready entry.id parts 0 store := by
  obtain ⟨reader, isReader, rfl, held⟩ := offers.runOn_ofEntry given
  have alone : ({ store with entered := true, connected := true } : Store).Alone :=
    ⟨offers.damage, offers.writable, offers.others⟩
  have ran :
      (Reader.openEntry info).runOn store =
        (.ok reader, { store with entered := false, connected := true, locks }) := by
    unfold Reader.openEntry
    simp only [Action.throw_bind]
    rw [isFile, if_neg Bool.false_ne_true, Action.runOn_reading offers.toIdle, Action.runOn_bind,
      Action.runOn_query alone,
      Action.noting_of_outside { store with entered := true, connected := true } offers.outside]
    dsimp only
    rw [found, Action.require, Action.runOn_bind, Action.runOn_pure]
    dsimp only
    rw [isReader]
  exact ⟨reader, ran, held,
    Reader.OpenedOn.ready (.inr ⟨info, congrArg Prod.fst ran⟩) offers contiguous⟩

/-- A file that the store lends is copied out as the bytes of its parts. -/
theorem copyOut_of_offers
    (offers : store.Offers entry.id parts)
    (isPath : CleanPath.ofText text = .ok path)
    (found : store.tables.lookupAt? path = some entry)
    (isFile : entry.isDirectory = false)
    (lent : store.locks.lock? entry.id false ≠ none) :
    ((copyOut text (fun taken data => .ok (taken ++ data)) .empty).runOn store).1 =
      .ok (bytesOf parts) := by
  obtain ⟨⟨guard, locks⟩, taken⟩ := Option.ne_none_iff_exists'.mp lent
  have contents : store.tables.contents entry.id = parts.map Part.content := by
    have each :
        ∀ part ∈ parts,
          store.tables.content? part.extent.id = some part.content :=
      fun part member => offers.content?_eq member
    rw [Tables.contents, Tables.extents, offers.parts, List.filterMap_map]
    exact (List.filterMap_congr each).trans (congrFun List.filterMap_eq_map' _)
  have alone : ({ store with entered := true, connected := true, locks } : Store).Alone :=
    ⟨offers.damage, offers.writable, offers.others⟩
  rw [copyOut, Action.runOn_bind, Txn.clean, Action.runOn_ofExcept, isPath]
  dsimp only
  rw [Action.runOn_reading offers.toIdle, Action.runOn_bind,
    offers.toIdle.runOn_requireFile found isFile]
  dsimp only
  rw [Action.runOn_locked]
  dsimp only
  rw [taken]
  dsimp only
  rw [Action.runOn_bind, Action.runOn_query alone,
    Action.noting_of_outside { store with entered := true, connected := true, locks }
      offers.outside]
  dsimp only
  rw [contents, putAll_append, ByteArray.empty_append]
  rfl

end Files

end Store

namespace Reader

variable
  {file : Int}
  {parts : List Part}
  {reader : Reader}
  {store : Store}

/-- A reader that is opened on a file whose parts lie one behind the other answers as a cursor
over their bytes does, whatever the store keeps in caches and whatever is done to it between
two requests, as long as it stays open and has these parts. What it gives when it reads
everything from the beginning is what copying the file out gives. -/
theorem converse_eq_cursor
    {turns : List Turn}
    (opened : OpenedOn store reader)
    (offers : store.Offers reader.entry.id parts)
    (contiguous : Contiguous 0 parts)
    (unchanged : ∀ turn ∈ turns, turn.store.Offers reader.entry.id parts)
    (fits : ∀ turn ∈ turns, turn.request.Fits) :
    reader.converse turns =
        Cursor.converse { bytes := bytesOf parts } (turns.map (·.request)) ∧
      ∀ (other : Store) (text : String) (path : CleanPath) (entry : Entry),
        other.Offers reader.entry.id parts →
        CleanPath.ofText text = .ok path →
        other.tables.lookupAt? path = some entry →
        entry.id = reader.entry.id →
        entry.isDirectory = false →
        other.locks.lock? entry.id false ≠ none →
        ∃ data,
          ((Store.copyOut text (fun taken data => .ok (taken ++ data)) .empty).runOn other).1 =
              .ok data ∧
            ∀ turn : Turn,
              turn.request = .readAll →
              turn.store.Offers reader.entry.id parts →
              reader.converse [turn] = [(.ok (.bytes data), (data.size : Int))] := by
  have ready := opened.ready offers contiguous
  refine ⟨ready.converse_eq contiguous (Nat.zero_le _) unchanged fits, ?_⟩
  intro other text path entry otherOffers isPath found same isFile lent
  rw [← same] at otherOffers
  refine ⟨bytesOf parts, Store.copyOut_of_offers otherOffers isPath found isFile lent, ?_⟩
  intro turn isReadAll turnOffers
  have answered :=
    @Ready.converse_eq _ parts reader store 0 ready contiguous (Nat.zero_le _) [turn]
      (by simpa using turnOffers) (by simp [isReadAll, Request.Fits])
  rw [answered, List.map_singleton, isReadAll]
  simp [Cursor.converse, Cursor.answer]

/-- A file of two parts is read across them, with room for one part in the cache, and copied
out. -/
theorem converse_two_parts :
    let seeded := Tables.seed ["home"] 0
    let filed := (seeded.createEntry 2 "f" false 0).2
    let tables := ((filed.addPart 3 0 ⟨#[1, 2]⟩).2.addPart 3 2 ⟨#[3, 4, 5]⟩).2
    let store := Session.opened { cacheEntries := 0 } false tables
    ∃ reader : Reader,
      OpenedOn store reader ∧
        reader.converse
            [⟨store, none, .read 3⟩, ⟨store, none, .readAt 1 2⟩, ⟨store, none, .seek (.stop 1)⟩,
              ⟨store, none, .seek (.current (-2))⟩, ⟨store, none, .readAll⟩] =
          [(.ok (.bytes ⟨#[1, 2, 3]⟩), 3), (.ok (.bytes ⟨#[2, 3]⟩), 3), (.error .endOfStream, 3),
            (.ok (.place 1), 1), (.ok (.bytes ⟨#[2, 3, 4, 5]⟩), 5)] ∧
        ∃ data,
          ((Store.copyOut "home/f" (fun taken data => .ok (taken ++ data)) .empty).runOn store).1 =
              .ok data ∧
            reader.converse [⟨store, none, .readAll⟩] =
              [(.ok (.bytes data), (data.size : Int))] := by
  intro seeded filed tables store
  let parts : List Part := [⟨1, 3, 0, 2, ⟨#[1, 2]⟩⟩, ⟨2, 3, 2, 3, ⟨#[3, 4, 5]⟩⟩]
  have isParts : store.tables.partsOf 3 = parts := by
    have pieces : store.tables.pieces 3 = parts := by decide
    have inOrder : parts.Pairwise fun first second => Tables.offsetLe first second = true := by
      decide
    rw [Tables.partsOf, show store.tables.parts.filter (·.fileId == 3) = parts from pieces]
    exact List.mergeSort_of_pairwise inOrder
  have offers : store.Offers 3 parts :=
    ⟨⟨Session.Sound.steady_opened _ _ _, rfl, rfl⟩, isParts, by decide⟩
  have contiguous : Contiguous 0 parts := ⟨rfl, rfl, rfl, rfl, trivial⟩
  have isOpened :
      ((openPath "home/f").runOn store).1.toOption.map (fun reader => reader.entry.id) = some 3 := by
    decide
  obtain ⟨reader, isSome, isFile⟩ := Option.map_eq_some_iff.mp isOpened
  have isReader := eq_ok_of_toOption isSome
  rw [← isFile] at offers
  obtain ⟨answers, copied⟩ :=
    @converse_eq_cursor parts reader store
      [⟨store, none, .read 3⟩, ⟨store, none, .readAt 1 2⟩, ⟨store, none, .seek (.stop 1)⟩,
        ⟨store, none, .seek (.current (-2))⟩, ⟨store, none, .readAll⟩]
      (.inl ⟨"home/f", isReader⟩) offers contiguous (by simpa using offers)
      (by simp [Request.Fits])
  have isThere :
      ((CleanPath.ofText "home/f").toOption.bind fun path =>
        (store.tables.lookupAt? path).map fun entry => (entry.id, entry.isDirectory)) =
          some (3, false) := by
    decide
  obtain ⟨path, isPath, isEntry⟩ := Option.bind_eq_some_iff.mp isThere
  obtain ⟨entry, found, isRow⟩ := Option.map_eq_some_iff.mp isEntry
  obtain ⟨sameFile, notDirectory⟩ := Prod.mk.inj isRow
  have lent : store.locks.lock? entry.id false ≠ none := by
    rw [sameFile]
    decide
  obtain ⟨data, isCopy, whole⟩ :=
    copied store "home/f" path entry offers (eq_ok_of_toOption isPath) found (sameFile.trans isFile.symm) notDirectory
      lent
  refine ⟨reader, .inl ⟨"home/f", isReader⟩, answers.trans ?_, data, isCopy,
    whole ⟨store, none, .readAll⟩ rfl offers⟩
  decide

end Reader

end VersionStore
