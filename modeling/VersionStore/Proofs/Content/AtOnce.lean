import Mathlib.Algebra.Order.Floor.Div
import VersionStore.Proofs.Action.Scopes
import VersionStore.Proofs.Content.Storing

namespace VersionStore

/-!
# Contents that are stored at once

How bytes are cut into parts depends on the bytes alone. A file whose parts lie in a row and
whose row has their length and checksum is therefore as it is when a source delivers all its
bytes to a new file, in whatever runs.
-/

/-- Where the parts of a file lie, and their bytes. -/
def Tables.rows (tables : Tables) (file : Int) : List (Int × ByteArray) :=
  (tables.partsOf file).map fun part => (part.offset, part.data)

/-- Equal bytes begin and go on equally when they are cut at the same place. -/
theorem append_inj_of_size
    {first second behind beyond : ByteArray}
    (same : first ++ behind = second ++ beyond)
    (size : first.size = second.size) :
    first = second ∧ behind = beyond := by
  have lists := congrArg (fun bytes : ByteArray => bytes.data.toList) same
  simp only [ByteArray.data_append, Array.toList_append] at lists
  obtain ⟨front, back⟩ := List.append_inj lists (by simpa using size)
  exact ⟨ByteArray.ext (Array.toList_inj.mp front), ByteArray.ext (Array.toList_inj.mp back)⟩

/-- Parts in a row with no bytes are none. -/
theorem LaidFrom.eq_nil
    {place : Int}
    {parts : List Part}
    (laid : LaidFrom place parts)
    (none_ : (bytesOf parts).size = 0) :
    parts = [] := by
  cases parts with
  | nil =>
      rfl
  | cons part rest =>
      rw [bytesOf_cons, ByteArray.size_append] at none_
      have some_ := laid.1.size_pos
      omega

/-- There is one way for bytes to lie in parts. -/
theorem rows_eq_of_laid
    {place : Int}
    {first second : List Part}
    (laidFirst : LaidFrom place first)
    (laidSecond : LaidFrom place second)
    (same : bytesOf first = bytesOf second) :
    first.map (fun part => (part.offset, part.data)) =
      second.map fun part => (part.offset, part.data) := by
  induction first generalizing place second with
  | nil =>
      rw [laidSecond.eq_nil (by rw [← same]; rfl)]
  | cons part rest inductionHypothesis =>
      cases second with
      | nil =>
          have none_ := laidFirst.eq_nil (by rw [same]; rfl)
          cases none_
      | cons other others =>
          obtain ⟨fills, full, behind⟩ := laidFirst
          obtain ⟨otherFills, otherFull, beyond⟩ := laidSecond
          rw [bytesOf_cons, bytesOf_cons] at same
          have total := congrArg ByteArray.size same
          rw [ByteArray.size_append, ByteArray.size_append] at total
          -- A part that is not the last is full, so that neither can be the longer one.
          have size : part.data.size = other.data.size := by
            have most := fills.size_le
            have otherMost := otherFills.size_le
            rcases List.eq_nil_or_concat rest with rfl | ⟨_, _, isRest⟩
            · have nothing : (bytesOf ([] : List Part)).size = 0 := rfl
              rcases List.eq_nil_or_concat others with rfl | ⟨_, _, isOthers⟩
              · omega
              · have isFull := otherFull (by simp [isOthers])
                omega
            · have isFull := full (by simp [isRest])
              rcases List.eq_nil_or_concat others with rfl | ⟨_, _, isOthers⟩
              · have nothing : (bytesOf ([] : List Part)).size = 0 := rfl
                omega
              · have otherIsFull := otherFull (by simp [isOthers])
                omega
          obtain ⟨sameData, sameRest⟩ := append_inj_of_size same size
          rw [List.map_cons, List.map_cons, fills.offset, otherFills.offset, sameData]
          rw [size] at behind
          rw [inductionHypothesis behind beyond sameRest]

/-- Bytes up to where they end are all bytes. -/
theorem extract_of_size_le
    {data : ByteArray}
    {stop : Nat}
    (within : data.size ≤ stop) :
    data.extract 0 stop = data := by
  have whole := @ByteArray.extract_append_extract data 0 data.size stop
  rw [ByteArray.extract_zero_size, Nat.zero_min, Nat.max_eq_right within,
    ByteArray.extract_eq_empty_iff.mpr (by omega), ByteArray.append_empty] at whole
  exact whole.symm

/-- Where the parts of some bytes lie from a place on, and what is in them. -/
def runsFrom (place : Int) (data : ByteArray) : List (Int × ByteArray) :=
  (List.range (data.size ⌈/⌉ partSize)).map fun index =>
    (place + (index * partSize : Nat), data.extract (index * partSize) ((index + 1) * partSize))

/-- A part more is needed for bytes before others, if it is full or no others come. -/
theorem ceilDiv_append
    {first second : ByteArray}
    (some_ : 0 < first.size)
    (fits : first.size ≤ partSize)
    (full : 0 < second.size → first.size = partSize) :
    (first ++ second).size ⌈/⌉ partSize = second.size ⌈/⌉ partSize + 1 := by
  have positive := partSize_pos
  rw [Nat.ceilDiv_eq_add_pred_div, Nat.ceilDiv_eq_add_pred_div, ByteArray.size_append]
  rcases Nat.eq_zero_or_pos second.size with none_ | more
  · rw [none_, Nat.div_eq_of_lt (by omega : 0 + partSize - 1 < partSize)]
    exact Nat.div_eq_of_lt_le (by omega) (by omega)
  · rw [full more, ← Nat.add_div_right _ positive]
    congr 1
    omega

/-- Parts in a row are cut where their bytes are. -/
theorem LaidFrom.rows_eq
    {place : Int}
    {parts : List Part}
    (laid : LaidFrom place parts) :
    parts.map (fun part => (part.offset, part.data)) = runsFrom place (bytesOf parts) := by
  induction parts generalizing place with
  | nil =>
      simp [runsFrom, bytesOf, joined]
  | cons part rest inductionHypothesis =>
      obtain ⟨fills, full, behind⟩ := laid
      have isFull (more : 0 < (bytesOf rest).size) : part.data.size = partSize := by
        refine full ?_
        rintro rfl
        exact Nat.lt_irrefl 0 more
      rw [List.map_cons, inductionHypothesis behind, runsFrom, runsFrom, bytesOf_cons,
        ceilDiv_append fills.size_pos fills.size_le isFull, List.range_succ_eq_map, List.map_cons,
        List.map_map]
      refine congrArg₂ List.cons ?_ (List.map_congr_left fun index member => ?_)
      · have none_ : ((0 : Nat) * partSize : Nat) = 0 := Nat.zero_mul _
        have once : (0 + 1) * partSize = partSize := by rw [Nat.zero_add, Nat.one_mul]
        have front : (part.data ++ bytesOf rest).extract 0 partSize = part.data := by
          rcases Nat.eq_zero_or_pos (bytesOf rest).size with empty | more
          · rw [ByteArray.size_eq_zero_iff.mp empty, ByteArray.append_empty,
              extract_of_size_le fills.size_le]
          · exact ByteArray.extract_append_eq_left (isFull more).symm
        rw [none_, once, front, fills.offset, Int.natCast_zero, Int.add_zero]
      · -- A part that comes behind another one comes behind a full one.
        have more : 0 < (bytesOf rest).size := by
          refine Nat.pos_of_ne_zero fun empty => ?_
          rw [empty, zero_ceilDiv] at member
          exact List.not_mem_nil member
        have starts : (index + 1) * partSize = part.data.size + index * partSize := by
          rw [Nat.succ_mul, isFull more, Nat.add_comm]
        have stops :
            (index + 1 + 1) * partSize = part.data.size + (index + 1) * partSize := by
          rw [Nat.succ_mul, isFull more, Nat.add_comm]
        change _ = (place + (((index + 1) * partSize : Nat) : Int),
          (part.data ++ bytesOf rest).extract ((index + 1) * partSize)
            ((index + 1 + 1) * partSize))
        rw [stops, starts, ByteArray.extract_append_size_add, Int.natCast_add, ← Int.add_assoc]

namespace Tables

/-- A file has the rows, the length and the checksum that storing some bytes at once gives a
file without parts, whatever source delivers them. -/
def AtOnce (tables : Tables) (file : Int) (data : ByteArray) : Prop :=
  ∃ entry checksum,
    tables.entry? file = some entry ∧ entry.checksum = some checksum ∧
      ∀ (store : Store) (id : Int) (source : Source),
        store.Steady →
        store.savepoints ≠ [] →
        store.tables.partsOf id = [] →
        source.bytes = data →
        source.failure? = none →
        ∃ left,
          (Txn.storeContent id source).runOn store = (.ok (entry.length, checksum), left) ∧
            left.tables.rows id = tables.rows file

/-- The parts of a file lie in a row and are some bytes, and its row has their length and
checksum. -/
structure Contains (tables : Tables) (file : Int) (data : ByteArray) : Prop where
  row :
    ∃ entry,
      tables.entry? file = some entry ∧
        entry.length = data.size ∧ entry.checksum = some (Checksum.ofData data)
  laid : LaidFrom 0 (tables.pieces file)
  bytes : bytesOf (tables.pieces file) = data

variable {tables after : Tables} {file : Int} {data : ByteArray}

/-- Parts in a row are listed in the order in which they were stored. -/
theorem rows_eq_map
    (laid : LaidFrom 0 (tables.pieces file)) :
    tables.rows file = (tables.pieces file).map fun part => (part.offset, part.data) := by
  rw [rows, partsOf_eq_pieces laid]

namespace Contains

/-- A file contains what it contained while its row and its parts stay. -/
theorem congr
    (contains : tables.Contains file data)
    (row : after.entry? file = tables.entry? file)
    (pieces : after.pieces file = tables.pieces file) :
    after.Contains file data := by
  obtain ⟨isRow, laid, bytes⟩ := contains
  exact ⟨by rw [row]; exact isRow, by rw [pieces]; exact laid, by rw [pieces]; exact bytes⟩

/-- A file whose row says what its parts in a row come to is as if it had been stored at once. -/
theorem atOnce
    (contains : tables.Contains file data) :
    tables.AtOnce file data := by
  obtain ⟨⟨entry, found, length, checksum⟩, laid, bytes⟩ := contains
  refine ⟨entry, _, found, checksum, fun store id source steady opened bare isData ends => ?_⟩
  have isBare : store.tables.pieces id = [] := by
    have none_ := congrArg List.length bare
    rw [partsOf, List.length_mergeSort] at none_
    exact List.eq_nil_of_length_eq_zero none_
  have works :=
    @Txn.storeContent_fills (store.setting fun _ => False) id (fun _ => True)
      (fun _ _ _ _ => trivial) source
  have filled : Txn.Filled (fun _ => True) id True .empty store.tables :=
    ⟨trivial, by rw [isBare]; trivial, by simp [isBare], by rw [isBare]; rfl⟩
  obtain ⟨-, ended⟩ := works store (steady.inScope opened .idle) filled
  rcases ran : (Txn.storeContent id source).runOn store with ⟨fault | stored, left⟩
  · rw [ran] at ended
    exact absurd ends ended
  · rw [ran] at ended
    obtain ⟨after, rfl⟩ := ended
    refine ⟨left, by rw [isData, length], ?_⟩
    rw [rows_eq_map laid, rows_eq_map after.laid]
    exact rows_eq_of_laid after.laid laid ((after.bytes.trans isData).trans bytes.symm)

end Contains

end Tables

end VersionStore
