import VersionStore.Proofs.Content.Laid
import VersionStore.Stream.Reader

namespace VersionStore

/-!
# Parts one behind the other

Parts may lie one behind the other whatever their sizes are. Every place within their bytes
is within one of them, and the search for the extent that holds it finds that one.
-/

/-- Parts lie one behind the other from a place on, and their rows have their lengths. -/
def Contiguous (place : Int) : List Part → Prop
  | [] => True
  | part :: rest =>
      part.offset = place ∧ part.length = part.data.size ∧
        Contiguous (place + part.data.size) rest

/-- Parts in a row lie one behind the other. -/
theorem LaidFrom.contiguous
    {place : Int}
    {parts : List Part}
    (laid : LaidFrom place parts) :
    Contiguous place parts := by
  induction parts generalizing place with
  | nil =>
      trivial
  | cons part rest inductionHypothesis =>
      obtain ⟨fills, -, behind⟩ := laid
      exact ⟨fills.offset, fills.length, inductionHypothesis behind⟩

namespace Contiguous

variable
  {place : Int}
  {parts before behind : List Part}
  {part : Part}

/-- A part begins behind the bytes of those before it. -/
theorem place_eq
    (contiguous : Contiguous place (before ++ part :: behind)) :
    part.offset = place + (bytesOf before).size ∧ part.length = part.data.size := by
  induction before generalizing place with
  | nil =>
      refine ⟨contiguous.1.trans ?_, contiguous.2.1⟩
      simp [bytesOf, joined]
  | cons first before inductionHypothesis =>
      obtain ⟨offset, length⟩ := inductionHypothesis contiguous.2.2
      refine ⟨offset.trans ?_, length⟩
      rw [bytesOf_cons, ByteArray.size_append]
      omega

/-- A part ends behind its bytes and those before it. -/
theorem stop
    (contiguous : Contiguous place (before ++ part :: behind)) :
    part.extent.stop = place + (bytesOf (before ++ [part])).size := by
  obtain ⟨offset, length⟩ := contiguous.place_eq
  rw [bytesOf_append, bytesOf_singleton, ByteArray.size_append]
  change part.offset + part.length = _
  omega

/-- What is behind the last part is behind all bytes. -/
theorem lengthOf
    (contiguous : Contiguous 0 parts) :
    Reader.lengthOf (parts.map Part.extent) = (bytesOf parts).size := by
  unfold Reader.lengthOf
  rw [List.getLast?_map]
  cases last : parts.getLast? with
  | none =>
      rw [List.getLast?_eq_none_iff.mp last]
      rfl
  | some part =>
      obtain ⟨before, rfl⟩ := List.getLast?_eq_some_iff.mp last
      have stop := @stop 0 before [] part contiguous
      rw [Int.zero_add] at stop
      exact stop

end Contiguous

/-- Every place within the bytes of some parts is within one of them. -/
theorem exists_part_at
    (parts : List Part)
    {position : Nat}
    (within : position < (bytesOf parts).size) :
    ∃ before part behind,
      parts = before ++ part :: behind ∧
        (bytesOf before).size ≤ position ∧
          position < (bytesOf before).size + part.data.size := by
  induction parts generalizing position with
  | nil =>
      exact absurd within (Nat.not_lt_zero _)
  | cons part rest inductionHypothesis =>
      by_cases here : position < part.data.size
      · exact ⟨[], part, rest, rfl, Nat.zero_le _, by simpa [bytesOf, joined] using here⟩
      · rw [bytesOf_cons, ByteArray.size_append] at within
        obtain ⟨before, found, behind, rfl, behindBefore, inside⟩ :=
          @inductionHypothesis (position - part.data.size) (by omega)
        refine ⟨part :: before, found, behind, rfl, ?_⟩
        rw [bytesOf_cons, ByteArray.size_append]
        omega

/-- Bytes within one part are those of the part. -/
theorem extract_bytesOf
    {before behind : List Part}
    {part : Part}
    {start count : Nat}
    (fits : start + count ≤ part.data.size) :
    (bytesOf (before ++ part :: behind)).extract ((bytesOf before).size + start)
        ((bytesOf before).size + start + count) =
      part.data.extract start (start + count) := by
  have nothing : (bytesOf behind).extract (start - part.data.size)
      (start + count - part.data.size) = .empty := by
    rw [ByteArray.extract_eq_empty_iff]
    omega
  rw [bytesOf_append, bytesOf_cons, Nat.add_assoc, ByteArray.extract_append_size_add, ByteArray.extract_append, nothing,
    ByteArray.append_empty]

/-! ## The search for an extent -/

namespace Reader

variable {parts before behind : List Part} {part : Part}

/-- More parts in front have no fewer bytes. -/
theorem size_bytesOf_take_le
    (parts : List Part)
    {i j : Nat}
    (le : i ≤ j) :
    (bytesOf (parts.take i)).size ≤ (bytesOf (parts.take j)).size := by
  obtain ⟨more, rfl⟩ := Nat.exists_eq_add_of_le le
  rw [List.take_add, bytesOf_append, ByteArray.size_append]
  omega

/-- The extent at an index ends in front of a position. -/
def ended (extents : List Extent) (position : Int) (index : Nat) : Bool :=
  extents[index]?.any fun extent => extent.stop ≤ position

/-- Parts that lie one behind the other end in front of a position exactly as far as their bytes
do. -/
theorem ended_iff
    (contiguous : Contiguous 0 parts)
    (position index : Nat) :
    ended (parts.map Part.extent) position index = true ↔
      index < parts.length ∧ (bytesOf (parts.take (index + 1))).size ≤ position := by
  rw [ended, List.getElem?_map]
  cases found : parts[index]? with
  | none =>
      have outside := List.getElem?_eq_none_iff.mp found
      simp only [Option.map_none, Option.any_none, Bool.false_eq_true, false_iff, not_and]
      omega
  | some part =>
      obtain ⟨inside, isPart⟩ := List.getElem?_eq_some_iff.mp found
      have split : parts = parts.take index ++ part :: parts.drop (index + 1) := by
        rw [← isPart, List.getElem_cons_drop, List.take_append_drop]
      have upTo : parts.take index ++ [part] = parts.take (index + 1) := by
        rw [← isPart]
        exact (List.take_succ_eq_append_getElem inside).symm
      have stop := Contiguous.stop (split ▸ contiguous)
      rw [upTo] at stop
      simp only [Option.map_some, Option.any_some, decide_eq_true_eq, stop]
      omega

/-- The search for the end of the extents in front of a position stops at the part that the
position is in. -/
theorem boundary_ended
    (contiguous : Contiguous 0 (before ++ part :: behind))
    {position : Nat}
    (behindBefore : (bytesOf before).size ≤ position)
    (inside : position < (bytesOf before).size + part.data.size) :
    boundary (ended ((before ++ part :: behind).map Part.extent) position) 0
        (before ++ part :: behind).length =
      before.length := by
  have isEnded := ended_iff contiguous position
  have closed :
      ∀ i j,
        i ≤ j →
        ended ((before ++ part :: behind).map Part.extent) position j = true →
        ended ((before ++ part :: behind).map Part.extent) position i = true := by
    intro i j le laterEnded
    rw [isEnded] at laterEnded ⊢
    have shorter := size_bytesOf_take_le (before ++ part :: behind) (Nat.add_le_add_right le 1)
    omega
  have total : (before ++ part :: behind).length = before.length + (behind.length + 1) := by
    simp
  have search (index : Nat) (listed : index < 0 + (before ++ part :: behind).length) :=
    @lt_boundary_iff _ closed _ _ _ (Nat.zero_le index) listed
  apply Nat.le_antisymm
  · -- The part itself does not end in front of the position.
    by_contra further
    have partEnded := (search before.length (by omega)).mp (Nat.lt_of_not_le further)
    rw [isEnded, List.take_length_add_append] at partEnded
    have stop := partEnded.2
    rw [show (part :: behind).take 1 = [part] from rfl, bytesOf_append, bytesOf_singleton,
      ByteArray.size_append] at stop
    omega
  · -- All parts before it do.
    by_contra shorter
    refine Nat.lt_irrefl _ ((search _ (by omega)).mpr ?_)
    refine (isEnded _).mpr ⟨by omega, ?_⟩
    rw [List.take_append_of_le_length (by omega)]
    have most := size_bytesOf_take_le before (Nat.lt_of_not_le shorter)
    rw [List.take_length] at most
    exact Nat.le_trans most behindBefore

end Reader

end VersionStore
