import Mathlib.Data.List.TakeWhile
import VersionStore.Proofs.Content.Copying

namespace VersionStore

/-!
# Parts in the order of their places

The parts of a file are read in the order of their places, and where places are the same in the
order in which they were stored. A part that lies behind all others comes last, and other bytes in
a part leave it where it was. Nothing is said of how the parts lie otherwise: they may leave gaps,
or lie on top of each other.
-/

/-- Only the front of a list is taken when only the front is asked for. -/
theorem takeWhile_append_of_front
    {keeps : α → Bool}
    {front back : List α}
    (isFront : ∀ row ∈ front, keeps row = true)
    (isBack : ∀ row ∈ back, keeps row = false) :
    (front ++ back).takeWhile keeps = front := by
  rw [List.takeWhile_append_of_pos isFront]
  cases back with
  | nil =>
      simp
  | cons next others =>
      simp [isBack next (by simp)]

/-- A stable sort leaves what is not less than anything at the end. -/
theorem mergeSort_concat
    {le : α → α → Bool}
    (trans : ∀ first second third, le first second → le second third → le first third)
    (total : ∀ first second, (le first second || le second first) = true)
    {rows : List α}
    {last : α}
    (greatest : ∀ row ∈ rows, le row last = true) :
    (rows ++ [last]).mergeSort le = rows.mergeSort le ++ [last] := by
  induction rows with
  | nil =>
      simp
  | cons first rest inductionHypothesis =>
      obtain ⟨before, behind, whole, isRest, isLower⟩ := List.mergeSort_cons trans total first rest
      obtain ⟨before', behind', whole', isRest', isLower'⟩ :=
        List.mergeSort_cons trans total first (rest ++ [last])
      have same : before' ++ behind' = before ++ (behind ++ [last]) := by
        rw [← isRest', inductionHypothesis fun row member => greatest row (by simp [member]), isRest,
          List.append_assoc]
      have isHigher {sorted before behind : List α}
          (whole : sorted.mergeSort le = before ++ first :: behind) :
          ∀ row ∈ behind, (!le first row) = false := by
        have inOrder := List.pairwise_mergeSort trans total sorted
        rw [whole, List.pairwise_append, List.pairwise_cons] at inOrder
        intro row member
        rw [inOrder.2.1.1 row member]
        rfl
      -- What comes before the first row is what is lower than it, in both lists.
      have front : before' = before := by
        rw [← takeWhile_append_of_front isLower' (isHigher whole'), same]
        refine takeWhile_append_of_front isLower fun row member => ?_
        rcases List.mem_append.mp member with member | member
        · exact isHigher whole row member
        · rw [List.mem_singleton.mp member, greatest first (by simp)]
          rfl
      rw [List.cons_append, whole', whole, List.append_assoc]
      rw [front] at same ⊢
      rw [List.append_cancel_left same]
      rfl

namespace Tables

variable
  {tables : Tables}
  {file place : Int}
  {data : ByteArray}

theorem offsetLe_trans
    (first second third : Part)
    (lower : offsetLe first second = true)
    (higher : offsetLe second third = true) :
    offsetLe first third = true := by
  simp only [offsetLe, decide_eq_true_eq] at lower higher ⊢
  omega

theorem offsetLe_total
    (first second : Part) :
    (offsetLe first second || offsetLe second first) = true := by
  simp only [offsetLe, Bool.or_eq_true, decide_eq_true_eq]
  omega

/-- Parts are read in the order of their places. -/
theorem pairwise_partsOf
    (tables : Tables)
    (file : Int) :
    (tables.partsOf file).Pairwise fun first second => offsetLe first second = true :=
  List.pairwise_mergeSort offsetLe_trans offsetLe_total _

theorem mem_partsOf_iff
    {part : Part} :
    part ∈ tables.partsOf file ↔ part ∈ tables.parts ∧ part.fileId = file := by
  simp [partsOf]

/-- A part that is stored behind all others is read last. -/
theorem partsOf_addPart
    (behind : ∀ part ∈ tables.partsOf file, part.offset ≤ place) :
    (tables.addPart file place data).2.partsOf file =
      tables.partsOf file ++ [⟨tables.lastPartId + 1, file, place, data.size, data⟩] := by
  change ((tables.addPart file place data).2.pieces file).mergeSort offsetLe = _
  rw [addPart, Carries.pieces_concat, if_pos rfl]
  exact mergeSort_concat offsetLe_trans offsetLe_total fun part member =>
    decide_eq_true (behind part (mem_partsOf_iff.mpr (mem_pieces_iff.mp member)))

/-- Putting other bytes into a part changes no part but this one. -/
theorem pieces_replacePart_eq
    (tables : Tables)
    (part : Int)
    (data : ByteArray)
    (file : Int) :
    (tables.replacePart part data).pieces file =
      (tables.pieces file).map fun other =>
        if other.id = part then { other with length := data.size, data } else other := by
  unfold pieces replacePart
  dsimp only
  rw [List.filter_map]
  congr 1
  refine List.filter_congr fun other _ => ?_
  dsimp only [Function.comp_apply]
  split <;> rfl

/-- Other bytes in a part leave it where it is read. -/
theorem partsOf_replacePart
    (tables : Tables)
    (part : Int)
    (data : ByteArray)
    (file : Int) :
    (tables.replacePart part data).partsOf file =
      (tables.partsOf file).map fun other =>
        if other.id = part then { other with length := data.size, data } else other := by
  change ((tables.replacePart part data).pieces file).mergeSort offsetLe = _
  rw [pieces_replacePart_eq]
  refine (List.map_mergeSort fun first _ second _ => ?_).symm
  unfold offsetLe
  split <;> split <;> rfl

end Tables

end VersionStore
