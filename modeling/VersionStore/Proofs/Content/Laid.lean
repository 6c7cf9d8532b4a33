import VersionStore.Source
import VersionStore.Tables.Parts
import VersionStore.Tables.Seed
import Mathlib.Data.List.Nodup

namespace VersionStore

/-!
# How the parts of a file lie

The parts of a file lie one behind the other from its beginning. All but the last are full,
and none is empty. Together they are the bytes of the file, which its row gives the length
and perhaps the checksum of.
-/

/-! ## Runs of bytes -/

/-- Byte strings one behind the other. -/
def joined : List ByteArray → ByteArray
  | [] => .empty
  | data :: rest => data ++ joined rest

theorem joined_append
    (first second : List ByteArray) :
    joined (first ++ second) = joined first ++ joined second := by
  induction first with
  | nil =>
      simp [joined]
  | cons data rest inductionHypothesis =>
      simp [joined, inductionHypothesis, ByteArray.append_assoc]

/-- Cutting bytes up leaves them in their order, in full runs and a rest that is shorter. -/
theorem cutEvery_spec
    (size : Nat)
    (positive : 0 < size)
    (data : ByteArray) :
    joined (cutEvery size positive data).1 ++ (cutEvery size positive data).2 = data ∧
      (∀ run ∈ (cutEvery size positive data).1, run.size = size) ∧
        (cutEvery size positive data).2.size < size := by
  fun_induction cutEvery size positive data with
  | case1 data full cut inductionHypothesis =>
      obtain ⟨whole, sizes, short⟩ := inductionHypothesis
      refine ⟨?_, ?_, short⟩
      · have halves :
            data.extract 0 data.size = data.extract 0 size ++ data.extract size data.size :=
          ByteArray.extract_eq_extract_append_extract size (by omega) full
        rw [ByteArray.extract_zero_size] at halves
        simp only [joined, ByteArray.append_assoc]
        rw [whole, ← halves]
      · intro run member
        rcases List.mem_cons.mp member with rfl | later
        · rw [ByteArray.size_extract]
          omega
        · exact sizes run later
  | case2 data short =>
      exact ⟨by simp [joined], by simp, Nat.lt_of_not_le short⟩

/-! ## Parts in a row -/

/-- The bytes of some parts. -/
def bytesOf (parts : List Part) : ByteArray :=
  joined (parts.map (·.data))

/-- A part lies at a place and holds no more bytes than fit, but some. -/
structure Part.Fills (part : Part) (place : Int) : Prop where
  offset : part.offset = place
  length : part.length = part.data.size
  size_pos : 0 < part.data.size
  size_le : part.data.size ≤ partSize

/-- Parts lie one behind the other from a place on, all of them full but the last. -/
def LaidFrom (place : Int) : List Part → Prop
  | [] => True
  | part :: rest =>
      part.Fills place ∧ (rest ≠ [] → part.data.size = partSize) ∧
        LaidFrom (place + part.data.size) rest

variable {place : Int} {parts : List Part} {last : Part}

theorem bytesOf_append
    (first second : List Part) :
    bytesOf (first ++ second) = bytesOf first ++ bytesOf second := by
  simp [bytesOf, joined_append]

theorem bytesOf_cons
    (part : Part)
    (rest : List Part) :
    bytesOf (part :: rest) = part.data ++ bytesOf rest :=
  rfl

@[simp] theorem bytesOf_singleton
    (part : Part) :
    bytesOf [part] = part.data := by
  simp [bytesOf, joined]

/-- A part may follow parts that are all full. -/
theorem laidFrom_concat_iff :
    LaidFrom place (parts ++ [last]) ↔
      LaidFrom place parts ∧ (∀ part ∈ parts, part.data.size = partSize) ∧
        last.Fills (place + (bytesOf parts).size) := by
  induction parts generalizing place with
  | nil =>
      simp [LaidFrom, bytesOf, joined]
  | cons part rest inductionHypothesis =>
      have size : ((bytesOf (part :: rest)).size : Int) = part.data.size + (bytesOf rest).size := by
        simp [bytesOf, joined]
      rw [size, List.cons_append, LaidFrom, LaidFrom, inductionHypothesis, ← Int.add_assoc]
      constructor
      · rintro ⟨fills, full, laid, allFull, isLast⟩
        have full := full (by simp)
        exact ⟨⟨fills, fun _ => full, laid⟩, by simpa using ⟨full, allFull⟩, isLast⟩
      · rintro ⟨⟨fills, -, laid⟩, allFull, isLast⟩
        simp only [List.mem_cons, forall_eq_or_imp] at allFull
        exact ⟨fills, fun _ => allFull.1, laid, allFull.2, isLast⟩

theorem LaidFrom.le_offset
    (laid : LaidFrom place parts) :
    ∀ part ∈ parts, place ≤ part.offset := by
  induction parts generalizing place with
  | nil =>
      simp
  | cons part rest inductionHypothesis =>
      intro other member
      obtain ⟨fills, -, behind⟩ := laid
      rcases List.mem_cons.mp member with rfl | later
      · exact Int.le_of_eq fills.offset.symm
      · have further := inductionHypothesis behind other later
        omega

/-- Parts in a row are in the order of their places. -/
theorem LaidFrom.pairwise_offsetLe
    (laid : LaidFrom place parts) :
    parts.Pairwise fun first second => Tables.offsetLe first second = true := by
  induction parts generalizing place with
  | nil =>
      exact .nil
  | cons part rest inductionHypothesis =>
      obtain ⟨fills, -, behind⟩ := laid
      refine .cons (fun other member => ?_) (inductionHypothesis behind)
      have further := behind.le_offset other member
      have here := fills.offset
      simp only [Tables.offsetLe, decide_eq_true_eq]
      omega

/-- A part without what tells it apart from its copies. -/
def Part.bare (part : Part) : Part :=
  { part with id := 0, fileId := 0 }

theorem bytesOf_map_bare
    (parts : List Part) :
    bytesOf (parts.map Part.bare) = bytesOf parts := by
  rw [bytesOf, List.map_map]
  rfl

/-- Copies lie as the parts that they are copies of. -/
theorem laidFrom_map_bare_iff :
    LaidFrom place (parts.map Part.bare) ↔ LaidFrom place parts := by
  induction parts generalizing place with
  | nil =>
      exact Iff.rfl
  | cons part rest inductionHypothesis =>
      have fills : part.bare.Fills place ↔ part.Fills place :=
        ⟨fun fills => ⟨fills.offset, fills.length, fills.size_pos, fills.size_le⟩,
          fun fills => ⟨fills.offset, fills.length, fills.size_pos, fills.size_le⟩⟩
      rw [List.map_cons, LaidFrom, LaidFrom, fills, ← inductionHypothesis]
      simp [Part.bare]

namespace Tables

variable {tables : Tables} {id : Int}

/-- The parts of a file in the order in which they were stored. -/
def pieces (tables : Tables) (id : Int) : List Part :=
  tables.parts.filter (·.fileId == id)

theorem mem_pieces_iff
    {part : Part} :
    part ∈ tables.pieces id ↔ part ∈ tables.parts ∧ part.fileId = id := by
  simp [pieces]

/-- Parts that lie in a row were stored in the order of their places. -/
theorem partsOf_eq_pieces
    (laid : LaidFrom place (tables.pieces id)) :
    tables.partsOf id = tables.pieces id :=
  List.mergeSort_of_pairwise laid.pairwise_offsetLe

/-- The row of an entry says what its parts come to: they lie in a row from the beginning, their
bytes have the length and the checksum that are recorded, and a directory has none. -/
structure Stored (tables : Tables) (entry : Entry) : Prop where
  laid : LaidFrom 0 (tables.pieces entry.id)
  length : entry.length = (bytesOf (tables.pieces entry.id)).size
  checksum :
    ∀ checksum,
      entry.checksum = some checksum →
      checksum = Checksum.ofData (bytesOf (tables.pieces entry.id))
  bare : entry.isDirectory = true → tables.pieces entry.id = []

/-- The ids of parts were given in order, each once. -/
structure Ordered (tables : Tables) : Prop where
  parts : (tables.parts.map (·.id)).Pairwise (· < ·)
  part_le : ∀ part ∈ tables.parts, part.id ≤ tables.lastPartId

/-- The ids of parts and entries were given in order. -/
structure Numbered (tables : Tables) : Prop extends tables.Ordered where
  file_le : ∀ part ∈ tables.parts, part.fileId ≤ tables.lastEntryId
  entry_le : ∀ entry ∈ tables.entries, entry.id ≤ tables.lastEntryId

/-- A new store holds no parts and no links. -/
theorem bare_seed
    (roots : List String)
    (now : Int) :
    (seed roots now).parts = [] ∧ (seed roots now).targets = [] ∧ (seed roots now).links = [] := by
  have along :
      ∀ (names : List String) (tables : Tables) (id : Int),
        (tables.seedFrom id now names).parts = tables.parts ∧
          (tables.seedFrom id now names).targets = tables.targets ∧
            (tables.seedFrom id now names).links = tables.links := by
    intro names
    induction names with
    | nil =>
        intro tables id
        exact ⟨rfl, rfl, rfl⟩
    | cons name rest inductionHypothesis =>
        intro tables id
        exact inductionHypothesis _ _
  exact along _ _ _

namespace Ordered

theorem part_eq
    (ordered : tables.Ordered)
    {first second : Part}
    (firstMember : first ∈ tables.parts)
    (secondMember : second ∈ tables.parts)
    (same : first.id = second.id) :
    first = second := by
  have apart : (tables.parts.map (·.id)).Nodup :=
    ordered.parts.imp Int.ne_of_lt
  exact List.inj_on_of_nodup_map apart firstMember secondMember same

/-- A part is found by its id. -/
theorem content?_eq
    (ordered : tables.Ordered)
    {part : Part}
    (member : part ∈ tables.parts) :
    tables.content? part.id = some part.content := by
  unfold content?
  cases found : tables.parts.find? (·.id == part.id) with
  | none =>
      have missing := List.find?_eq_none.mp found part member
      simp at missing
  | some other =>
      have same : other.id = part.id := by
        simpa using List.find?_some found
      rw [ordered.part_eq (List.mem_of_find?_eq_some found) member same]
      rfl

/-- The contents of a file are those of its parts. -/
theorem contents_eq_map
    (ordered : tables.Ordered)
    (id : Int) :
    tables.contents id = (tables.partsOf id).map Part.content := by
  have found :
      ∀ part ∈ tables.partsOf id,
        tables.content? part.extent.id = some part.content := by
    intro part member
    have isPiece : part ∈ tables.pieces id := by
      simpa [partsOf, pieces] using member
    exact ordered.content?_eq (mem_pieces_iff.mp isPiece).1
  rw [contents, extents, List.filterMap_map]
  calc
    (tables.partsOf id).filterMap (fun part => tables.content? part.extent.id) =
        (tables.partsOf id).filterMap fun part => some part.content :=
      List.filterMap_congr found
    _ = (tables.partsOf id).map Part.content :=
      congrFun List.filterMap_eq_map' _

/-- The contents of a file are read from its parts alone. -/
theorem contents_congr
    {after : Tables}
    (orderedAfter : after.Ordered)
    (ordered : tables.Ordered)
    (same : after.pieces id = tables.pieces id) :
    after.contents id = tables.contents id := by
  rw [orderedAfter.contents_eq_map, ordered.contents_eq_map]
  unfold pieces at same
  rw [partsOf, partsOf, same]

/-- The contents of a file whose parts lie in a row. -/
theorem contents_eq
    (ordered : tables.Ordered)
    (laid : LaidFrom place (tables.pieces id)) :
    tables.contents id = (tables.pieces id).map Part.content := by
  rw [ordered.contents_eq_map, partsOf_eq_pieces laid]

end Ordered

namespace Numbered

/-- No part belongs to a file whose id was not given yet. -/
theorem pieces_eq_nil
    (numbered : tables.Numbered)
    (fresh : tables.lastEntryId < id) :
    tables.pieces id = [] := by
  rw [pieces, List.filter_eq_nil_iff]
  intro part member isPiece
  have given := numbered.file_le part member
  have same : part.fileId = id := by simpa using isPiece
  omega

end Numbered

end Tables

end VersionStore
