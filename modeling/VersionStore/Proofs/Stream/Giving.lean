import VersionStore.Proofs.Content.AtOnce
import VersionStore.Proofs.Store.Resting
import VersionStore.Proofs.Stream.Storing

namespace VersionStore

/-!
# Contents that are given out

A file whose parts lie in a row is given out in three ways: it is copied out, a reader that is
opened on it reads it, and its record is compared with it. All three give the same bytes.
-/

open VersionStore.Action

namespace Tables

/-- A row says how long the bytes are that are stored for it, and what their checksum is. -/
def Records (tables : Tables) (row : Entry) : Prop :=
  row.length = (bytesOf (tables.partsOf row.id)).size ∧
    row.checksum = some (Checksum.ofData (bytesOf (tables.partsOf row.id)))

instance (tables : Tables) (row : Entry) : Decidable (tables.Records row) :=
  inferInstanceAs (Decidable (_ ∧ _))

end Tables

namespace Txn

variable {tables : Tables} {row : Entry}

/-- The bytes of a file are compared with what its row says of them. -/
theorem isIntact_iff
    (ordered : tables.Ordered) :
    isIntact row (tables.contents row.id) = true ↔ tables.Records row := by
  have total (parts : List Part) (before : Nat) :
      (parts.map Part.content).foldl (fun total content => total + content.size) before =
        before + (bytesOf parts).size := by
    induction parts generalizing before with
    | nil =>
        rfl
    | cons part rest inductionHypothesis =>
        rw [List.map_cons, List.foldl_cons, inductionHypothesis, bytesOf_cons,
          ByteArray.size_append, ← Nat.add_assoc]
        rfl
  rw [ordered.contents_eq_map]
  unfold isIntact
  dsimp only
  rw [total, Writer.foldl_update_content, Nat.zero_add, Bool.and_eq_true, beq_iff_eq, beq_iff_eq,
    eq_comm]
  exact Iff.rfl

/-- The contents of a file are as its row says. -/
theorem isIntact_of_contains
    {data : ByteArray}
    (contains : tables.Contains row.id data)
    (ordered : tables.Ordered)
    (found : tables.entry? row.id = some row) :
    isIntact row (tables.contents row.id) = true := by
  obtain ⟨⟨entry, isEntry, length, checksum⟩, laid, bytes⟩ := contains
  cases found.symm.trans isEntry
  rw [isIntact_iff ordered, Tables.Records, Tables.partsOf_eq_pieces laid, bytes]
  exact ⟨length, checksum⟩

end Txn

namespace Store

variable
  {store : Store}
  {text : String}
  {path : CleanPath}
  {entry : Entry}
  {data : ByteArray}

/-- The file at the path of a text is given out as some bytes: it is copied out as them, a reader
that is opened on it reads them, and answers as a cursor over them while they stay, and its
record agrees with them. -/
structure Gives (store : Store) (text : String) (data : ByteArray) : Prop where
  copied : ((copyOut text (fun taken data => .ok (taken ++ data)) .empty).runOn store).1 = .ok data
  read :
    ∃ reader left,
      (Reader.openPath text).runOn store = (.ok reader, left) ∧
        (Reader.readAll.runOn reader left).1 = .ok data ∧
          ∀ turns : List Reader.Turn,
            (∀ turn ∈ turns,
              turn.store.Idle ∧ turn.store.tables = store.tables ∧ turn.request.Fits) →
            reader.converse turns = Cursor.converse { bytes := data } (turns.map (·.request))
  verified : ((verify text).runOn store).1 = .ok true

/-- A file that is lent is given out as what it contains. -/
theorem Idle.gives
    (idle : store.Idle)
    (isPath : CleanPath.ofText text = .ok path)
    (here : store.tables.FileAt path entry)
    (contains : store.tables.Contains entry.id data)
    (row : store.tables.entry? entry.id = some entry)
    (ordered : store.tables.Ordered)
    (lent : store.locks.lock? entry.id false ≠ none) :
    store.Gives text data := by
  obtain ⟨⟨guard, locks⟩, given⟩ := Option.ne_none_iff_exists'.mp lent
  have laid := contains.laid
  have bytes := contains.bytes
  have offered {other : Store} (otherIdle : other.Idle) (same : other.tables = store.tables) :
      other.Offers entry.id (store.tables.pieces entry.id) := by
    refine ⟨otherIdle, ?_, ?_⟩
    · rw [same]
      exact Tables.partsOf_eq_pieces laid
    · rw [same]
      exact ordered.parts.imp fun less => Int.ne_of_lt less
  have offers := offered idle rfl
  obtain ⟨reader, opened, -, ready⟩ :=
    offers.openPath laid.contiguous isPath here.found here.isFile given
  refine ⟨?copied, ⟨reader, _, opened, ?read, fun turns found => ?answers⟩, ?verified⟩
  case copied =>
    rw [copyOut_of_offers offers isPath here.found here.isFile lent, bytes]
  case read =>
    have steady := (Reader.opened_openPath idle.toSteady text).steady
    rw [opened] at steady
    have left := offered ⟨steady, idle.outside, idle.opened⟩ rfl
    obtain ⟨_, _, _, ran, isAll, -⟩ :=
      Reader.readAll_yields laid.contiguous (Nat.zero_le _) reader _ { ready with offers := left }
    rw [ran, isAll, ByteArray.extract_zero_size, bytes]
  case answers =>
    rw [← bytes]
    exact ready.converse_eq laid.contiguous (Nat.zero_le _)
      (fun turn member => offered (found turn member).1 (found turn member).2.1)
      fun turn member => (found turn member).2.2
  case verified =>
    have alone : ({ store with entered := true, connected := true } : Store).Alone :=
      ⟨idle.damage, idle.writable, idle.others⟩
    rw [verify, runOn_bind, Txn.clean, runOn_ofExcept, isPath]
    dsimp only
    rw [runOn_reading idle, Txn.verifyAt, runOn_bind,
      idle.runOn_requireFile here.found here.isFile]
    dsimp only
    rw [runOn_query alone]
    exact congrArg Except.ok (Txn.isIntact_of_contains contains ordered row)

end Store

end VersionStore
