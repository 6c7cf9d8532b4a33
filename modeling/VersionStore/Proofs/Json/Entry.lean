import VersionStore.Json.Entry
import VersionStore.Proofs.Text.Hexadecimal

namespace VersionStore

/-!
# Trashed entries as data values and back

An entry is read from the fields of an object, the last one of each name. What is written for the
entry that was read has the same fields, with the checksum in lower case and the directory's
number filled in. So what was written is read back, and writing what was read changes nothing more.
-/

namespace Json

/-- The value of a field. Of several fields with one name the last one counts. -/
def field? (name : String) : Json → Option Json
  | obj fields => fields.reverse.lookup name
  | _ => none

/-! ## Kinds of values -/

/-- A number of sixty-four bits with a sign. -/
def Wide (number : Int) : Prop :=
  -2 ^ 63 ≤ number ∧ number < 2 ^ 63

/-- A checksum is null or sixty-four digits of either case. -/
inductive IsChecksum : Json → Prop where
  | null : IsChecksum null
  | digits {text : String}
      (allDigits : Hex.AllDigits text)
      (length : text.length = 64) :
      IsChecksum (str text)

/-- A text in lower case, and nothing in place of anything else. -/
def lowered? : Json → Option Json
  | str text => some (str (Hex.lowered text))
  | _ => none

/-- A number is read when it has at most sixty-four bits. -/
theorem asInt64_eq_ok_iff
    {value : Json}
    {number : Int} :
    value.asInt64 = .ok number ↔ value = int number ∧ Wide number := by
  have bounds (number : Int) :
      -(Int.pow 2 63) ≤ number ∧ number ≤ Int.pow 2 63 - 1 ↔ Wide number := by
    change -2 ^ 63 ≤ number ∧ number ≤ 2 ^ 63 - 1 ↔ -2 ^ 63 ≤ number ∧ number < 2 ^ 63
    omega
  cases value with
  | int whole =>
      rw [asInt64, asIntBetween, int.injEq]
      by_cases wide : Wide whole
      · rw [if_pos ((bounds whole).mpr wide), Except.ok.injEq]
        exact ⟨fun same => ⟨same, same ▸ wide⟩, And.left⟩
      · rw [if_neg (mt (bounds whole).mp wide)]
        exact iff_of_false nofun fun ⟨same, isWide⟩ => wide (same ▸ isWide)
  | _ =>
      exact iff_of_false nofun fun ⟨absurd, _⟩ => nomatch absurd

/-- A truth value is read. -/
theorem asBool_eq_ok_iff
    {value : Json}
    {truth : Bool} :
    value.asBool = .ok truth ↔ value = bool truth := by
  cases value with
  | bool other =>
      rw [asBool, Except.ok.injEq, bool.injEq]
  | _ =>
      exact iff_of_false nofun nofun

/-- A text is read. -/
theorem asString_eq_ok_iff
    {value : Json}
    {text : String} :
    value.asString = .ok text ↔ value = str text := by
  cases value with
  | str other =>
      rw [asString, asText, Except.ok.injEq, str.injEq]
  | _ =>
      exact iff_of_false nofun nofun

/-- What succeeds has a result. -/
theorem isOk_iff
    {result : Decoded α} :
    result.isOk = true ↔ ∃ value, result = .ok value := by
  cases result with
  | error fault =>
      exact iff_of_false nofun nofun
  | ok value =>
      exact iff_of_true rfl ⟨value, rfl⟩

/-- What is read before the rest is there when the rest is read. -/
theorem bind_eq_ok_iff
    {first : Decoded α}
    {next : α → Decoded β}
    {result : β} :
    (first >>= next) = .ok result ↔ ∃ value, first = .ok value ∧ next value = .ok result := by
  cases first with
  | error fault =>
      exact iff_of_false nofun fun ⟨_, absurd, _⟩ => nomatch absurd
  | ok value =>
      exact ⟨fun isNext => ⟨value, rfl, isNext⟩, fun ⟨_, same, isNext⟩ => by cases same; exact isNext⟩

/-- A checksum that is there is read from digits that are its own in lower case. -/
theorem asChecksum_eq_ok_iff
    {value : Json}
    {checksum : Checksum} :
    value.asChecksum = .ok checksum ↔
      ∃ text, value = str text ∧ Hex.AllDigits text ∧ checksum.toHex = Hex.lowered text := by
  have decodes (text : String) :
      (str text).asChecksum = .ok checksum ↔ Hex.decode text = .ok checksum.bytes := by
    rw [asChecksum, asString, asText]
    dsimp only [bind, Except.bind]
    cases Hex.decode text with
    | error fault =>
        exact iff_of_false (fun same => by cases same) (fun same => by cases same)
    | ok bytes =>
        dsimp only
        by_cases sized : bytes.size = 32
        · have isBytes : Checksum.ofBytes? bytes = some ⟨bytes, sized⟩ := dif_pos sized
          rw [isBytes]
          dsimp only [pure, Except.pure]
          rw [Except.ok.injEq, Except.ok.injEq, ← Checksum.mk.injEq _ _ _ checksum.size_eq]
        · have isNone : Checksum.ofBytes? bytes = none := dif_neg sized
          rw [isNone]
          exact iff_of_false (fun same => by cases same)
            fun same => sized (Except.ok.inj same ▸ checksum.size_eq)
  constructor
  · intro isChecksum
    obtain ⟨text, isText, -⟩ := bind_eq_ok_iff.mp isChecksum
    rw [asString_eq_ok_iff] at isText
    subst isText
    exact ⟨text, rfl, (Hex.decode_eq_ok_iff text _).mp ((decodes text).mp isChecksum)⟩
  · rintro ⟨text, rfl, isDigits⟩
    exact (decodes text).mpr ((Hex.decode_eq_ok_iff text _).mpr isDigits)

/-- A checksum has sixty-four digits. -/
theorem length_toHex
    (checksum : Checksum) :
    checksum.toHex.length = 64 := by
  rw [Checksum.toHex, Hex.length_encode, checksum.size_eq]

/-- A checksum field is read when it is null or has sixty-four digits of either case. -/
theorem asOptional_asChecksum_isOk_iff
    {value : Json} :
    (value.asOptional asChecksum).isOk = true ↔ IsChecksum value := by
  rw [isOk_iff]
  constructor
  · rintro ⟨checksum?, isRead⟩
    cases value with
    | null =>
        exact .null
    | _ =>
        obtain ⟨checksum, isChecksum, -⟩ := bind_eq_ok_iff.mp isRead
        obtain ⟨text, isText, allDigits, written⟩ := asChecksum_eq_ok_iff.mp isChecksum
        have length := congrArg String.length written
        rw [length_toHex, Hex.length_lowered] at length
        exact isText ▸ .digits allDigits length.symm
  · intro isChecksum
    cases isChecksum with
    | null =>
        exact ⟨none, rfl⟩
    | @digits text allDigits length =>
        obtain ⟨bytes, decoded, sized⟩ := @Hex.exists_decode text 32 allDigits length
        have isChecksum : (str text).asChecksum = .ok ⟨bytes, sized⟩ :=
          asChecksum_eq_ok_iff.mpr ⟨text, rfl, (Hex.decode_eq_ok_iff text bytes).mp decoded⟩
        exact ⟨some ⟨bytes, sized⟩, bind_eq_ok_iff.mpr ⟨_, isChecksum, rfl⟩⟩

/-- A checksum that was read is written in lower case. -/
theorem lowered?_of_asOptional
    {value : Json}
    {checksum? : Option Checksum}
    (isRead : value.asOptional asChecksum = .ok checksum?) :
    checksum?.map (fun checksum => str checksum.toHex) = lowered? value := by
  cases value with
  | null =>
      cases isRead
      rfl
  | _ =>
      obtain ⟨checksum, isChecksum, same⟩ := bind_eq_ok_iff.mp isRead
      cases same
      obtain ⟨text, isText, -, written⟩ := asChecksum_eq_ok_iff.mp isChecksum
      rw [isText, Option.map_some, written]
      rfl

end Json

namespace Entry

open Json

/-- What the value of a field has to be. -/
def Suits (field : String) (value : Json) : Prop :=
  match field with
  | "id" | "dir_id" | "last_modified" | "length" | "last_deleted" =>
      ∃ number, value = .int number ∧ Wide number
  | "name" => ∃ text, value = .str text
  | "is_dir" | "writable" | "is_deleted" => ∃ truth, value = .bool truth
  | "checksum" => IsChecksum value
  | _ => True

/-- What is written again for the value of a field. -/
def kept? (field : String) (value : Json) : Option Json :=
  if field = "checksum" then lowered? value
  else if field ∈ columns then some value
  else none

/-- A column is no other field. -/
theorem suits_of_notMem
    {field : String}
    {value : Json}
    (unknown : field ∉ columns) :
    Suits field value := by
  unfold Suits
  split <;> trivial

/-- Nothing is kept of other fields. -/
theorem kept?_of_notMem
    {field : String}
    {value : Json}
    (unknown : field ∉ columns) :
    kept? field value = none := by
  have other : field ≠ "checksum" := by
    rintro rfl
    exact unknown (by decide)
  rw [kept?, if_neg other, if_neg unknown]

namespace Draft

/-- The fields of what was read so far. -/
def field? (draft : Draft) (name : String) : Option Json :=
  match name with
  | "id" => draft.id.map .int
  | "dir_id" => draft.directoryId.map .int
  | "name" => draft.name.map .str
  | "is_dir" => draft.isDirectory.map .bool
  | "last_modified" => draft.lastModified.map .int
  | "length" => draft.length.map .int
  | "writable" => draft.writable.map .bool
  | "is_deleted" => draft.isDeleted.map .bool
  | "last_deleted" => draft.lastDeleted.map .int
  | "checksum" => draft.checksum.map fun checksum => .str checksum.toHex
  | _ => none

/-- Nothing is read of other fields. -/
theorem field?_of_notMem
    {draft : Draft}
    {name : String}
    (unknown : name ∉ columns) :
    draft.field? name = none := by
  unfold field?
  split <;> first | rfl | exact absurd (by decide) unknown

/-- A field is read when its value suits it, and then it is the one field that changes. -/
structure Reads (draft : Draft) (field : String) (suits : Prop) (kept : Option Json)
    (result : Decoded Draft) : Prop where
  isOk : result.isOk = true ↔ suits
  fields : ∀ next, result = .ok next →
    ∀ name, next.field? name = if name = field then kept else draft.field? name

/-- A field is read by reading its value and setting it. -/
theorem Reads.of_parse
    {draft : Draft}
    {field : String}
    {suits : Prop}
    {kept : Option Json}
    {parsed : Decoded α}
    {write : α → Option Json}
    (isOk : parsed.isOk = true ↔ suits)
    (writes : ∀ value, parsed = .ok value → write value = kept)
    {set : α → Draft}
    (here : ∀ value, (set value).field? field = write value)
    (others : ∀ value name, name ≠ field → (set value).field? name = draft.field? name) :
    Reads draft field suits kept (do return set (← parsed)) := by
  cases parsed with
  | error fault =>
      refine ⟨isOk, fun next isNext => ?_⟩
      cases isNext
  | ok value =>
      refine ⟨isOk, fun next isNext name => ?_⟩
      cases isNext
      by_cases same : name = field
      · rw [if_pos same, same, here, writes value rfl]
      · rw [if_neg same, others value name same]

section Kinds

variable
  {draft : Draft}
  {field : String}
  {value : Json}

/-- A number is read and set. -/
theorem Reads.number
    {set : Int → Draft}
    (here : ∀ number, (set number).field? field = some (.int number))
    (others : ∀ number name, name ≠ field → (set number).field? name = draft.field? name) :
    Reads draft field (∃ number, value = .int number ∧ Wide number) (some value)
      (do return set (← value.asInt64)) :=
  .of_parse (by simp only [isOk_iff, asInt64_eq_ok_iff])
    (fun _ isRead => congrArg some (asInt64_eq_ok_iff.mp isRead).1.symm) here others

/-- A truth value is read and set. -/
theorem Reads.truth
    {set : Bool → Draft}
    (here : ∀ truth, (set truth).field? field = some (.bool truth))
    (others : ∀ truth name, name ≠ field → (set truth).field? name = draft.field? name) :
    Reads draft field (∃ truth, value = .bool truth) (some value)
      (do return set (← value.asBool)) :=
  .of_parse (by simp only [isOk_iff, asBool_eq_ok_iff])
    (fun _ isRead => congrArg some (asBool_eq_ok_iff.mp isRead).symm) here others

/-- A text is read and set. -/
theorem Reads.text
    {set : String → Draft}
    (here : ∀ text, (set text).field? field = some (.str text))
    (others : ∀ text name, name ≠ field → (set text).field? name = draft.field? name) :
    Reads draft field (∃ text, value = .str text) (some value)
      (do return set (← value.asString)) :=
  .of_parse (by simp only [isOk_iff, asString_eq_ok_iff])
    (fun _ isRead => congrArg some (asString_eq_ok_iff.mp isRead).symm) here others

/-- A checksum is read and set. -/
theorem Reads.checksum
    {set : Option Checksum → Draft}
    (here : ∀ checksum? : Option Checksum,
      (set checksum?).field? field = checksum?.map fun checksum => .str checksum.toHex)
    (others : ∀ checksum? name, name ≠ field → (set checksum?).field? name = draft.field? name) :
    Reads draft field (IsChecksum value) (lowered? value)
      (do return set (← value.asOptional asChecksum)) :=
  .of_parse asOptional_asChecksum_isOk_iff (fun _ isRead => lowered?_of_asOptional isRead) here others

end Kinds

/-- Each field is read as one of its kind. -/
theorem reads_read
    (draft : Draft)
    (field : String)
    (value : Json) :
    Reads draft field (Suits field value) (kept? field value) (draft.read field value) := by
  unfold read
  split
  case h_1 | h_2 | h_5 | h_6 | h_9 =>
    refine .number (fun _ => rfl) fun number name other => ?_
    unfold field?
    split <;> first | rfl | contradiction
  case h_4 | h_7 | h_8 =>
    refine .truth (fun _ => rfl) fun truth name other => ?_
    unfold field?
    split <;> first | rfl | contradiction
  case h_3 =>
    refine .text (fun _ => rfl) fun text name other => ?_
    unfold field?
    split <;> first | rfl | contradiction
  case h_10 =>
    refine .checksum (fun _ => rfl) fun checksum? name other => ?_
    unfold field?
    split <;> first | rfl | contradiction
  case h_11 =>
    have unknown : field ∉ columns := by
      simp_all [columns]
    refine ⟨iff_of_true rfl (suits_of_notMem unknown), fun next isNext name => ?_⟩
    cases isNext
    split
    · rename_i same
      rw [same, field?_of_notMem unknown, kept?_of_notMem unknown]
    · rfl

/-- Nothing has been read at first. -/
theorem field?_empty
    (name : String) :
    ({} : Draft).field? name = none := by
  unfold field?
  split <;> rfl

/-- Fields are read when each of them suits, and each that was read last is kept. -/
theorem readAll_reads
    (draft : Draft)
    (fields : List (String × Json)) :
    ((draft.readAll fields).isOk = true ↔ ∀ field ∈ fields, Suits field.1 field.2) ∧
      ∀ next, draft.readAll fields = .ok next →
        ∀ name, next.field? name =
          ((fields.reverse.lookup name).map (kept? name)).getD (draft.field? name) := by
  induction fields generalizing draft with
  | nil =>
      refine ⟨iff_of_true rfl (List.forall_mem_nil _), fun next isNext name => ?_⟩
      cases isNext
      rfl
  | cons field rest inductionHypothesis =>
      obtain ⟨field, value⟩ := field
      have reads := reads_read draft field value
      have shape :
          draft.readAll ((field, value) :: rest) =
            draft.read field value >>= fun between => between.readAll rest := rfl
      rw [shape, List.forall_mem_cons, ← reads.isOk]
      cases isBetween : draft.read field value with
      | error fault =>
          refine ⟨iff_of_false nofun (fun ⟨absurd, _⟩ => nomatch absurd), fun next isNext => ?_⟩
          cases isNext
      | ok between =>
          obtain ⟨isOk, fields⟩ := inductionHypothesis between
          refine ⟨isOk.trans (and_iff_right rfl).symm, fun next isNext name => ?_⟩
          rw [fields next isNext name, reads.fields between isBetween name, List.reverse_cons,
            List.lookup_append]
          cases rest.reverse.lookup name with
          | some later =>
              rfl
          | none =>
              by_cases same : name = field
              · subst same
                simp
              · simp [List.lookup_cons, beq_false_of_ne same, same]

/-- The columns that have to be there. -/
def required : List String :=
  ["id", "name", "is_dir", "last_modified", "length", "writable", "is_deleted", "last_deleted"]

/-- What is there is taken for its column. -/
theorem column_eq_ok_iff
    {missing : Nat → String → Json.Fault}
    {position : Nat}
    {name : String}
    {found : Option α}
    {value : α} :
    column missing position name found = .ok value ↔ found = some value := by
  cases found with
  | none =>
      exact iff_of_false nofun nofun
  | some other =>
      rw [column, Except.ok.injEq, Option.some_inj]

end Draft

/-- A draft with all that an entry has. -/
def draft (entry : Entry) : Draft where
  id := some entry.id
  directoryId := some entry.directoryId
  name := some entry.name
  isDirectory := some entry.isDirectory
  lastModified := some entry.lastModified
  length := some entry.length
  writable := some entry.writable
  isDeleted := some entry.isDeleted
  lastDeleted := some entry.lastDeleted
  checksum := entry.checksum

namespace Draft

/-- A draft is finished when it has all but the directory's number, which is filled in. -/
theorem finish_eq_ok_iff
    {missing : Nat → String → Json.Fault}
    {draft : Draft}
    {entry : Entry} :
    draft.finish missing = .ok entry ↔
      entry.draft = { draft with directoryId := some (draft.directoryId.getD 0) } := by
  constructor
  · intro isEntry
    simp only [finish, bind_eq_ok_iff, column_eq_ok_iff] at isEntry
    obtain ⟨_, hasId, _, hasName, _, hasKind, _, hasModified, _, hasLength, _, hasWritable, _,
      hasDeleted, _, hasDeletion, same⟩ := isEntry
    cases same
    cases draft
    simp_all [Entry.draft]
  · intro same
    obtain ⟨id, directoryId, name, isDirectory, lastModified, length, writable, isDeleted,
      lastDeleted, checksum⟩ := draft
    cases entry
    simp only [Entry.draft, Draft.mk.injEq, Option.some_inj] at same
    obtain ⟨rfl, rfl, rfl, rfl, rfl, rfl, rfl, rfl, rfl, rfl⟩ := same
    rfl

/-- A draft is finished when it has what has to be there. -/
theorem finish_isOk_iff
    (missing : Nat → String → Json.Fault)
    (draft : Draft) :
    (draft.finish missing).isOk = true ↔ ∀ name ∈ required, (draft.field? name).isSome := by
  constructor
  · intro isOk
    obtain ⟨entry, isEntry⟩ := isOk_iff.mp isOk
    have same := finish_eq_ok_iff.mp isEntry
    cases draft
    simp only [Entry.draft, Draft.mk.injEq] at same
    obtain ⟨rfl, -, rfl, rfl, rfl, rfl, rfl, rfl, rfl, rfl⟩ := same
    simp [required, field?]
  · intro complete
    obtain ⟨id, directoryId, name, isDirectory, lastModified, length, writable, isDeleted,
      lastDeleted, checksum⟩ := draft
    simp only [required, List.forall_mem_cons, field?, Option.isSome_map] at complete
    simp only [Option.isSome_iff_exists] at complete
    obtain ⟨⟨_, rfl⟩, ⟨_, rfl⟩, ⟨_, rfl⟩, ⟨_, rfl⟩, ⟨_, rfl⟩, ⟨_, rfl⟩, ⟨_, rfl⟩, ⟨_, rfl⟩, -⟩ :=
      complete
    rfl

end Draft

/-- The numbers of an entry have at most sixty-four bits. -/
structure Fits (entry : Entry) : Prop where
  id : Wide entry.id
  directoryId : Wide entry.directoryId
  lastModified : Wide entry.lastModified
  length : Wide entry.length
  lastDeleted : Wide entry.lastDeleted

end Entry

namespace TrashEntry

open Json

/-- What the value of a field has to be. -/
def Suits (field : String) (value : Json) : Prop :=
  if field = "dir" then ∃ text, value = .str text else Entry.Suits field value

/-- An object is accepted when its fields suit and none is missing. -/
inductive Accepted : Json → Prop where
  | obj {fields : List (String × Json)}
      (suits : ∀ field ∈ fields, Suits field.1 field.2)
      (complete : ∀ name ∈ "dir" :: Entry.Draft.required, name ∈ fields.map Prod.fst) :
      Accepted (.obj fields)

/-- The fields that are written for an entry that was read from a value. The checksum is in lower
case, and the directory's number is filled in. -/
def rewritten? (value : Json) (name : String) : Option Json :=
  if name = "dir" then value.field? name
  else if name = "dir_id" then some ((value.field? name).getD (.int 0))
  else (value.field? name).bind (Entry.kept? name)

/-- Only columns are written, and the directory. -/
theorem mem_columns_of_mem
    {trashed : TrashEntry}
    {field : String × Json}
    (member :
      field ∈ trashed.entry.checksumField ++
        ("dir", .str trashed.directory) :: trashed.entry.plainFields) :
    field.1 ∈ "dir" :: Entry.columns := by
  have names :
      ∀ name ∈ (trashed.entry.checksumField ++
          ("dir", .str trashed.directory) :: trashed.entry.plainFields).map Prod.fst,
        name ∈ "dir" :: Entry.columns := by
    rw [Entry.checksumField]
    cases trashed.entry.checksum <;> simp [Entry.plainFields, Entry.columns]
  exact names _ (List.mem_map_of_mem member)

/-- The fields of a trashed entry. -/
theorem field?_toJson
    (trashed : TrashEntry)
    (name : String) :
    trashed.toJson.field? name =
      if name = "dir" then some (.str trashed.directory) else trashed.entry.draft.field? name := by
  by_cases isDirectory : name = "dir"
  · subst name
    obtain ⟨directory, _, _, _, _, _, _, _, _, _, checksum⟩ := trashed
    cases checksum <;> rfl
  rw [if_neg isDirectory]
  by_cases known : name ∈ Entry.columns
  · obtain ⟨directory, _, _, _, _, _, _, _, _, _, checksum⟩ := trashed
    simp only [Entry.columns, List.mem_cons, List.not_mem_nil, or_false] at known
    rcases known with rfl | rfl | rfl | rfl | rfl | rfl | rfl | rfl | rfl | rfl <;>
      cases checksum <;> rfl
  · rw [Entry.Draft.field?_of_notMem known]
    refine List.lookup_eq_none_iff.mpr fun field member => bne_iff_ne.mpr fun same => ?_
    have inColumns := mem_columns_of_mem (List.mem_reverse.mp member)
    rw [← same] at inColumns
    exact known ((List.mem_cons.mp inColumns).resolve_left isDirectory)

/-- The directory is read when it is a text. -/
theorem readDirectory_reads
    (found : Option String)
    (fields : List (String × Json)) :
    ((readDirectory found fields).isOk = true ↔
        ∀ field ∈ fields, field.1 = "dir" → ∃ text, field.2 = .str text) ∧
      ∀ directory?, readDirectory found fields = .ok directory? →
        directory?.map Json.str = (fields.reverse.lookup "dir").or (found.map .str) := by
  induction fields generalizing found with
  | nil =>
      refine ⟨iff_of_true rfl (List.forall_mem_nil _), fun directory? isDirectory => ?_⟩
      cases isDirectory
      rfl
  | cons field rest inductionHypothesis =>
      obtain ⟨field, value⟩ := field
      rw [readDirectory, List.forall_mem_cons, List.reverse_cons, List.lookup_append]
      by_cases named : field = "dir"
      · rw [if_pos named]
        cases isText : value.asString with
        | error fault =>
            refine ⟨iff_of_false nofun fun ⟨suits, _⟩ => ?_, nofun⟩
            obtain ⟨text, same⟩ := suits named
            rw [asString_eq_ok_iff.mpr same] at isText
            cases isText
        | ok text =>
            have same := asString_eq_ok_iff.mp isText
            obtain ⟨isOk, reads⟩ := inductionHypothesis (some text)
            refine ⟨isOk.trans (and_iff_right fun _ => ⟨text, same⟩).symm,
              fun directory? isDirectory => ?_⟩
            rw [reads directory? isDirectory]
            subst named same
            cases rest.reverse.lookup "dir" <;> rfl
      · rw [if_neg named, and_iff_right (absurd · named)]
        obtain ⟨isOk, reads⟩ := inductionHypothesis found
        refine ⟨isOk, fun directory? isDirectory => ?_⟩
        have other : ("dir" == field) = false := beq_false_of_ne (Ne.symm named)
        rw [reads directory? isDirectory, List.lookup_cons, other]
        cases rest.reverse.lookup "dir" <;> rfl

/-- An entry is read from an object whose directory and whose other fields can be read. -/
theorem ofJson_eq_ok_iff
    {value : Json}
    {trashed : TrashEntry} :
    ofJson value = .ok trashed ↔
      ∃ fields draft,
        value = .obj fields ∧ readDirectory none fields = .ok (some trashed.directory) ∧
          Entry.Draft.readAll {} fields = .ok draft ∧
            draft.finish (fun _ name => .missingField name) = .ok trashed.entry := by
  constructor
  · intro isTrashed
    cases value with
    | obj fields =>
        obtain ⟨directory?, isDirectory, isTrashed⟩ := bind_eq_ok_iff.mp isTrashed
        cases directory? with
        | none =>
            cases isTrashed
        | some directory =>
            obtain ⟨entry, isEntry, same⟩ := bind_eq_ok_iff.mp isTrashed
            obtain ⟨draft, isDraft, isEntry⟩ := bind_eq_ok_iff.mp isEntry
            cases same
            exact ⟨fields, draft, rfl, isDirectory, isDraft, isEntry⟩
    | _ =>
        cases isTrashed
  · rintro ⟨fields, draft, rfl, isDirectory, isDraft, isEntry⟩
    exact bind_eq_ok_iff.mpr ⟨some trashed.directory, isDirectory, bind_eq_ok_iff.mpr
      ⟨trashed.entry, bind_eq_ok_iff.mpr ⟨draft, isDraft, isEntry⟩, rfl⟩⟩

/-- What is written behind a checksum is read in order. -/
theorem readAll_plainFields
    {trashed : TrashEntry}
    (fits : trashed.entry.Fits) :
    Entry.Draft.readAll { checksum := trashed.entry.checksum }
        (("dir", .str trashed.directory) :: trashed.entry.plainFields) =
      .ok trashed.entry.draft := by
  have number {value : Int} (wide : Wide value) : (Json.int value).asInt64 = .ok value :=
    asInt64_eq_ok_iff.mpr ⟨rfl, wide⟩
  simp only [Entry.plainFields, Entry.Draft.readAll, Entry.Draft.read, number fits.id,
    number fits.directoryId, number fits.lastModified, number fits.length, number fits.lastDeleted]
  rfl

/-- What is written for an entry is read as the entry. -/
theorem ofJson_toJson
    {trashed : TrashEntry}
    (fits : trashed.entry.Fits) :
    ofJson trashed.toJson = .ok trashed := by
  have plain := readAll_plainFields fits
  refine ofJson_eq_ok_iff.mpr
    ⟨_, trashed.entry.draft, rfl, ?directory, ?draft, Entry.Draft.finish_eq_ok_iff.mpr rfl⟩
  case directory =>
    rw [Entry.checksumField]
    cases trashed.entry.checksum <;> rfl
  case draft =>
    rw [Entry.checksumField]
    cases recorded : trashed.entry.checksum with
    | none =>
        rw [recorded] at plain
        exact plain
    | some checksum =>
        have isChecksum : (Json.str checksum.toHex).asChecksum = .ok checksum := by
          have decoded := (Hex.decode_eq_ok_iff _ _).mp (Hex.decode_encode checksum.bytes)
          exact asChecksum_eq_ok_iff.mpr ⟨_, rfl, decoded⟩
        have begun :
            Entry.Draft.read {} "checksum" (.str checksum.toHex) =
              .ok { checksum := some checksum } :=
          bind_eq_ok_iff.mpr
            ⟨some checksum, bind_eq_ok_iff.mpr ⟨checksum, isChecksum, rfl⟩, rfl⟩
        rw [recorded] at plain
        rw [List.singleton_append, Entry.Draft.readAll, begun]
        exact plain

/-! ## What was read is written again -/

/-- A field that counts is among the fields. -/
theorem mem_of_field?
    {fields : List (String × Json)}
    {name : String}
    {value : Json}
    (isField : fields.reverse.lookup name = some value) :
    (name, value) ∈ fields := by
  obtain ⟨before, after, shape, -⟩ := List.lookup_eq_some_iff.mp isField
  rw [← List.mem_reverse, shape]
  exact List.mem_append_right before List.mem_cons_self

/-- There is a field that counts when there is one of the name. -/
theorem isSome_field?_iff
    (fields : List (String × Json))
    (name : String) :
    (fields.reverse.lookup name).isSome ↔ name ∈ fields.map Prod.fst := by
  rw [List.lookup_isSome_iff, List.mem_map]
  simp only [List.mem_reverse, beq_iff_eq, @eq_comm _ name]

/-- The directory that was read is the last value of its field. -/
theorem map_directory?
    {fields : List (String × Json)}
    {directory? : Option String}
    (isDirectory : readDirectory none fields = .ok directory?) :
    directory?.map Json.str = fields.reverse.lookup "dir" :=
  ((readDirectory_reads none fields).2 directory? isDirectory).trans Option.or_none

/-- What is written for a column that was read is the last value of its field. -/
theorem draft_field?
    {fields : List (String × Json)}
    {draft : Entry.Draft}
    (isDraft : Entry.Draft.readAll {} fields = .ok draft)
    (name : String) :
    draft.field? name = (fields.reverse.lookup name).bind (Entry.kept? name) := by
  rw [(Entry.Draft.readAll_reads {} fields).2 draft isDraft name, Entry.Draft.field?_empty]
  cases fields.reverse.lookup name <;> rfl

/-- A column that has to be there is kept as it is. -/
theorem kept?_of_mem_required
    {name : String}
    (needed : name ∈ Entry.Draft.required)
    (value : Json) :
    Entry.kept? name value = some value := by
  have isColumn : ∀ name ∈ Entry.Draft.required, name ≠ "checksum" ∧ name ∈ Entry.columns := by
    decide
  obtain ⟨other, known⟩ := isColumn name needed
  rw [Entry.kept?, if_neg other, if_pos known]

/-- Fields suit a trashed entry when they suit an entry and its directory. -/
theorem forall_suits_iff
    (fields : List (String × Json)) :
    (∀ field ∈ fields, Suits field.1 field.2) ↔
      (∀ field ∈ fields, field.1 = "dir" → ∃ text, field.2 = .str text) ∧
        ∀ field ∈ fields, Entry.Suits field.1 field.2 := by
  rw [← forall₂_and]
  refine forall₂_congr fun field _ => ?_
  rw [Suits]
  by_cases named : field.1 = "dir"
  · have unknown : field.1 ∉ Entry.columns := by
      rw [named]
      decide
    rw [if_pos named, and_iff_left (Entry.suits_of_notMem unknown)]
    exact ⟨fun isText _ => isText, (· named)⟩
  · rw [if_neg named, and_iff_right (absurd · named)]

/-- A value is read when it is accepted. -/
theorem ofJson_isOk_iff
    (value : Json) :
    (ofJson value).isOk = true ↔ Accepted value := by
  rw [isOk_iff]
  constructor
  · rintro ⟨trashed, isTrashed⟩
    obtain ⟨fields, draft, rfl, isDirectory, isDraft, isEntry⟩ := ofJson_eq_ok_iff.mp isTrashed
    have suits := (forall_suits_iff fields).mpr
      ⟨(readDirectory_reads none fields).1.mp (isOk_iff.mpr ⟨_, isDirectory⟩),
        (Entry.Draft.readAll_reads {} fields).1.mp (isOk_iff.mpr ⟨_, isDraft⟩)⟩
    have finished := (Entry.Draft.finish_isOk_iff _ _).mp (isOk_iff.mpr ⟨_, isEntry⟩)
    refine .obj suits (List.forall_mem_cons.mpr ⟨?_, fun name needed => ?_⟩)
    · rw [← isSome_field?_iff, ← map_directory? isDirectory]
      rfl
    · have isSome := finished name needed
      rw [draft_field? isDraft] at isSome
      rw [← isSome_field?_iff]
      cases found : fields.reverse.lookup name with
      | none =>
          rw [found] at isSome
          cases isSome
      | some value =>
          rfl
  · rintro ⟨suits, complete⟩
    rename_i fields
    obtain ⟨directoryNamed, complete⟩ := List.forall_mem_cons.mp complete
    obtain ⟨directorySuits, entrySuits⟩ := (forall_suits_iff fields).mp suits
    obtain ⟨directory?, isDirectory⟩ :=
      isOk_iff.mp ((readDirectory_reads none fields).1.mpr directorySuits)
    obtain ⟨draft, isDraft⟩ :=
      isOk_iff.mp ((Entry.Draft.readAll_reads {} fields).1.mpr entrySuits)
    have isSome := (isSome_field?_iff fields "dir").mpr directoryNamed
    rw [← map_directory? isDirectory] at isSome
    obtain ⟨entry, isEntry⟩ :=
      isOk_iff.mp ((Entry.Draft.finish_isOk_iff (fun _ name => .missingField name) draft).mpr
        fun name needed => by
          obtain ⟨value, isValue⟩ :=
            Option.isSome_iff_exists.mp ((isSome_field?_iff fields name).mpr (complete name needed))
          rw [draft_field? isDraft, isValue, Option.bind_some, kept?_of_mem_required needed]
          rfl)
    cases directory? with
    | none =>
        cases isSome
    | some directory =>
        exact ⟨⟨directory, entry⟩, ofJson_eq_ok_iff.mpr
          ⟨fields, draft, rfl, isDirectory, isDraft, isEntry⟩⟩

/-- An entry that was read from a value, and what is written for it. -/
structure Reread (value : Json) (trashed : TrashEntry) : Prop where
  again : ofJson trashed.toJson = .ok trashed
  fields : ∀ name, trashed.toJson.field? name = rewritten? value name
  checksum : ∀ written, trashed.toJson.field? "checksum" = some written →
    ∃ text, written = .str text ∧ text.length = 64 ∧
      ∀ character ∈ text.toList, character ∈ "0123456789abcdef".toList

/-- The fields that are written for an entry are those that it was read from. -/
theorem field?_of_ofJson
    {value : Json}
    {trashed : TrashEntry}
    (isTrashed : ofJson value = .ok trashed)
    (name : String) :
    trashed.toJson.field? name = rewritten? value name := by
  obtain ⟨fields, draft, rfl, isDirectory, isDraft, isEntry⟩ := ofJson_eq_ok_iff.mp isTrashed
  have entryRead := draft_field? isDraft
  rw [field?_toJson, rewritten?]
  by_cases isDirectoryField : name = "dir"
  · rw [if_pos isDirectoryField, if_pos isDirectoryField, isDirectoryField]
    exact map_directory? isDirectory
  rw [if_neg isDirectoryField, if_neg isDirectoryField, Entry.Draft.finish_eq_ok_iff.mp isEntry]
  by_cases isNumber : name = "dir_id"
  · subst name
    have kept : draft.field? "dir_id" = (Json.obj fields).field? "dir_id" := by
      rw [entryRead, Json.field?]
      cases fields.reverse.lookup "dir_id" <;> rfl
    rw [if_pos rfl, ← kept]
    change some (Json.int (draft.directoryId.getD 0)) = some ((draft.directoryId.map .int).getD _)
    cases draft.directoryId <;> rfl
  · rw [if_neg isNumber]
    refine Eq.trans ?_ (entryRead name)
    unfold Entry.Draft.field?
    split <;> first | rfl | contradiction

/-- The numbers of an entry that was read fit. -/
theorem fits_of_ofJson
    {value : Json}
    {trashed : TrashEntry}
    (isTrashed : ofJson value = .ok trashed) :
    trashed.entry.Fits := by
  have same := field?_of_ofJson isTrashed
  cases ofJson_isOk_iff value |>.mp (isOk_iff.mpr ⟨trashed, isTrashed⟩) with
  | @obj fields suits _ =>
      have entrySuits := ((forall_suits_iff fields).mp suits).2
      have wide {number : Int} (isNumber : ∃ other, Json.int number = .int other ∧ Wide other) :
          Wide number := by
        obtain ⟨other, isOther, fits⟩ := isNumber
        cases isOther
        exact fits
      have suitsWritten (name : String) {written : Json}
          (needed : name ∈ Entry.Draft.required)
          (isWritten : trashed.entry.draft.field? name = some written) :
          Entry.Suits name written := by
        have apart : ∀ name ∈ Entry.Draft.required, name ≠ "dir" ∧ name ≠ "dir_id" := by
          decide
        obtain ⟨noDirectory, noNumber⟩ := apart name needed
        have kept := same name
        rw [field?_toJson, rewritten?, if_neg noDirectory, if_neg noDirectory, if_neg noNumber,
          isWritten] at kept
        obtain ⟨found, isFound, isKept⟩ := Option.bind_eq_some_iff.mp kept.symm
        rw [kept?_of_mem_required needed, Option.some_inj] at isKept
        exact entrySuits (name, written) (mem_of_field? (isKept ▸ isFound))
      have directoryId : Wide trashed.entry.directoryId := by
        have kept :
            Json.int trashed.entry.directoryId =
              ((Json.obj fields).field? "dir_id").getD (.int 0) :=
          Option.some_inj.mp ((field?_toJson trashed "dir_id").symm.trans (same "dir_id"))
        cases isField : (Json.obj fields).field? "dir_id" with
        | none =>
            rw [isField] at kept
            rw [Json.int.inj kept]
            exact ⟨by decide, by decide⟩
        | some value =>
            rw [isField] at kept
            exact wide (kept ▸ entrySuits ("dir_id", value) (mem_of_field? isField))
      exact ⟨wide (suitsWritten "id" (by decide) rfl), directoryId,
        wide (suitsWritten "last_modified" (by decide) rfl),
        wide (suitsWritten "length" (by decide) rfl),
        wide (suitsWritten "last_deleted" (by decide) rfl)⟩

/-- Trashed entries survive being written, and what is written for one that was read. -/
theorem survives_json
    (trashed : TrashEntry)
    (value : Json) :
    (trashed.entry.Fits → ofJson trashed.toJson = .ok trashed) ∧
      ((ofJson value).isOk = true ↔ Accepted value) ∧
        (ofJson value = .ok trashed → Reread value trashed) := by
  refine ⟨ofJson_toJson, ofJson_isOk_iff value, fun isTrashed => ?_⟩
  refine ⟨ofJson_toJson (fits_of_ofJson isTrashed), field?_of_ofJson isTrashed, ?_⟩
  intro written isWritten
  rw [field?_toJson, if_neg (by decide)] at isWritten
  obtain ⟨checksum, -, rfl⟩ := Option.map_eq_some_iff.mp isWritten
  refine ⟨checksum.toHex, rfl, length_toHex checksum, fun character member => ?_⟩
  obtain ⟨digit, small, rfl⟩ := Hex.exists_digit_of_mem_encode member
  exact (Hex.digit_lower digit small).1

/-- A value with a checksum in upper case, with a further field and without the directory's number
is read. -/
theorem survives_json_upper_case :
    let trashed : TrashEntry :=
      ⟨"home", ⟨42, 0, "a\n", false, -(2 ^ 63), 2 ^ 63 - 1, true, true, 7,
        some ⟨⟨Array.replicate 32 0xAF⟩, rfl⟩⟩⟩
    let digits := String.ofList (List.replicate 32 ['A', 'f']).flatten
    let value : Json :=
      .obj [("checksum", .str digits), ("dir", .str "home"), ("further", .arr []), ("id", .int 42),
        ("is_deleted", .bool true), ("is_dir", .bool false), ("last_deleted", .int 7),
        ("last_modified", .int (-(2 ^ 63))), ("length", .int (2 ^ 63 - 1)), ("name", .str "a\n"),
        ("writable", .bool true)]
    trashed.entry.Fits ∧ ofJson trashed.toJson = .ok trashed ∧
      ofJson value = .ok trashed ∧ Accepted value ∧ Reread value trashed := by
  intro trashed digits value
  have fits : trashed.entry.Fits :=
    ⟨⟨by decide, by decide⟩, ⟨by decide, by decide⟩, ⟨by decide, by decide⟩,
      ⟨by decide, by decide⟩, ⟨by decide, by decide⟩⟩
  have isTrashed : ofJson value = .ok trashed := by
    decide +kernel
  obtain ⟨survives, accepts, rereads⟩ := survives_json trashed value
  exact ⟨fits, survives fits, isTrashed, accepts.mp (isOk_iff.mpr ⟨trashed, isTrashed⟩),
    rereads isTrashed⟩

end TrashEntry

end VersionStore
