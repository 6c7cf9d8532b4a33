import Mathlib.Data.List.Induction
import Mathlib.Data.String.Basic
import VersionStore.Proofs.Tree.Coherent

namespace VersionStore.Tables

/-!
# Finding live entries

`Tables.At` says which live entry lies at the end of some names. In coherent tables this
is one entry at most, and it is the one that is found in either way: by the written path
of its directory, or by going down from the top, one directory after the other.
-/

/-- The live entry at the end of some names. -/
inductive At (tables : Tables) : List Name → Entry → Prop where
  | top {entry : Entry}
      (member : entry ∈ tables.entries)
      (isRoot : entry.id = rootId) :
      At tables [] entry
  | child {names : List Name} {holder entry : Entry} {name : Name}
      (above : At tables names holder)
      (member : entry ∈ tables.entries)
      (proper : entry.id ≠ rootId)
      (live : entry.isDeleted = false)
      (held : entry.directoryId = holder.id)
      (called : entry.name = name.text) :
      At tables (names ++ [name]) entry

/-- The live entry that is reached from an entry by going down along names. -/
def walkFrom? (tables : Tables) (entry : Entry) : List Name → Option Entry
  | [] => some entry
  | name :: rest =>
      match tables.lookupIn? entry.id name.text with
      | some next => tables.walkFrom? next rest
      | none => none

/-- The live entry that is reached from the top by going down along names. -/
def walk? (tables : Tables) (names : List Name) : Option Entry :=
  match tables.entry? rootId with
  | some top => tables.walkFrom? top names
  | none => none

/-- The live entry at a path, by the written path of its directory. -/
def lookupAt? (tables : Tables) (path : CleanPath) : Option Entry :=
  tables.lookup? path.directory path.name

variable {tables : Tables}

namespace At

/-- What lies at the end of names is an entry. -/
theorem member
    {names : List Name}
    {entry : Entry}
    (here : tables.At names entry) :
    entry ∈ tables.entries := by
  cases here with
  | top member _ | child _ member _ _ _ _ =>
      exact member

/-- What lies at the end of no names is the top entry. -/
theorem of_nil
    {entry : Entry}
    (here : tables.At [] entry) :
    entry ∈ tables.entries ∧ entry.id = rootId := by
  generalize shape : ([] : List Name) = names at here
  cases here with
  | top member isRoot =>
      exact ⟨member, isRoot⟩
  | child _ _ _ _ _ _ =>
      simp at shape

/-- What lies at the end of some names lies in what lies at the end of all but the last. -/
theorem of_concat
    {names : List Name}
    {name : Name}
    {entry : Entry}
    (here : tables.At (names ++ [name]) entry) :
    ∃ holder,
      tables.At names holder ∧ entry ∈ tables.entries ∧ entry.id ≠ rootId ∧
        entry.isDeleted = false ∧ entry.directoryId = holder.id ∧ entry.name = name.text := by
  generalize shape : names ++ [name] = whole at here
  cases here with
  | top _ _ =>
      simp at shape
  | child above member proper live held called =>
      obtain ⟨rfl, same⟩ := List.append_inj' shape rfl
      cases same
      exact ⟨_, above, member, proper, live, held, called⟩

/-- The way to the end of all names leads over the end of the first of them. -/
theorem of_append
    {first second : List Name}
    {entry : Entry}
    (here : tables.At (first ++ second) entry) :
    ∃ holder, tables.At first holder := by
  induction second using List.reverseRecOn generalizing entry with
  | nil =>
      exact ⟨entry, by simpa using here⟩
  | append_singleton before last inductionHypothesis =>
      rw [← List.append_assoc] at here
      obtain ⟨holder, above, -⟩ := here.of_concat
      exact inductionHypothesis above

/-- What lies somewhere still lies there when entries are added. -/
theorem mono
    {other : Tables}
    (subset : tables.entries ⊆ other.entries)
    {names : List Name}
    {entry : Entry}
    (here : tables.At names entry) :
    other.At names entry := by
  induction here with
  | top member isRoot =>
      exact .top (subset member) isRoot
  | child _ member proper live held called inductionHypothesis =>
      exact .child inductionHypothesis (subset member) proper live held called

end At

namespace Coherent

/-! ## One entry for one path -/

/-- What lies at the end of names is live. -/
theorem live_of_at
    (coherent : tables.Coherent)
    {names : List Name}
    {entry : Entry}
    (here : tables.At names entry) :
    entry.isDeleted = false := by
  cases here with
  | top member isRoot =>
      exact (coherent.isTop member isRoot).live
  | child _ _ _ live _ _ =>
      exact live

/-- What a live entry lies in is a live directory. -/
theorem isLiveDirectory_of_holds
    (coherent : tables.Coherent)
    {entry holder : Entry}
    (member : entry ∈ tables.entries)
    (live : entry.isDeleted = false)
    (holderMember : holder ∈ tables.entries)
    (held : entry.directoryId = holder.id) :
    tables.IsLiveDirectory holder := by
  obtain ⟨other, isLive, same⟩ := coherent.placed entry member live
  rwa [coherent.entry_eq holderMember isLive.member (held.symm.trans same.symm)]

/-- At the end of names lies one entry at most. -/
theorem at_unique
    (coherent : tables.Coherent)
    {names : List Name}
    {first second : Entry}
    (firstHere : tables.At names first)
    (secondHere : tables.At names second) :
    first = second := by
  induction firstHere generalizing second with
  | top member isRoot =>
      obtain ⟨secondMember, secondIsRoot⟩ := secondHere.of_nil
      exact coherent.entry_eq member secondMember (isRoot.trans secondIsRoot.symm)
  | child above member proper live held called inductionHypothesis =>
      obtain ⟨holder, secondAbove, secondMember, -, secondLive, secondHeld, secondCalled⟩ :=
        secondHere.of_concat
      have same := inductionHypothesis secondAbove
      exact coherent.distinct _ member second secondMember live secondLive
        (by rw [held, secondHeld, same]) (called.trans secondCalled.symm)

/-- A live entry lies at the end of one list of names at most. -/
theorem at_names_unique
    (coherent : tables.Coherent)
    {first second : List Name}
    {entry : Entry}
    (firstHere : tables.At first entry)
    (secondHere : tables.At second entry) :
    first = second := by
  induction firstHere generalizing second with
  | top _ isRoot =>
      cases secondHere with
      | top _ _ =>
          rfl
      | child _ _ proper _ _ _ =>
          exact (proper isRoot).elim
  | child above _ proper _ held called inductionHypothesis =>
      cases secondHere with
      | top _ isRoot =>
          exact (proper isRoot).elim
      | child secondAbove _ _ _ secondHeld secondCalled =>
          have same := coherent.entry_eq above.member secondAbove.member
            (held.symm.trans secondHeld)
          subst same
          rw [inductionHypothesis secondAbove,
            Subtype.ext (called.symm.trans secondCalled)]

/-- Every live entry lies at the end of some names. -/
theorem exists_at
    (coherent : tables.Coherent)
    {entry : Entry}
    (member : entry ∈ tables.entries)
    (live : entry.isDeleted = false) :
    ∃ names, tables.At names entry := by
  obtain ⟨rank, ranked⟩ := coherent.ranked
  induction height : rank entry.id using Nat.strong_induction_on generalizing entry with
  | _ bound inductionHypothesis =>
      by_cases isRoot : entry.id = rootId
      · exact ⟨[], .top member isRoot⟩
      · obtain ⟨holder, isLive, same⟩ := coherent.placed entry member live
        have lower : rank holder.id < bound := by
          rw [same, ← height]
          exact ranked entry member isRoot
        obtain ⟨names, above⟩ :=
          inductionHypothesis (rank holder.id) lower isLive.member isLive.live rfl
        exact ⟨names ++ [⟨entry.name, coherent.named entry member isRoot⟩],
          .child above member isRoot live same.symm rfl⟩

/-- The row of a live directory holds its names in their written form. -/
theorem path_of_at
    (coherent : tables.Coherent)
    {names : List Name}
    {entry : Entry}
    (here : tables.At names entry)
    (isDirectory : entry.isDirectory = true) :
    ∃ row ∈ tables.directories, row.id = entry.id ∧ row.path = CleanPath.joinNames names := by
  induction here with
  | top _ isRoot =>
      exact ⟨_, coherent.topRow, isRoot.symm, rfl⟩
  | @child names holder entry name above member proper live held called inductionHypothesis =>
      have isLive := coherent.isLiveDirectory_of_holds member live above.member held
      obtain ⟨row, rowMember, ownsRow⟩ := coherent.housed entry ⟨member, isDirectory, live⟩
      obtain ⟨aboveRow, aboveMember, ownsAbove, abovePath⟩ :=
        inductionHypothesis isLive.isDirectory
      refine ⟨row, rowMember, ownsRow, ?_⟩
      rw [coherent.paths entry member proper row rowMember ownsRow aboveRow aboveMember
        (ownsAbove.trans held.symm), abovePath, called, CleanPath.join_joinNames]

/-- What is below a live entry lies behind its names. -/
theorem prefix_of_below
    (coherent : tables.Coherent)
    {names : List Name}
    {above entry : Entry}
    (here : tables.At names entry)
    (member : above ∈ tables.entries)
    (below : tables.Below above.id entry.id) :
    ∃ first, first <+: names ∧ tables.At first above := by
  induction here with
  | @top entry entryMember isRoot =>
      refine ⟨[], List.nil_prefix, ?_⟩
      generalize shape : entry.id = id at below
      cases below with
      | self =>
          exact .top member (shape ▸ isRoot)
      | step _ proper _ =>
          exact (proper (shape ▸ isRoot)).elim
  | @child names holder entry name around entryMember proper live held called
      inductionHypothesis =>
      generalize shape : entry.id = id at below
      cases below with
      | self =>
          rw [← coherent.entry_eq entryMember member shape]
          exact ⟨_, List.prefix_rfl, .child around entryMember proper live held called⟩
      | step otherMember _ further =>
          rw [← coherent.entry_eq entryMember otherMember shape, held] at further
          obtain ⟨first, isPrefix, isAbove⟩ := inductionHypothesis further
          exact ⟨first, isPrefix.trans (List.prefix_append _ _), isAbove⟩

/-! ## Both ways of finding an entry -/

/-- By the written path of its directory one finds the entry at a path. -/
theorem lookupAt?_eq_some_iff
    (coherent : tables.Coherent)
    {path : CleanPath}
    {entry : Entry} :
    tables.lookupAt? path = some entry ↔ tables.At path.names entry := by
  obtain ⟨names⟩ := path
  -- Whatever is found lies at the path, so that it is the entry that lies there.
  have sound :
      ∀ found, tables.lookupAt? ⟨names⟩ = some found → tables.At names found := by
    intro found isFound
    have member := List.mem_of_find?_eq_some isFound
    have holds := List.find?_some isFound
    simp only [Bool.and_eq_true, beq_iff_eq, Bool.not_eq_eq_eq_not, Bool.not_true,
      List.any_eq_true] at holds
    obtain ⟨⟨called, live⟩, row, rowMember, ownsRow, isPath⟩ := holds
    rcases List.eq_nil_or_concat' names with rfl | ⟨before, last, rfl⟩
    · refine .top member ?_
      by_contra proper
      exact (coherent.named found member proper).1 called
    · have isLast : found.name = last.text := by
        rw [called]
        simp [CleanPath.name, Name.text]
      have proper := coherent.ne_rootId_of_called member isLast
      obtain ⟨holder, isLive, same⟩ := coherent.placed found member live
      obtain ⟨above, isAbove⟩ := coherent.exists_at isLive.member isLive.live
      obtain ⟨aboveRow, aboveMember, ownsAbove, abovePath⟩ :=
        coherent.path_of_at isAbove isLive.isDirectory
      have sameRow := coherent.row_eq rowMember aboveMember
        (ownsRow.trans (same.symm.trans ownsAbove.symm))
      have sameNames : before = above := by
        apply CleanPath.joinNames_injective
        rw [← abovePath, ← sameRow, isPath]
        simp [CleanPath.directory, CleanPath.dropLast, CleanPath.text]
      subst sameNames
      refine .child isAbove member proper live same.symm ?_
      rw [called]
      simp [CleanPath.name]
  refine ⟨sound entry, fun here => ?_⟩
  cases isFound : tables.lookupAt? ⟨names⟩ with
  | some found =>
      rw [coherent.at_unique (sound found isFound) here]
  | none =>
      have missed := List.find?_eq_none.mp isFound entry here.member
      refine (missed ?_).elim
      have live := coherent.live_of_at here
      rcases List.eq_nil_or_concat' names with rfl | ⟨before, last, rfl⟩
      · obtain ⟨member, isRoot⟩ := here.of_nil
        have isTop := coherent.isTop member isRoot
        simp only [Bool.and_eq_true, beq_iff_eq, List.any_eq_true]
        exact ⟨⟨isTop.name, by simp [live]⟩, _, coherent.topRow, isTop.directoryId.symm, rfl⟩
      · obtain ⟨holder, above, member, proper, -, held, called⟩ := here.of_concat
        have isLive := coherent.isLiveDirectory_of_holds member live above.member held
        obtain ⟨row, rowMember, ownsRow, isPath⟩ :=
          coherent.path_of_at above isLive.isDirectory
        simp only [Bool.and_eq_true, beq_iff_eq, List.any_eq_true]
        refine ⟨⟨?_, by simp [live]⟩, row, rowMember, ownsRow.trans held.symm, ?_⟩
        · rw [called]
          simp [CleanPath.name]
        · rw [isPath]
          simp [CleanPath.directory, CleanPath.dropLast, CleanPath.text]

/-- In a directory one finds the entry of a name. -/
theorem lookupIn?_eq_some_iff
    (coherent : tables.Coherent)
    {names : List Name}
    {holder : Entry}
    (here : tables.At names holder)
    {name : Name}
    {entry : Entry} :
    tables.lookupIn? holder.id name.text = some entry ↔ tables.At (names ++ [name]) entry := by
  have sound :
      ∀ found,
        tables.lookupIn? holder.id name.text = some found →
        tables.At (names ++ [name]) found := by
    intro found isFound
    have member := List.mem_of_find?_eq_some isFound
    have holds := List.find?_some isFound
    simp only [Bool.and_eq_true, beq_iff_eq, Bool.not_eq_eq_eq_not, Bool.not_true,
      bne_iff_ne] at holds
    obtain ⟨⟨⟨held, called⟩, live⟩, proper⟩ := holds
    exact .child here member proper live held called
  refine ⟨sound entry, fun there => ?_⟩
  cases isFound : tables.lookupIn? holder.id name.text with
  | some found =>
      rw [coherent.at_unique (sound found isFound) there]
  | none =>
      have missed := List.find?_eq_none.mp isFound entry there.member
      obtain ⟨other, above, member, proper, live, held, called⟩ := there.of_concat
      have same := coherent.at_unique above here
      subst same
      simp [held, called, live, proper] at missed

/-- Going down from the end of some names one reaches what lies behind them. -/
theorem walkFrom?_eq_some_iff
    (coherent : tables.Coherent)
    {names rest : List Name}
    {start entry : Entry}
    (here : tables.At names start) :
    tables.walkFrom? start rest = some entry ↔ tables.At (names ++ rest) entry := by
  induction rest generalizing names start with
  | nil =>
      rw [walkFrom?, List.append_nil]
      constructor
      · intro same
        cases same
        exact here
      · intro there
        rw [coherent.at_unique here there]
  | cons name rest inductionHypothesis =>
      rw [walkFrom?, List.append_cons]
      cases found : tables.lookupIn? start.id name.text with
      | some next =>
          exact inductionHypothesis ((coherent.lookupIn?_eq_some_iff here).mp found)
      | none =>
          refine ⟨fun absurd => (Option.some_ne_none _ absurd.symm).elim, fun there => ?_⟩
          obtain ⟨next, isNext⟩ := there.of_append
          rw [(coherent.lookupIn?_eq_some_iff here).mpr isNext] at found
          exact (Option.some_ne_none _ found).elim

/-- Going down from the top one reaches the entry at a path. -/
theorem walk?_eq_some_iff
    (coherent : tables.Coherent)
    {names : List Name}
    {entry : Entry} :
    tables.walk? names = some entry ↔ tables.At names entry := by
  obtain ⟨top, member, isTop⟩ := coherent.top
  have found : tables.entry? rootId = some top :=
    coherent.entry?_eq_some_iff.mpr ⟨member, isTop.id⟩
  have start : tables.At [] top :=
    .top member isTop.id
  rw [walk?, found]
  exact coherent.walkFrom?_eq_some_iff start

/-- Both ways of finding an entry find the same one. -/
theorem lookupAt?_eq_walk?
    (coherent : tables.Coherent)
    (path : CleanPath) :
    tables.lookupAt? path = tables.walk? path.names := by
  apply Option.ext
  intro entry
  rw [coherent.lookupAt?_eq_some_iff, coherent.walk?_eq_some_iff]

/-! ## Listings -/

/-- A directory lists what lies one name further. -/
theorem mem_listing_iff
    (coherent : tables.Coherent)
    {names : List Name}
    {holder : Entry}
    (here : tables.At names holder)
    {entry : Entry} :
    entry ∈ tables.listing holder.id ↔ ∃ name, tables.At (names ++ [name]) entry := by
  simp only [listing, List.mem_mergeSort, liveIn, List.mem_filter, Bool.and_eq_true, beq_iff_eq,
    Bool.not_eq_eq_eq_not, Bool.not_true, bne_iff_ne]
  constructor
  · rintro ⟨member, ⟨held, live⟩, proper⟩
    exact ⟨⟨entry.name, coherent.named entry member proper⟩,
      .child here member proper live held rfl⟩
  · rintro ⟨name, there⟩
    obtain ⟨other, above, member, proper, live, held, -⟩ := there.of_concat
    rw [coherent.at_unique above here] at held
    exact ⟨member, ⟨held, live⟩, proper⟩

/-- A listing is in the strict order of names. -/
theorem pairwise_listing
    (coherent : tables.Coherent)
    (id : Int) :
    (tables.listing id).Pairwise fun first second => first.name < second.name := by
  have sorted : (tables.listing id).Pairwise fun first second => nameLe first second :=
    List.pairwise_mergeSort
      (fun _ _ _ one other => by
        simp only [nameLe, decide_eq_true_eq] at one other ⊢
        exact le_trans one other)
      (fun first second => by
        simpa [nameLe] using le_total first.name second.name)
      _
  have different : (tables.listing id).Nodup := by
    rw [listing, (List.mergeSort_perm _ _).nodup_iff]
    apply List.Nodup.filter
    exact List.Nodup.of_map _ (coherent.ids.imp Int.ne_of_lt)
  refine (sorted.and different).imp_of_mem ?_
  rintro first second firstMember secondMember ⟨inOrder, apart⟩
  simp only [listing, List.mem_mergeSort, liveIn, List.mem_filter, Bool.and_eq_true, beq_iff_eq,
    Bool.not_eq_eq_eq_not, Bool.not_true, bne_iff_ne] at firstMember secondMember
  obtain ⟨firstMember, ⟨firstHeld, firstLive⟩, -⟩ := firstMember
  obtain ⟨secondMember, ⟨secondHeld, secondLive⟩, -⟩ := secondMember
  refine lt_of_le_of_ne (by simpa [nameLe] using inOrder) ?_
  intro sameName
  exact apart (coherent.distinct first firstMember second secondMember firstLive secondLive
    (firstHeld.trans secondHeld.symm) sameName)

end Coherent

end VersionStore.Tables
