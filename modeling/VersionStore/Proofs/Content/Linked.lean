import VersionStore.Proofs.Content.Edited

namespace VersionStore

/-!
# Links and their targets

A path that is linked to has one row among the targets, which it never loses, and links name
their targets by the ids of these rows. So the paths that an entry links to and the entries that
link to a path are two readings of one relation.
-/

namespace Tables

variable {tables after : Tables} {source : Int} {path : String}

/-- Targets are told apart by their ids and by their paths, and every link has one. -/
structure Interned (tables : Tables) : Prop where
  ids : (tables.targets.map (·.id)).Pairwise (· < ·)
  paths : (tables.targets.map (·.path)).Nodup
  linked : ∀ link ∈ tables.links, ∃ target ∈ tables.targets, target.id = link.target

/-- The next id exceeds all ids. -/
theorem lt_nextId
    {ids : List Int}
    {id : Int}
    (member : id ∈ ids) :
    id < nextId ids := by
  have bound (first : Int) (rest : List Int) :
      first ≤ rest.foldl max first ∧ ∀ id ∈ rest, id ≤ rest.foldl max first := by
    induction rest generalizing first with
    | nil =>
        exact ⟨le_refl _, nofun⟩
    | cons next rest inductionHypothesis =>
        obtain ⟨least, others⟩ := inductionHypothesis (max first next)
        refine ⟨(le_max_left first next).trans least, fun id member => ?_⟩
        rcases List.mem_cons.mp member with rfl | later
        · exact (le_max_right first id).trans least
        · exact others id later
  cases ids with
  | nil =>
      cases member
  | cons first rest =>
      obtain ⟨least, others⟩ := bound first rest
      apply Int.lt_add_one_of_le
      rcases List.mem_cons.mp member with rfl | later
      · exact least
      · exact others id later

/-- An added link is the only new one. -/
theorem links_addLink
    (tables : Tables)
    (source : Int)
    (path : String) :
    ∃ link, link.source = source ∧ (tables.addLink source path).links = tables.links ++ [link] := by
  have same : (tables.internTarget path).2.links = tables.links := by
    unfold internTarget
    split <;> rfl
  rw [← same]
  exact ⟨_, rfl, rfl⟩

/-- Setting the links of an entry leaves the links of others. -/
theorem filter_links_setLinks
    (tables : Tables)
    {source other : Int}
    (apart : other ≠ source)
    (paths : List String) :
    (tables.setLinks source paths).links.filter (·.source == other) =
      tables.links.filter (·.source == other) := by
  have added (tables : Tables) :
      (paths.foldl (fun (linked : Tables) path => linked.addLink source path) tables).links.filter
          (·.source == other) =
        tables.links.filter (·.source == other) := by
    induction paths generalizing tables with
    | nil =>
        rfl
    | cons path rest inductionHypothesis =>
        obtain ⟨link, rfl, links⟩ := tables.links_addLink source path
        rw [List.foldl_cons, inductionHypothesis, links, List.filter_append,
          List.filter_cons_of_neg (by simpa using apart.symm), List.filter_nil, List.append_nil]
  rw [setLinks, added, removeLinks, List.filter_filter]
  refine List.filter_congr fun link _ => ?_
  by_cases isOther : link.source = other
  · simp [isOther, apart]
  · simp [isOther]

/-- Links of others are those that there were. -/
theorem mem_links_setLinks_iff
    (tables : Tables)
    {source : Int}
    {link : Link}
    (apart : link.source ≠ source)
    (paths : List String) :
    link ∈ (tables.setLinks source paths).links ↔ link ∈ tables.links := by
  have same := congrArg (link ∈ ·) (filter_links_setLinks tables apart paths)
  simpa using same

namespace Interned

/-- A target is told by its id. -/
theorem target_eq
    (interned : tables.Interned)
    {first second : LinkTarget}
    (firstMember : first ∈ tables.targets)
    (secondMember : second ∈ tables.targets)
    (same : first.id = second.id) :
    first = second :=
  Coherent.eq_of_pairwise_lt interned.ids firstMember secondMember same

/-- Targets and links alone say how they belong together. -/
theorem congr
    (interned : tables.Interned)
    (targets : after.targets = tables.targets)
    (links : after.links ⊆ tables.links) :
    after.Interned where
  ids := by
    rw [targets]
    exact interned.ids
  paths := by
    rw [targets]
    exact interned.paths
  linked link member := by
    rw [targets]
    exact interned.linked link (links member)

/-! ## Reading links -/

/-- An entry links to the paths of the targets of its links. -/
theorem mem_targetsOf_iff
    (interned : tables.Interned) :
    path ∈ tables.targetsOf source ↔
      ∃ link ∈ tables.links, link.source = source ∧ ⟨link.target, path⟩ ∈ tables.targets := by
  simp only [targetsOf, List.mem_mergeSort, List.mem_filterMap, List.mem_filter, beq_iff_eq,
    Option.map_eq_some_iff, Coherent.find?_eq_some_iff_of_pairwise_lt interned.ids]
  constructor
  · rintro ⟨⟨id, source, target⟩, ⟨member, rfl⟩, ⟨_, _⟩, ⟨isTarget, rfl⟩, rfl⟩
    exact ⟨_, member, rfl, isTarget⟩
  · rintro ⟨link, member, isSource, isTarget⟩
    exact ⟨link, ⟨member, isSource⟩, _, ⟨isTarget, rfl⟩, rfl⟩

/-- The entries that link to a path are the live sources of links to its target. -/
theorem mem_sourcesOf_iff
    (coherent : tables.Coherent)
    {place : TrashEntry} :
    place ∈ tables.sourcesOf path ↔
      ∃ link ∈ tables.links,
        ⟨link.target, path⟩ ∈ tables.targets ∧
          link.source = place.entry.id ∧ place.entry ∈ tables.entries ∧
            place.entry.isDeleted = false ∧
              tables.directoryPath? place.entry.directoryId = some place.directory := by
  have isSource (link : Link) :
      tables.linkSource? link = some place ↔
        link.source = place.entry.id ∧ place.entry ∈ tables.entries ∧
          place.entry.isDeleted = false ∧
            tables.directoryPath? place.entry.directoryId = some place.directory := by
    obtain ⟨directory, entry⟩ := place
    unfold linkSource?
    cases found : tables.entry? link.source with
    | none =>
        refine ⟨nofun, fun ⟨same, member, _⟩ => ?_⟩
        rw [coherent.entry?_eq_some_iff.mpr ⟨member, same.symm⟩] at found
        cases found
    | some other =>
        obtain ⟨otherMember, isId⟩ := coherent.entry?_eq_some_iff.mp found
        dsimp only
        constructor
        · intro isPlace
          split at isPlace
          · cases isPlace
          · rename_i live
            obtain ⟨place, isDirectory, same⟩ := Option.map_eq_some_iff.mp isPlace
            cases same
            exact ⟨isId.symm, otherMember, Bool.eq_false_iff.mpr live, isDirectory⟩
        · rintro ⟨same, member, live, isDirectory⟩
          rw [coherent.entry_eq otherMember member (isId.trans same), if_neg (by simp [live]),
            isDirectory]
          rfl
  simp only [sourcesOf, List.mem_mergeSort, List.mem_filterMap, List.mem_filter, List.any_eq_true,
    Bool.and_eq_true, beq_iff_eq, isSource]
  constructor
  · rintro ⟨link, ⟨member, ⟨_, _⟩, isTarget, rfl, rfl⟩, rest⟩
    exact ⟨link, member, isTarget, rest⟩
  · rintro ⟨link, member, isTarget, rest⟩
    exact ⟨link, ⟨member, _, isTarget, rfl, rfl⟩, rest⟩

/-- What lies at a path links to another just when it is among the entries that link there. -/
theorem mem_targetsOf_iff_mem_sourcesOf
    (interned : tables.Interned)
    (coherent : tables.Coherent)
    {place : CleanPath}
    {entry : Entry}
    (found : tables.lookupAt? place = some entry) :
    path ∈ tables.targetsOf entry.id ↔ ⟨place.directory, entry⟩ ∈ tables.sourcesOf path := by
  obtain ⟨member, live⟩ := mem_of_lookup? found
  have isDirectory : tables.directoryPath? entry.directoryId = some place.directory := by
    have isFound := List.find?_some found
    simp only [Bool.and_eq_true, List.any_eq_true, beq_iff_eq] at isFound
    obtain ⟨-, row, rowMember, isRow, isPath⟩ := isFound
    rw [← isRow, ← isPath]
    exact coherent.directoryPath?_eq_some rowMember
  rw [interned.mem_targetsOf_iff, mem_sourcesOf_iff coherent]
  constructor
  · rintro ⟨link, isLink, isSource, isTarget⟩
    exact ⟨link, isLink, isTarget, isSource, member, live, isDirectory⟩
  · rintro ⟨link, isLink, isTarget, isSource, -⟩
    exact ⟨link, isLink, isSource, isTarget⟩

/-! ## Setting links -/

/-- Targets were put behind those of some tables, and they are still told apart. -/
structure Extends (tables : Tables) (targets : List LinkTarget) : Prop where
  grown : tables.targets <+: targets
  ids : (targets.map (·.id)).Pairwise (· < ·)
  paths : (targets.map (·.path)).Nodup

/-- The target of a link stays what it was. -/
theorem target_extends
    (interned : tables.Interned)
    {targets : List LinkTarget}
    (grown : Extends tables targets)
    {link : Link}
    (member : link ∈ tables.links) :
    targets.find? (·.id == link.target) = tables.targets.find? (·.id == link.target) := by
  obtain ⟨target, isTarget, same⟩ := interned.linked link member
  have before := (Coherent.find?_eq_some_iff_of_pairwise_lt interned.ids).mpr ⟨isTarget, same⟩
  rw [before]
  exact (Coherent.find?_eq_some_iff_of_pairwise_lt grown.ids).mpr
    ⟨grown.grown.subset isTarget, same⟩

/-- A path has a row among the targets once it is interned. -/
theorem internTarget
    (interned : tables.Interned)
    (path : String) :
    ∃ targets,
      tables.internTarget path = ((tables.internTarget path).1, { tables with targets }) ∧
        Extends tables targets ∧ ⟨(tables.internTarget path).1, path⟩ ∈ targets := by
  unfold Tables.internTarget
  cases found : tables.targetId? path with
  | some id =>
      obtain ⟨⟨_, _⟩, isFound, rfl⟩ := Option.map_eq_some_iff.mp found
      have isPath := List.find?_some isFound
      simp only [beq_iff_eq] at isPath
      subst isPath
      exact ⟨tables.targets, rfl, ⟨List.prefix_refl _, interned.ids, interned.paths⟩,
        List.mem_of_find?_eq_some isFound⟩
  | none =>
      have missing := List.find?_eq_none.mp (Option.map_eq_none_iff.mp found)
      refine ⟨_, rfl, ⟨List.prefix_append _ _, ?_, ?_⟩,
        List.mem_append_right _ (List.mem_singleton_self _)⟩
      · rw [List.map_append, List.pairwise_append]
        refine ⟨interned.ids, List.pairwise_singleton _ _, fun id member next isNext => ?_⟩
        rw [List.mem_singleton.mp isNext]
        exact lt_nextId member
      · rw [List.map_append]
        refine interned.paths.append (List.nodup_singleton _) fun other member isPath => ?_
        obtain ⟨target, isTarget, rfl⟩ := List.mem_map.mp member
        exact missing target isTarget (by simpa using isPath)

/-- What links are once some were added. -/
structure Adds (tables : Tables) (source : Int) (added : List String) (after : Tables) : Prop
    extends Extends tables after.targets where
  interned : after.Interned
  own : ∀ path, path ∈ after.targetsOf source ↔ path ∈ tables.targetsOf source ∨ path ∈ added

/-- A link is added. -/
theorem addLink
    (interned : tables.Interned)
    (source : Int)
    (path : String) :
    Adds tables source [path] (tables.addLink source path) := by
  obtain ⟨targets, isInterned, grown, isTarget⟩ := interned.internTarget path
  unfold Tables.addLink
  rw [isInterned]
  generalize (tables.internTarget path).1 = target at isTarget
  dsimp only
  generalize nextId (tables.links.map (·.id)) = id
  have linked :
      Interned { tables with targets, links := tables.links ++ [{ id, source, target }] } := by
    refine ⟨grown.ids, grown.paths, fun link member => ?_⟩
    rcases List.mem_append.mp member with old | new
    · obtain ⟨target, member, same⟩ := interned.linked link old
      exact ⟨target, grown.grown.subset member, same⟩
    · rw [List.mem_singleton.mp new]
      exact ⟨_, isTarget, rfl⟩
  refine ⟨grown, linked, fun other => ?_⟩
  rw [linked.mem_targetsOf_iff, interned.mem_targetsOf_iff]
  have stays {link : Link} (member : link ∈ tables.links) :
      ⟨link.target, other⟩ ∈ targets ↔ ⟨link.target, other⟩ ∈ tables.targets := by
    refine ⟨fun isOther => ?_, fun isOther => grown.grown.subset isOther⟩
    obtain ⟨target, old, same⟩ := interned.linked link member
    have unique :=
      linked.target_eq (grown.grown.subset old) isOther same
    rwa [← unique]
  constructor
  · rintro ⟨link, member, isSource, isOther⟩
    rcases List.mem_append.mp member with old | new
    · exact .inl ⟨link, old, isSource, (stays old).mp isOther⟩
    · rw [List.mem_singleton.mp new] at isOther
      have unique := linked.target_eq isOther isTarget rfl
      cases unique
      exact .inr (List.mem_singleton_self _)
  · rintro (⟨link, old, isSource, isOther⟩ | isPath)
    · exact ⟨link, List.mem_append_left _ old, isSource, (stays old).mpr isOther⟩
    · rw [List.mem_singleton.mp isPath]
      exact ⟨_, List.mem_append_right _ (List.mem_singleton_self _), rfl, isTarget⟩

/-- Links are added one after the other. -/
theorem addLinks
    (interned : tables.Interned)
    (source : Int)
    (paths : List String) :
    Adds tables source paths
      (paths.foldl (fun (linked : Tables) path => linked.addLink source path) tables) := by
  induction paths generalizing tables with
  | nil =>
      exact ⟨⟨List.prefix_refl _, interned.ids, interned.paths⟩, interned, by simp⟩
  | cons path rest inductionHypothesis =>
      have first := interned.addLink source path
      have later := inductionHypothesis first.interned
      refine ⟨⟨first.grown.trans later.grown, later.ids, later.paths⟩, later.interned,
        fun other => ?_⟩
      rw [List.foldl_cons, later.own, first.own, List.mem_singleton, List.mem_cons, or_assoc]

/-- Set links lead to the paths that they were set to, and other links stay. -/
theorem setLinks
    (interned : tables.Interned)
    (source : Int)
    (paths : List String) :
    (tables.setLinks source paths).Interned ∧
      (∀ path, path ∈ (tables.setLinks source paths).targetsOf source ↔ path ∈ paths) ∧
        ∀ other,
          other ≠ source →
          (tables.setLinks source paths).targetsOf other = tables.targetsOf other := by
  have without : (tables.removeLinks source).Interned :=
    interned.congr rfl (List.filter_subset_self _)
  have adds := without.addLinks source paths
  refine ⟨adds.interned, fun path => ?_, fun other apart => ?_⟩
  · have none_ : path ∉ (tables.removeLinks source).targetsOf source := by
      rw [without.mem_targetsOf_iff]
      rintro ⟨link, member, isSource, -⟩
      simpa [isSource] using (List.mem_filter.mp member).2
    exact (adds.own path).trans (or_iff_right none_)
  · unfold targetsOf
    dsimp only
    rw [filter_links_setLinks tables apart]
    refine congrArg (List.mergeSort · fun first second => decide (first ≤ second)) ?_
    refine List.filterMap_congr fun link member => ?_
    have extended : Extends tables (tables.setLinks source paths).targets :=
      ⟨adds.grown, adds.ids, adds.paths⟩
    exact congrArg (Option.map LinkTarget.path)
      (interned.target_extends extended (List.mem_of_mem_filter member))

end Interned

/-! ## What keeps links -/

/-- Edits keep targets told apart. -/
theorem Edit.interned
    {asked : Int → Prop}
    {start : Tables}
    (edit : Edit asked start tables after)
    (interned : tables.Interned) :
    after.Interned := by
  cases edit with
  | linked id paths =>
      exact (interned.setLinks id paths).1
  | removedFiles files =>
      exact interned.congr rfl (List.filter_subset_self _)
  | _ =>
      exact interned.congr rfl (List.Subset.refl _)

/-- Storing contents keeps targets told apart. -/
theorem stores_interned :
    EnduresStoring (fun _ => True) (fun _ => True) Interned where
  recorded _ _ _ _ _ _ interned := interned.congr rfl (List.Subset.refl _)
  stored _ _ _ _ interned := interned.congr rfl (List.Subset.refl _)
  replaced _ _ _ _ interned := interned.congr rfl (List.Subset.refl _)

/-- A new store has no links. -/
theorem interned_seed
    (roots : List String)
    (now : Int) :
    (seed roots now).Interned := by
  obtain ⟨-, targets, links⟩ := bare_seed roots now
  constructor <;> simp [targets, links]

/-! ## Links at paths -/

/-- The paths that what lies at a path links to. -/
def linksAt (tables : Tables) (place : CleanPath) : List String :=
  match tables.lookupAt? place with
  | some entry => tables.targetsOf entry.id
  | none => []

/-- The links at a path were set, and those at other paths stay. -/
structure Relinks (before : Tables) (place : CleanPath) (links : List String) (after : Tables) :
    Prop where
  own : ∀ path, path ∈ after.linksAt place ↔ path ∈ links
  others : ∀ other, other ≠ place → after.linksAt other = before.linksAt other

/-- Setting the links of what lies at a path changes no other links. -/
theorem Interned.relinks
    (interned : tables.Interned)
    (coherent : tables.Coherent)
    {place : CleanPath}
    {entry : Entry}
    (found : tables.lookupAt? place = some entry)
    (links : List String) :
    Relinks tables place links (tables.setLinks entry.id links) := by
  obtain ⟨-, own, others⟩ := interned.setLinks entry.id links
  have sameLookup (path : CleanPath) :
      (tables.setLinks entry.id links).lookupAt? path = tables.lookupAt? path := by
    obtain ⟨targets, rows, isResult⟩ := setLinks_eq entry.id links tables
    rw [isResult]
    rfl
  refine ⟨fun path => ?_, fun other apart => ?_⟩
  · rw [linksAt, sameLookup, found]
    exact own path
  · rw [linksAt, linksAt, sameLookup]
    cases isOther : tables.lookupAt? other with
    | none =>
        rfl
    | some row =>
        refine others row.id fun same => apart ?_
        have there := coherent.lookupAt?_eq_some_iff.mp isOther
        have here := coherent.lookupAt?_eq_some_iff.mp found
        have isEntry := coherent.entry_eq there.member here.member same
        subst isEntry
        exact congrArg CleanPath.mk (coherent.at_names_unique there here)

end Tables

open VersionStore.Action in
/-- Links are set where an entry lies. -/
theorem Txn.setLinks_known
    {setting : Setting}
    {before : Tables}
    {text : String}
    {place : CleanPath}
    {entry : Entry}
    (isPath : CleanPath.ofText text = .ok place)
    (found : before.lookupAt? place = some entry)
    (links : List String) :
    Works setting (· = before) (Txn.setLinks text links)
      (fun done tables => done = true ∧ tables = before.setLinks entry.id links)
      fun _ _ => False := by
  have stat :
      Works setting (· = before) (Txn.stat text)
        (fun looked tables => looked = some entry ∧ tables = before) fun _ _ => False := by
    refine .bind (fun path tables => path = place ∧ tables = before) (.ofExcept ?_) fun path => ?_
    · rintro _ rfl
      rw [isPath]
      exact ⟨rfl, rfl⟩
    · refine .entryAt? ?_
      rintro _ ⟨rfl, rfl⟩
      exact ⟨found, rfl⟩
  refine .bind _ stat fun looked => ?_
  cases looked with
  | none =>
      exact .pure fun _ absurd => nomatch absurd.1
  | some row =>
      refine .bind (fun _ tables => tables = before.setLinks entry.id links) (.update ?_) fun _ =>
        .pure fun _ same => ⟨rfl, same⟩
      rintro _ ⟨same, rfl⟩
      cases same
      rfl

end VersionStore
