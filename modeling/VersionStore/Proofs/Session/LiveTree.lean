import VersionStore.Proofs.Session.Tree

namespace VersionStore

/-!
# The live tree

What the users of a store rely on: the live entries make up a tree, and the two ways to
find an entry in it, by the written path of its directory and by going down from the top,
agree with each other and with what directories list.
-/

namespace Tables

/-- The live entries make up a tree, and look-ups and listings agree with it. -/
structure IsTree (tables : Tables) : Prop where
  /-- Every live entry but the top one lies in a live directory. -/
  placed :
    ∀ entry ∈ tables.entries,
      entry.isDeleted = false →
      entry.id ≠ rootId →
      ∃ holder ∈ tables.entries,
        holder.id = entry.directoryId ∧ holder.isDirectory = true ∧ holder.isDeleted = false
  /-- Live entries in one directory differ in their names. -/
  distinct :
    ∀ first ∈ tables.entries,
      ∀ second ∈ tables.entries,
        first.isDeleted = false →
        second.isDeleted = false →
        first.directoryId = second.directoryId →
        first.name = second.name →
        first = second
  /-- No entry but the top one lies in or below itself. -/
  acyclic :
    ∀ entry ∈ tables.entries, entry.id ≠ rootId → ¬tables.Below entry.id entry.directoryId
  /-- The path of a live directory is its name below the path of the directory it lies in. -/
  paths :
    ∀ entry,
      tables.IsLiveDirectory entry →
      entry.id ≠ rootId →
      ∃ path,
        tables.directoryPath? entry.directoryId = some path ∧
          tables.directoryPath? entry.id = some (Path.join path entry.name)
  /-- The top directory has the empty path. -/
  topPath : tables.directoryPath? rootId = some ""
  /-- Looking up a path is going down along its names. -/
  resolved : ∀ path, tables.lookupAt? path = tables.walk? path.names
  /-- A live directory lists what is found one name further. -/
  listed :
    ∀ path directory,
      tables.lookupAt? path = some directory →
      directory.isDirectory = true →
      ∀ entry,
        entry ∈ tables.listing directory.id ↔
          ∃ name : Name,
            entry.name = name.text ∧ tables.lookupAt? ⟨path.names ++ [name]⟩ = some entry
  /-- Listings are sorted by name, and hold each name once. -/
  sorted :
    ∀ id, (tables.listing id).Pairwise fun first second => first.name < second.name
  /-- Nothing is found behind a path that leads to no live directory. -/
  childless :
    ∀ path name entry,
      tables.lookupAt? ⟨path.names ++ [name]⟩ = some entry →
      ∃ directory, tables.lookupAt? path = some directory ∧ directory.isDirectory = true

variable {tables : Tables}

/-- Coherent tables hold a tree. -/
theorem Coherent.isTree
    (coherent : tables.Coherent) :
    tables.IsTree := by
  constructor
  case placed =>
    intro entry member live _
    obtain ⟨holder, isLive, same⟩ := coherent.placed entry member live
    exact ⟨holder, isLive.member, same, isLive.isDirectory, isLive.live⟩
  case distinct =>
    exact coherent.distinct
  case acyclic =>
    intro entry member proper
    obtain ⟨rank, ranked⟩ := coherent.ranked
    exact ranked.not_below_holder member proper
  case paths =>
    intro entry isLive proper
    obtain ⟨row, rowMember, ownsRow⟩ := coherent.housed entry isLive
    obtain ⟨holder, holderLive, same⟩ := coherent.placed entry isLive.member isLive.live
    obtain ⟨above, aboveMember, ownsAbove⟩ := coherent.housed holder holderLive
    refine ⟨above.path, ?_, ?_⟩
    · rw [← same, ← ownsAbove]
      exact coherent.directoryPath?_eq_some aboveMember
    · rw [← ownsRow, coherent.directoryPath?_eq_some rowMember,
        coherent.paths entry isLive.member proper row rowMember ownsRow above aboveMember
          (ownsAbove.trans same)]
  case topPath =>
    exact coherent.directoryPath?_eq_some coherent.topRow
  case resolved =>
    exact coherent.lookupAt?_eq_walk?
  case listed =>
    intro path directory found _ entry
    rw [coherent.mem_listing_iff (coherent.lookupAt?_eq_some_iff.mp found)]
    constructor
    · rintro ⟨name, there⟩
      obtain ⟨_, _, _, _, _, _, called⟩ := there.of_concat
      exact ⟨name, called, coherent.lookupAt?_eq_some_iff.mpr there⟩
    · rintro ⟨name, -, there⟩
      exact ⟨name, coherent.lookupAt?_eq_some_iff.mp there⟩
  case sorted =>
    exact coherent.pairwise_listing
  case childless =>
    intro path name entry found
    obtain ⟨holder, above, member, _, live, held, _⟩ :=
      (coherent.lookupAt?_eq_some_iff.mp found).of_concat
    exact ⟨holder, coherent.lookupAt?_eq_some_iff.mpr above,
      (coherent.isLiveDirectory_of_holds member live above.member held).isDirectory⟩

end Tables

namespace Session

open VersionStore.Action

/-- What a session answers about its live tree is the same in either way of asking. -/
structure Answers (session : Session) : Prop where
  /-- The entry at a path is the one that going down along its names leads to. -/
  stat :
    ∀ path,
      ((Txn.entryAt? path).runOn session.store).1 = .ok (session.store.tables.walk? path.names)
  /-- A path is listed exactly when it leads to a live directory. -/
  listable :
    ∀ path,
      ((Txn.listAt path).runOn session.store).1.isOk = true ↔
        ∃ directory,
          ((Txn.entryAt? path).runOn session.store).1 = .ok (some directory) ∧
            directory.isDirectory = true
  /-- What is listed is what is found one name further, in the order of names. -/
  list :
    ∀ path entries,
      ((Txn.listAt path).runOn session.store).1 = .ok entries →
      (entries.Pairwise fun first second => first.name < second.name) ∧
        ∀ entry,
          entry ∈ entries ↔
            ∃ name : Name,
              entry.name = name.text ∧
                ((Txn.entryAt? ⟨path.names ++ [name]⟩).runOn session.store).1 = .ok (some entry)

variable {session : Session}

/-- An entry is looked up in the tables of a store. -/
theorem runOn_entryAt?
    {store : Store}
    (alone : store.Alone)
    (path : CleanPath) :
    ((Txn.entryAt? path).runOn store).1 = .ok (store.tables.lookupAt? path) := by
  rw [Txn.entryAt?, runOn_query alone]
  rfl

/-- A directory is listed from the tables of a store. -/
theorem runOn_listAt
    {store : Store}
    (alone : store.Alone)
    (path : CleanPath) :
    ((Txn.listAt path).runOn store).1 =
      match store.tables.lookupAt? path with
      | none => .error (.notFound path.text)
      | some entry =>
          if entry.isDirectory then .ok (store.tables.listing entry.id)
          else .error (.notADirectory path.text) := by
  have aloneAfter : (store.noting .reading).Alone := by
    unfold Store.noting
    split
    · exact alone
    · exact ⟨alone.damage, alone.writable, alone.others⟩
  have asked :
      (Txn.entryAt? path).runOn store =
        (.ok (store.tables.lookupAt? path), store.noting .reading) :=
    runOn_query alone _ _
  rw [Txn.listAt, runOn_bind, Txn.requireEntry, runOn_bind, asked]
  dsimp only
  cases store.tables.lookupAt? path with
  | none =>
      rfl
  | some entry =>
      dsimp only [Action.require]
      rw [runOn_pure]
      dsimp only
      cases entry.isDirectory with
      | false =>
          rfl
      | true =>
          change ((query fun tables => tables.listing entry.id).runOn _).1 = _
          rw [runOn_query aloneAfter, noting_tables]
          rfl

/-- A sound session answers about a tree. -/
theorem Sound.answers
    {strict : Prop}
    (sound : session.Sound strict) :
    session.Answers := by
  have isTree := sound.all.tables.coherent.isTree
  constructor
  case stat =>
    intro path
    rw [runOn_entryAt? sound.steady.toAlone, isTree.resolved]
  case listable =>
    intro path
    rw [runOn_listAt sound.steady.toAlone, runOn_entryAt? sound.steady.toAlone]
    cases session.store.tables.lookupAt? path with
    | none =>
        simp [Except.isOk, Except.toBool]
    | some entry =>
        cases kind : entry.isDirectory <;> simp [kind, Except.isOk, Except.toBool]
  case list =>
    intro path entries isList
    rw [runOn_listAt sound.steady.toAlone] at isList
    cases found : session.store.tables.lookupAt? path with
    | none =>
        rw [found] at isList
        cases isList
    | some entry =>
        rw [found] at isList
        dsimp only at isList
        cases kind : entry.isDirectory with
        | false =>
            rw [kind] at isList
            cases isList
        | true =>
            rw [kind] at isList
            cases isList
            refine ⟨isTree.sorted entry.id, fun other => ?_⟩
            simp only [runOn_entryAt? sound.steady.toAlone, Except.ok.injEq]
            exact isTree.listed path entry found kind other

/-- Whatever happens in a session on a new store, its tables hold a tree and its answers agree
with it. -/
theorem isTree_of_reachable
    {config : Config}
    (named : ∀ root ∈ config.roots, IsName root)
    (distinct : config.roots.Nodup)
    {timed : Bool}
    {now : Int}
    (reachable : Reachable (fun _ _ _ => True) (start config timed now) session) :
    session.store.tables.IsTree ∧
      session.store.kept.IsTree ∧
      (∀ saved ∈ session.store.savepoints, saved.IsTree) ∧
      session.Answers := by
  have sound : session.Sound False :=
    Sound.of_reachable (.start named distinct timed now) (fun absurd => absurd.elim) reachable
  exact ⟨sound.all.tables.coherent.isTree, (sound.all.kept sound.steady).coherent.isTree,
    fun saved member => (sound.all.saved saved member).coherent.isTree, sound.answers⟩

/-- After a directory was made the tables hold a tree. -/
theorem isTree_makeDirectories :
    let session := (start {} false 0).after 1 (.whole (.makeDirectories "home/a"))
    session.store.tables.IsTree ∧ session.Answers := by
  have made :
      Step (fun _ _ _ => True) (start {} false 0)
        ((start {} false 0).after 1 (.whole (.makeDirectories "home/a"))) :=
    .event trivial trivial
  obtain ⟨isTree, -, -, answers⟩ := isTree_of_reachable (by decide) (by decide) (.single made)
  exact ⟨isTree, answers⟩

end Session

end VersionStore
