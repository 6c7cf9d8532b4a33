import VersionStore.Host.Basic

namespace VersionStore

/-!
# Stores on different files

Stores get in each other's way through the file of their database only. Work on one
store leaves what another store on another file finds, and so what comes of any work
on that one.
-/

namespace Folder

variable {folder : Folder} {name : String} {file : HostFile}

/-- A file that is put somewhere leaves those under other names. -/
theorem lookup_put_of_ne
    {other : String}
    (different : other ≠ name) :
    (folder.put name file).lookup other = folder.lookup other := by
  have filtered :
      ∀ files : Folder, (files.filter (·.1 != name)).lookup other = files.lookup other := by
    intro files
    induction files with
    | nil =>
        rfl
    | cons first rest inductionHypothesis =>
        obtain ⟨key, held⟩ := first
        by_cases gone : key = name
        · have passed : (other == key) = false := by
            simpa [gone] using different
          rw [List.lookup_cons, ← gone, passed]
          simp [gone, inductionHypothesis]
        · simp [gone, List.lookup_cons, inductionHypothesis]
  have passed : (other == name) = false := by
    simpa using different
  rw [put, List.lookup_cons, passed]
  exact filtered folder

/-- A file that takes the place of another leaves which names have one. -/
theorem isSome_lookup_put
    (there : (folder.lookup name).isSome = true)
    (other : String) :
    ((folder.put name file).lookup other).isSome = (folder.lookup other).isSome := by
  by_cases same : other = name
  · subst same
    simp [put, there]
  · rw [lookup_put_of_ne same]

/-- The name that a path comes to depends on which names have files. -/
theorem databaseName?_put
    (there : (folder.lookup name).isSome = true)
    (path : String) :
    (folder.put name file).databaseName? path = folder.databaseName? path := by
  have same : (folder.put name file).follow? = folder.follow? := by
    funext gathered component
    simp only [follow?, isSome_lookup_put there]
  rw [databaseName?, databaseName?, same]

end Folder

namespace Host

variable {host : Host} {id other : StoreId} {name : String} {left : Store}

/-- A store's file is not the one of a name, neither now nor when the store is connected
with its database again. -/
def IsApart (host : Host) (store : Store) (name : String) : Prop :=
  store.file ≠ some name ∧
    (store.connected = false → host.databaseFile? store.config.path ≠ .ok (some name))

/-- A row that is left out of a numbered list may be replaced by another such row. -/
private theorem filter_zipIdx_set
    (keeps : Store × Nat → Bool)
    (stores : List Store)
    (start index : Nat)
    (store : Store)
    (before : ∀ old, stores[index]? = some old → keeps (old, start + index) = false)
    (after : keeps (store, start + index) = false) :
    ((stores.set index store).zipIdx start).filter keeps =
      (stores.zipIdx start).filter keeps := by
  induction stores generalizing start index with
  | nil =>
      rfl
  | cons first rest inductionHypothesis =>
      cases index with
      | zero =>
          have dropped : keeps (first, start) = false := before first rfl
          have droppedToo : keeps (store, start) = false := after
          simp [List.zipIdx_cons, dropped, droppedToo]
      | succ index =>
          have shifted : start + 1 + index = start + (index + 1) := by omega
          simp only [List.set_cons_succ, List.zipIdx_cons, List.filter_cons]
          rw [inductionHypothesis (start + 1) index
            (by rw [shifted]; exact fun old found => before old (by simpa using found))
            (by rw [shifted]; exact after)]

/-- The end of work on a store changes that store and its file only. -/
theorem keep_eq
    (host : Host)
    (id : StoreId)
    (left : Store) :
    ∃ files,
      host.keep id left = { host with stores := host.stores.setIfInBounds id left, files } := by
  unfold keep save
  split
  · exact ⟨_, rfl⟩
  · exact ⟨host.files, rfl⟩

/-- The other stores stay when the work on one is done. -/
theorem store_keep_of_ne
    (different : other ≠ id) :
    (host.keep id left).store other = host.store other := by
  obtain ⟨files, kept⟩ := host.keep_eq id left
  rw [kept, store, store, Array.getD_eq_getD_getElem?, Array.getD_eq_getD_getElem?,
    Array.getElem?_setIfInBounds_ne different.symm]

/-- The store that was worked on is as the work left it. -/
theorem store_keep_self
    (host : Host)
    (id : StoreId)
    (left : Store) :
    (host.keep id left).store id = if id < host.stores.size then left else default := by
  obtain ⟨files, kept⟩ := host.keep_eq id left
  rw [kept, store, Array.getD_eq_getD_getElem?, Array.getElem?_setIfInBounds_self]
  split <;> rfl

/-- What is done with a file that the work was not about stays. -/
theorem accessTo_keep
    (before : (host.store id).file ≠ some name)
    (after : left.file ≠ some name)
    (except? : Option StoreId) :
    (host.keep id left).accessTo name except? = host.accessTo name except? := by
  obtain ⟨files, kept⟩ := host.keep_eq id left
  rw [kept, accessTo, accessTo, Array.toList_setIfInBounds]
  congr 1
  apply filter_zipIdx_set
  · intro old found
    have isOld : host.store id = old := by
      rw [store, Array.getD_eq_getD_getElem?, ← Array.getElem?_toList, found]
      rfl
    rw [isOld] at before
    simp [before]
  · simp [after]

/-- What a store does is nothing that others do. -/
theorem accessTo_keep_self
    (host : Host)
    (id : StoreId)
    (left : Store)
    (name : String) :
    (host.keep id left).accessTo name (some id) = host.accessTo name (some id) := by
  obtain ⟨files, kept⟩ := host.keep_eq id left
  rw [kept, accessTo, accessTo, Array.toList_setIfInBounds]
  congr 1
  apply filter_zipIdx_set
  · intro old found
    simp
  · simp

/-- Files under other names stay. -/
theorem lookup_keep
    (after : left.file ≠ some name) :
    (host.keep id left).files.lookup name = host.files.lookup name := by
  unfold keep save
  split
  · rename_i held isFile _ _
    rw [isFile] at after
    exact Folder.lookup_put_of_ne fun same => after (congrArg some same.symm)
  · rfl

/-- A look at its file leaves a store on that file. -/
theorem file_refresh
    (store : Store)
    (file : HostFile) :
    (refresh store file).file = store.file := by
  unfold refresh
  split <;> rfl

section Finding

variable
  (sameFile : left.file = (host.store id).file)
  (there : ∀ name, left.file = some name → (host.files.lookup name).isSome = true)

include there in
/-- The file of a database path stays the same one. -/
theorem databaseFile?_keep
    (path : String) :
    (host.keep id left).databaseFile? path = host.databaseFile? path := by
  have same :
      ∀ path,
        (host.keep id left).files.databaseName? path = host.files.databaseName? path := by
    intro path
    unfold keep save
    split
    · rename_i held isFile _ _
      exact Folder.databaseName?_put (there held isFile) path
    · rfl
  simp only [databaseFile?, same]

include sameFile there in
/-- What a store is opened on does not depend on work on another file. -/
theorem opening_keep
    {config : Config}
    (apart : ∀ name, left.file = some name → host.databaseFile? config.path ≠ .ok (some name))
    (discard : Bool)
    (now : Int) :
    (host.keep id left).opening config discard now = host.opening config discard now := by
  unfold opening
  rw [databaseFile?_keep there]
  cases isFile : host.databaseFile? config.path with
  | error cause =>
      rfl
  | ok file? =>
      cases file? with
      | none =>
          rfl
      | some name =>
          have after : left.file ≠ some name := fun same => apart name same isFile
          have before : (host.store id).file ≠ some name := by rwa [← sameFile]
          simp only [bind, Except.bind, requireReadable, accessTo_keep before after,
            lookup_keep after]

/-- A store is opened on the file of its path, if on any. -/
theorem file_of_opening
    {config : Config}
    {discard : Bool}
    {now : Int}
    {opened : Opening}
    (opens : host.opening config discard now = .ok opened)
    (isFile : opened.file = some name) :
    host.databaseFile? config.path = .ok (some name) := by
  unfold opening at opens
  simp only [bind, Except.bind] at opens
  split at opens
  · cases opens
  split at opens
  · cases opens
  split at opens
  · cases opens
    cases isFile
  rename_i held found
  -- Every way to open the file fails or opens the file that was found.
  have same : opened.file = some held := by
    repeat' split at opens
    all_goals cases opens
    all_goals rfl
  rw [isFile] at same
  rw [found, same]

include sameFile there in
/-- What a store finds before its work does not depend on work on another file. -/
theorem attach_keep
    (different : other ≠ id)
    (apart : ∀ name, left.file = some name → host.IsApart (host.store other) name) :
    (host.keep id left).attach other ((host.keep id left).store other) =
      host.attach other (host.store other) := by
  have found :
      (host.keep id left).upToDate (host.store other) = host.upToDate (host.store other) ∧
        ∀ name,
          left.file = some name →
          (host.upToDate (host.store other)).file ≠ some name := by
    unfold upToDate
    cases connected : (host.store other).connected with
    | true =>
        rw [if_pos rfl, if_pos rfl]
        cases isFile : (host.store other).file with
        | none =>
            refine ⟨rfl, fun name _ => ?_⟩
            simp [isFile]
        | some held =>
            have after : left.file ≠ some held := fun same => (apart held same).1 isFile
            refine ⟨by simp [lookup_keep after], fun name same => ?_⟩
            rw [Option.bind_some]
            split
            · rw [file_refresh]
              exact (apart name same).1
            · exact (apart name same).1
    | false =>
        have closed name same := (apart name same).2 connected
        have clock : (host.keep id left).clock = host.clock := by
          obtain ⟨files, kept⟩ := host.keep_eq id left
          rw [kept]
        rw [if_neg Bool.false_ne_true, if_neg Bool.false_ne_true, clock,
          opening_keep sameFile there closed]
        refine ⟨rfl, fun name same => ?_⟩
        split
        · rename_i opened opens
          exact fun isFile => closed name same (file_of_opening opens isFile)
        · exact (apart name same).1
  rw [store_keep_of_ne different, attach, attach, found.1]
  cases isFile : (host.upToDate (host.store other)).file with
  | none =>
      rfl
  | some name =>
      have after : left.file ≠ some name := fun same => found.2 name same isFile
      rw [Option.map_some, Option.map_some, accessTo_keep (by rwa [← sameFile]) after]

include sameFile there in
/-- Work on one store is no part of what comes of work on another, on another file. -/
theorem runOn_keep
    (different : other ≠ id)
    (apart : ∀ name, left.file = some name → host.IsApart (host.store other) name)
    (action : Action α) :
    ((host.keep id left).runOn other action).1 = (host.runOn other action).1 ∧
      ((host.keep id left).runOn other action).2.store other =
        (host.runOn other action).2.store other := by
  have found := attach_keep sameFile there different apart
  have size : (host.keep id left).stores.size = host.stores.size := by
    obtain ⟨files, kept⟩ := host.keep_eq id left
    rw [kept, Array.size_setIfInBounds]
  unfold store at found
  rw [runOn, runOn, visit, visit, found]
  refine ⟨rfl, ?_⟩
  rw [store_keep_self, store_keep_self, size]

end Finding

end Host

end VersionStore
