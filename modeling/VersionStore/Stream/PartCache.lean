import VersionStore.Entry

namespace VersionStore

/-!
# The part cache

A reader keeps the parts it used last, the most recent first. A part that is
used again moves to the front; a new part pushes out the one that was not used
for longest. There is always room for one part.
-/

/-- The parts used last. -/
structure PartCache where
  /-- Parts, the most recently used first. -/
  contents : List Content := []
  /-- How many parts are kept, not counting that there is room for one. -/
  entries : Nat
  deriving DecidableEq

namespace PartCache

/-- A cache without parts. -/
def empty (entries : Nat) : PartCache :=
  { entries }

/-- The number of parts that fit. -/
def capacity (cache : PartCache) : Nat :=
  max cache.entries 1

/-- The ids of the cached parts, the most recently used first. -/
def ids (cache : PartCache) : List Int :=
  cache.contents.map (·.id)

/-- A cached part. -/
def find? (cache : PartCache) (id : Int) : Option Content :=
  cache.contents.find? (·.id == id)

/-- Put a cached part in front. -/
def promote (cache : PartCache) (content : Content) : PartCache :=
  { cache with contents := content :: cache.contents.eraseP (·.id == content.id) }

/-- Put a new part in front, pushing the last one out when there is no room. -/
def admitted (cache : PartCache) (content : Content) : PartCache :=
  let kept :=
    if cache.capacity ≤ cache.contents.length then cache.contents.dropLast
    else cache.contents
  { cache with contents := content :: kept }

/-- The part of an id, loaded when it is not cached, and the cache after its use.
A load that fails changes nothing. -/
def get
    [Monad m]
    (cache : PartCache)
    (id : Int)
    (load : ExceptT ε m Content) :
    ExceptT ε m (Content × PartCache) :=
  match cache.find? id with
  | some content => return (content, cache.promote content)
  | none => do
      let content ← load
      return (content, cache.admitted content)

variable
  {cache : PartCache}
  {content other : Content}
  {id : Int}

/-- A part that is cached is given, and nothing is loaded. -/
theorem get_of_cached
    [Monad m]
    (found : cache.find? id = some content)
    (load : ExceptT ε m Content) :
    cache.get id load = pure (content, cache.promote content) := by
  rw [get, found]

/-- A part that is not cached is loaded. -/
theorem get_of_missing
    [Monad m]
    (missing : cache.find? id = none)
    (load : ExceptT ε m Content) :
    cache.get id load = do
      let content ← load
      return (content, cache.admitted content) := by
  rw [get, missing]

/-- Moving a part to the front brings in no other. -/
theorem mem_promote
    (member : other ∈ (cache.promote content).contents) :
    other = content ∨ other ∈ cache.contents :=
  (List.mem_cons.mp member).imp_right List.mem_of_mem_eraseP

/-- Putting a new part in front brings in no other. -/
theorem mem_admitted
    (member : other ∈ (cache.admitted content).contents) :
    other = content ∨ other ∈ cache.contents := by
  rcases List.mem_cons.mp member with isNew | kept
  · exact .inl isNew
  · split at kept
    · exact .inr (List.dropLast_subset _ kept)
    · exact .inr kept

end PartCache

end VersionStore
