import Mathlib.Data.List.Dedup
import VersionStore.Proofs.Stream.Reading

namespace VersionStore

/-!
# Parts used last

A cache holds the parts that were asked for last, each once and the last one in front, as many as
there is room for. What is cached is given without loading it. Everything else is loaded once, and
a load that fails leaves the cache alone. A reader asks its cache for parts in this way.
-/

/-! ## Ids by their last use -/

/-- The ids that were asked for, each once, the one that was asked for last in front. -/
def recency (asked : List Int) : List Int :=
  -- of ids that are equal `dedup` keeps the last one
  asked.dedup.reverse

/-- No id is there twice. -/
theorem nodup_recency
    (asked : List Int) :
    (recency asked).Nodup :=
  List.nodup_reverse.mpr asked.nodup_dedup

/-- Among the first ids no id is there twice either. -/
theorem nodup_take_recency
    (asked : List Int)
    (room : Nat) :
    ((recency asked).take room).Nodup :=
  (nodup_recency asked).sublist (List.take_sublist _ _)

/-- An id that is asked for again is kept where it was asked for last. -/
theorem dedup_concat
    (asked : List Int)
    (id : Int) :
    (asked ++ [id]).dedup = asked.dedup.erase id ++ [id] := by
  induction asked with
  | nil =>
      rfl
  | cons first rest inductionHypothesis =>
      rw [List.cons_append]
      by_cases again : first ∈ rest
      · rw [List.dedup_cons_of_mem (List.mem_append_left _ again), List.dedup_cons_of_mem again,
          inductionHypothesis]
      rw [List.dedup_cons_of_notMem again]
      by_cases same : first = id
      · subst same
        have absent : first ∉ rest.dedup := List.mem_dedup.not.mpr again
        rw [List.dedup_cons_of_mem (by simp), inductionHypothesis, List.erase_cons_head,
          List.erase_of_not_mem absent]
      · have absent : first ∉ rest ++ [id] := by simp [again, same]
        rw [List.dedup_cons_of_notMem absent, inductionHypothesis,
          List.erase_cons_tail (by simpa using same), List.cons_append]

/-- An id that is asked for moves to the front. -/
theorem recency_concat
    (asked : List Int)
    (id : Int) :
    recency (asked ++ [id]) = id :: (recency asked).erase id := by
  have erased : (recency asked).erase id = (asked.dedup.erase id).reverse := by
    rw [(nodup_recency asked).erase_eq_filter, asked.nodup_dedup.erase_eq_filter, recency,
      List.filter_reverse]
  rw [recency, dedup_concat, List.reverse_append, erased]
  rfl

section First

variable
  {ids : List Int}
  {id : Int}
  {room : Nat}

/-- When one of the first ids is left out, the others move up. -/
theorem erase_take_of_mem
    (member : id ∈ ids.take (room + 1)) :
    (ids.take (room + 1)).erase id = (ids.erase id).take room := by
  induction ids generalizing room with
  | nil =>
      cases member
  | cons first rest inductionHypothesis =>
      rw [List.take_succ_cons] at member ⊢
      by_cases same : first = id
      · subst same
        rw [List.erase_cons_head, List.erase_cons_head]
      have behind : id ∈ rest.take room := by
        simpa [Ne.symm same] using member
      rw [List.erase_cons_tail (by simpa using same), List.erase_cons_tail (by simpa using same)]
      cases room with
      | zero =>
          cases behind
      | succ room =>
          rw [inductionHypothesis behind, List.take_succ_cons]

/-- When another id is left out, the first ones stay. -/
theorem take_erase_of_notMem
    (notMember : id ∉ ids.take (room + 1)) :
    (ids.erase id).take room = ids.take room := by
  induction ids generalizing room with
  | nil =>
      rfl
  | cons first rest inductionHypothesis =>
      rw [List.take_succ_cons, List.mem_cons, not_or] at notMember
      obtain ⟨different, notBehind⟩ := notMember
      rw [List.erase_cons_tail (by simpa using Ne.symm different)]
      cases room with
      | zero =>
          rfl
      | succ room =>
          rw [List.take_succ_cons, List.take_succ_cons, inductionHypothesis notBehind]

/-- When the first ids are as many as may be, leaving out the last one of them makes room. -/
theorem dropLast_take_of_full
    (ids : List Int)
    (room : Nat) :
    (if room + 1 ≤ (ids.take (room + 1)).length then (ids.take (room + 1)).dropLast
      else ids.take (room + 1)) = ids.take room := by
  rw [List.length_take]
  split
  · rename_i full
    rw [List.dropLast_eq_take, List.take_take, List.length_take]
    congr 1
    omega
  · rename_i spare
    have fewer : ids.length ≤ room := by omega
    rw [List.take_of_length_le fewer, List.take_of_length_le (Nat.le_succ_of_le fewer)]

end First

namespace PartCache

variable
  {cache : PartCache}
  {content : Content}
  {id : Int}
  {earlier : List Int}

/-! ## One use -/

/-- There is room for one part and some more. -/
theorem exists_room
    (cache : PartCache) :
    ∃ room, cache.capacity = room + 1 :=
  Nat.exists_eq_add_one.mpr (Nat.lt_of_lt_of_le Nat.one_pos (Nat.le_max_right _ _))

/-- A part that is cached is found by its id. -/
theorem find?_eq_some_iff
    (distinct : cache.ids.Nodup) :
    cache.find? id = some content ↔ content ∈ cache.contents ∧ content.id = id := by
  constructor
  · intro found
    exact ⟨List.mem_of_find?_eq_some found, by simpa using List.find?_some found⟩
  · rintro ⟨member, rfl⟩
    cases found : cache.find? content.id with
    | none =>
        simpa using List.find?_eq_none.mp found content member
    | some other =>
        have isCached := List.mem_of_find?_eq_some found
        have sameId : other.id = content.id := by simpa using List.find?_some found
        rw [List.inj_on_of_nodup_map distinct isCached member sameId]

/-- Nothing is found under an id that is not cached. -/
theorem find?_eq_none_iff :
    cache.find? id = none ↔ id ∉ cache.ids := by
  simp [find?, ids]

/-- A part that is used again moves to the front. -/
theorem ids_promote
    (cache : PartCache)
    (content : Content) :
    (cache.promote content).ids = content.id :: cache.ids.erase content.id := by
  rw [ids, ids, List.erase_eq_eraseP', List.eraseP_map]
  rfl

/-- A new part comes in front, and the last one goes when there is no room. -/
theorem ids_admitted
    (cache : PartCache)
    (content : Content) :
    (cache.admitted content).ids =
      content.id ::
        if cache.capacity ≤ cache.ids.length then cache.ids.dropLast else cache.ids := by
  rw [ids, ids, List.length_map]
  unfold admitted
  dsimp only
  rw [List.map_cons]
  split
  · rw [List.map_dropLast]
  · rfl

/-- A part that is used again is the one that was asked for last. -/
theorem recent_promote
    (recent : cache.ids = (recency earlier).take cache.capacity)
    (member : content.id ∈ cache.ids) :
    (cache.promote content).ids = (recency (earlier ++ [content.id])).take cache.capacity := by
  obtain ⟨room, isRoom⟩ := cache.exists_room
  rw [isRoom] at recent ⊢
  rw [recent] at member
  rw [ids_promote, recent, erase_take_of_mem member, recency_concat, List.take_succ_cons]

/-- A new part is the one that was asked for last, and pushes out the one that was not asked for
for longest. -/
theorem recent_admitted
    (recent : cache.ids = (recency earlier).take cache.capacity)
    (missing : content.id ∉ cache.ids) :
    (cache.admitted content).ids = (recency (earlier ++ [content.id])).take cache.capacity := by
  obtain ⟨room, isRoom⟩ := cache.exists_room
  rw [ids_admitted, isRoom]
  rw [isRoom] at recent
  rw [recent] at missing ⊢
  rw [dropLast_take_of_full, recency_concat, List.take_succ_cons, take_erase_of_notMem missing]

/-! ## One use after the other -/

/-- What a cache is asked for: the id of a part, and how to load it in a world that loading may
change. A part that is loaded has that id. -/
structure Demand (σ ε : Type) where
  id : Int
  load : ExceptT ε (StateM σ) Content
  loads_id :
    ∀ world content,
      (Id.run (StateT.run (ExceptT.run load) world)).1 = .ok content →
      content.id = id

namespace Demand

/-- Load the part in a world. -/
def loadIn (demand : Demand σ ε) (world : σ) : Except ε Content × σ :=
  Id.run (StateT.run (ExceptT.run demand.load) world)

/-- Load the part, and count that it was done once more. -/
def counted (demand : Demand σ ε) : ExceptT ε (StateM (σ × Nat)) Content :=
  ExceptT.mk fun (world, loads) =>
    let (outcome, left) := demand.loadIn world
    (outcome, left, loads + 1)

/-- Counting makes no difference to what is loaded. -/
theorem run_counted
    (demand : Demand σ ε)
    (world : σ)
    (loads : Nat) :
    StateT.run (ExceptT.run demand.counted) (world, loads) =
      ((demand.loadIn world).1, (demand.loadIn world).2, loads + 1) :=
  rfl

end Demand

/-- A cache that is in use, and what was done with it. -/
structure Service (σ : Type) where
  cache : PartCache
  world : σ
  /-- How often something was loaded. -/
  loads : Nat := 0
  /-- The ids that were asked for with success and the parts that were given, in this order. -/
  given : List (Int × Content) := []

namespace Service

variable
  {entries : Nat}
  {service : Service σ}
  {demand : Demand σ ε}

/-- An empty cache. -/
def begun (entries : Nat) (world : σ) : Service σ :=
  { cache := empty entries, world }

/-- The ids that were asked for with success. -/
def asked (service : Service σ) : List Int :=
  service.given.map Prod.fst

/-- Ask for a part, and go on with the cache that is left. When nothing is given that is the cache
there was. -/
def serve (service : Service σ) (demand : Demand σ ε) : Except ε Content × Service σ :=
  let used := StateT.run (ExceptT.run (service.cache.get demand.id demand.counted))
  match Id.run (used (service.world, service.loads)) with
  | (.ok (content, cache), world, loads) =>
      (.ok content, { cache, world, loads, given := service.given ++ [(demand.id, content)] })
  | (.error fault, world, loads) =>
      (.error fault, { service with world, loads })

/-- Ask for one part after the other. -/
def run (service : Service σ) (demands : List (Demand σ ε)) : Service σ :=
  demands.foldl (fun service demand => (service.serve demand).2) service

/-- A part that is cached is given without loading it. -/
theorem serve_of_cached
    (found : service.cache.find? demand.id = some content) :
    service.serve demand =
      (.ok content,
        { service with
          cache := service.cache.promote content
          given := service.given ++ [(demand.id, content)] }) := by
  rw [serve, get_of_cached found]
  rfl

/-- A part that is not cached is loaded once, and given and cached if that succeeds. -/
theorem serve_of_missing
    (missing : service.cache.find? demand.id = none) :
    service.serve demand =
      match demand.loadIn service.world with
      | (.ok content, world) =>
          (.ok content,
            { cache := service.cache.admitted content
              world
              loads := service.loads + 1
              given := service.given ++ [(demand.id, content)] })
      | (.error fault, world) =>
          (.error fault, { service with world, loads := service.loads + 1 }) := by
  have ran := demand.run_counted service.world service.loads
  rw [serve, get_of_missing missing, ExceptT.run_bind, StateT.run_bind, ran]
  rcases demand.loadIn service.world with ⟨fault | content, world⟩ <;> rfl

/-- A cache in use holds what was given last. -/
structure Recent (entries : Nat) (service : Service σ) : Prop where
  entries : service.cache.entries = entries
  recent : service.cache.ids = (recency service.asked).take service.cache.capacity
  latest :
    ∀ content ∈ service.cache.contents, service.given.reverse.lookup content.id = some content

namespace Recent

/-- An empty cache holds nothing. -/
theorem begun
    (entries : Nat)
    (world : σ) :
    (begun entries world).Recent entries :=
  ⟨rfl, List.take_nil.symm, nofun⟩

variable (isRecent : service.Recent entries)

include isRecent

/-- No part is cached twice. -/
theorem distinct :
    service.cache.ids.Nodup := by
  rw [isRecent.recent]
  exact nodup_take_recency _ _

/-- A part was given, and those that are cached besides were cached before. -/
theorem gave
    {next : PartCache}
    (recent : next.ids = (recency (service.asked ++ [content.id])).take service.cache.capacity)
    (isCached : content ∈ next.contents)
    (old : ∀ other ∈ next.contents, other = content ∨ other ∈ service.cache.contents)
    (isEntries : next.entries = service.cache.entries)
    (world : σ)
    (loads : Nat) :
    Recent entries
      { cache := next, world, loads, given := service.given ++ [(content.id, content)] } := by
  refine ⟨isEntries.trans isRecent.entries, ?recent, ?latest⟩
  case recent =>
    rw [asked, List.map_append, capacity, isEntries]
    exact recent
  case latest =>
    have distinct : next.ids.Nodup := by
      rw [recent]
      exact nodup_take_recency _ _
    rw [List.reverse_append, List.reverse_singleton, List.singleton_append]
    intro other member
    by_cases same : other.id = content.id
    · rw [List.inj_on_of_nodup_map distinct member isCached same]
      exact List.lookup_cons_self
    · have isOld := (old other member).resolve_left fun isContent => same (isContent ▸ rfl)
      rw [List.lookup_cons, beq_false_of_ne same]
      exact isRecent.latest other isOld

/-- A cache that was asked for one more part still holds what was given last. -/
theorem serve
    (demand : Demand σ ε) :
    (service.serve demand).2.Recent entries := by
  cases found : service.cache.find? demand.id with
  | some content =>
      obtain ⟨member, isId⟩ := (find?_eq_some_iff isRecent.distinct).mp found
      rw [serve_of_cached found, ← isId]
      have recent := recent_promote isRecent.recent (List.mem_map_of_mem member)
      exact isRecent.gave recent List.mem_cons_self (fun _ => mem_promote) rfl _ _
  | none =>
      have missing := find?_eq_none_iff.mp found
      rw [serve_of_missing found]
      rcases loaded : demand.loadIn service.world with ⟨fault | content, world⟩
      -- nothing was given, so that the history is the same as well
      · exact ⟨isRecent.entries, isRecent.recent, isRecent.latest⟩
      have isId : content.id = demand.id :=
        demand.loads_id service.world content (congrArg Prod.fst loaded)
      rw [← isId] at missing ⊢
      have recent := recent_admitted isRecent.recent missing
      exact isRecent.gave recent List.mem_cons_self (fun _ => mem_admitted) rfl _ _

/-- A cache holds what was given last however often it was asked. -/
theorem run
    (demands : List (Demand σ ε)) :
    (service.run demands).Recent entries := by
  induction demands generalizing service with
  | nil =>
      exact isRecent
  | cons demand rest inductionHypothesis =>
      exact inductionHypothesis (isRecent.serve demand)

end Recent

/-- What a cache in use holds, and what it does when it is asked for one more part. -/
structure Recalls (ε : Type) (entries : Nat) (service : Service σ) : Prop where
  /-- The ids in the cache are the last ones that were asked for with success. -/
  recent : service.cache.ids = (recency service.asked).take (max entries 1)
  distinct : service.cache.ids.Nodup
  /-- A cached part is the one that was given when its id was asked for last. -/
  latest :
    ∀ content ∈ service.cache.contents, service.given.reverse.lookup content.id = some content
  /-- A cached part is given, and nothing is loaded. -/
  cached :
    ∀ demand : Demand σ ε,
      ∀ content ∈ service.cache.contents,
        content.id = demand.id →
        (service.serve demand).1 = .ok content ∧
          (service.serve demand).2.loads = service.loads ∧
            (service.serve demand).2.world = service.world
  /-- What is not cached is loaded once, and what comes of loading it is given. -/
  loaded :
    ∀ demand : Demand σ ε,
      demand.id ∉ service.cache.ids →
      ((service.serve demand).1, (service.serve demand).2.world) = demand.loadIn service.world ∧
        (service.serve demand).2.loads = service.loads + 1
  /-- A failure leaves the cache alone. -/
  failed :
    ∀ (demand : Demand σ ε) (fault : ε),
      (service.serve demand).1 = .error fault →
      (service.serve demand).2.cache = service.cache

/-- A cache holds the parts that were asked for last, and loads only what it does not hold, whatever
it was asked for before. -/
theorem recalls_of_begun
    (entries : Nat)
    (world : σ)
    (demands : List (Demand σ ε)) :
    ((begun entries world).run demands).Recalls ε entries := by
  have isRecent := (Recent.begun entries world).run demands
  constructor
  case recent =>
    rw [isRecent.recent, capacity, isRecent.entries]
  case distinct =>
    exact isRecent.distinct
  case latest =>
    exact isRecent.latest
  case cached =>
    intro demand content member isId
    rw [serve_of_cached ((find?_eq_some_iff isRecent.distinct).mpr ⟨member, isId⟩)]
    exact ⟨rfl, rfl, rfl⟩
  case loaded =>
    intro demand missing
    rw [serve_of_missing (find?_eq_none_iff.mpr missing)]
    rcases demand.loadIn _ with ⟨fault | content, left⟩ <;> exact ⟨rfl, rfl⟩
  case failed =>
    intro demand fault isFailed
    cases found : ((begun entries world).run demands).cache.find? demand.id with
    | some content =>
        rw [serve_of_cached found] at isFailed
        cases isFailed
    | none =>
        rw [serve_of_missing found] at isFailed ⊢
        rcases loaded : demand.loadIn _ with ⟨other | content, left⟩
        · rfl
        · rw [loaded] at isFailed
          cases isFailed

/-- Where there is room for three parts, one that was used again outlasts one that was not, and one
that cannot be loaded pushes out none. -/
example :
    let part (id : Int) : Demand Unit Fault :=
      { id, load := pure ⟨id, 10 * id, .empty⟩, loads_id := by rintro _ _ ⟨⟩; rfl }
    let lost (id : Int) : Demand Unit Fault :=
      { id, load := throw .endOfStream, loads_id := nofun }
    let service := (begun 3 ()).run ([1, 2, 3, 1, 4].map part ++ [lost 2])
    service.cache.ids = [4, 1, 3] ∧ service.asked = [1, 2, 3, 1, 4] ∧ service.loads = 5 := by
  decide

end Service

end PartCache

namespace Reader

open StreamAction

/-! ## The cache of a reader -/

/-- What a reader asks its cache for: a part that is loaded from the store. -/
def demand (name : String) (id : Int) : PartCache.Demand (Reader × Store) Fault where
  id
  load := load name id
  loads_id _ _ loaded := Tables.id_of_content? (content?_of_load loaded)

/-- A reader asks its cache for a part and goes on with the cache that is left. A part that cannot
be loaded leaves it the cache that it had. -/
theorem runOn_contentOf
    (id : Int)
    (reader : Reader)
    (store : Store) :
    (contentOf id).runOn reader store =
      let service : PartCache.Service (Reader × Store) :=
        { cache := reader.cache, world := (reader, store) }
      let (outcome, left) := service.serve (demand reader.entry.name id)
      (outcome, { reader with cache := left.cache }, left.world.2) := by
  dsimp only
  rw [contentOf, runOn_bind, runOn_current]
  dsimp only
  rw [runOn_bind]
  cases found : reader.cache.find? id with
  | some content =>
      rw [PartCache.get_of_cached found, PartCache.Service.serve_of_cached found]
      rfl
  | none =>
      have left := left_load reader.entry.name id reader store
      have same :
          (demand reader.entry.name id).loadIn (reader, store) =
            (load reader.entry.name id).runOn reader store := rfl
      rw [PartCache.get_of_missing found, PartCache.Service.serve_of_missing found, runOn_bind,
        same]
      rcases ran : (load reader.entry.name id).runOn reader store with ⟨fault | content, after⟩
      · rw [ran] at left
        cases left
        rfl
      · rw [ran] at left
        cases left
        rfl

end Reader

end VersionStore
