import VersionStore.Host.Traversal
import VersionStore.Proofs.Host.Presenting
import VersionStore.Proofs.Host.RootListings
import VersionStore.Proofs.Tree.Forest

namespace VersionStore

/-!
# Walks and scans visit the tree below a handle

A walk keeps a stack of the directories that it is in, with the entries of each that it did not
look at yet, and a scan goes down by itself. Both visit the forest below the handle: a walk
from the top down or from the bottom up, a scan as far as it is told to descend. The bounds that
they are given are never reached, so that with greater ones they visit the same.
-/

open Tables

namespace FileHandle

/-- The handle at the end of names below a handle. -/
def along (file : FileHandle) (names : List Name) : FileHandle :=
  ⟨file.root, ⟨file.below.names ++ names⟩⟩

/-- A place below a handle as it is visited, its path put below a text. -/
def visitOf (file : FileHandle) (base : String) (place : TreePlace) : Visit :=
  ⟨file.along place.names, Path.join base (CleanPath.joinNames place.names), place.entry⟩

/-- Who decides about visits decides about places. -/
def guide (file : FileHandle) (base : String) (descend : Descent) : Guide :=
  fun asked place => descend (asked.map (file.visitOf base)) (file.visitOf base place)

/-- The visits that a scan makes of a forest, after others that it asked about. -/
def guidedVisits
    (file : FileHandle)
    (base : String)
    (descend : Descent)
    (asked : List TreePlace)
    (forest : Forest) :
    List Visit :=
  ((forest.guided (file.guide base descend) asked).map Prod.fst).map (file.visitOf base)

variable
  {tables : Tables}
  {start : FileHandle}
  {base : String}
  {names : List Name}
  {entries : List Entry}
  {forest : Forest}

/-- The path of a handle below a handle goes on from the path of that one. -/
theorem names_along
    (file : FileHandle)
    (names : List Name) :
    (file.along names).path.names = file.path.names ++ names :=
  rfl

/-- No names lead nowhere else. -/
theorem along_nil
    (file : FileHandle) :
    file.along [] = file := by
  rw [along, List.append_nil]

/-- The names of a handle below a handle, written, lead to it. -/
theorem child_joinNames
    (file : FileHandle)
    (names : List Name) :
    file.child (CleanPath.joinNames names) = .ok (file.along names) := by
  refine child_eq_ok_iff.mpr ⟨rfl, ?_⟩
  rw [text, CleanPath.text, CleanPath.join_joinNames_append]
  exact CleanPath.ofText_text (file.along names).path

/-- The name of an entry in a directory leads to the handle of the entry. -/
theorem child_along
    {entry : Entry}
    {name : Name}
    (here : tables.At (start.path.names ++ (names ++ [name])) entry) :
    (start.along names).child entry.name = .ok (start.along (names ++ [name])) := by
  rw [← List.append_assoc] at here
  obtain ⟨-, -, -, -, -, -, called⟩ := here.of_concat
  rw [called, child_name_eq_ok_iff]
  exact ⟨rfl, by simp [names_along]⟩

/-- The name of an entry in a directory leads on from the path that the directory is visited
with. -/
theorem visit_along
    (base : String)
    {entry : Entry}
    {name : Name}
    (here : tables.At (start.path.names ++ (names ++ [name])) entry) :
    (⟨start.along (names ++ [name]),
      Path.join (Path.join base (CleanPath.joinNames names)) entry.name, entry⟩ : Visit) =
      start.visitOf base ⟨names ++ [name], entry⟩ := by
  rw [← List.append_assoc] at here
  obtain ⟨-, -, -, -, -, -, called⟩ := here.of_concat
  rw [called, CleanPath.join_join_name]
  rfl

/-- A handle of a live directory is told that one is there. -/
theorem requireDirectory_tells
    {file : FileHandle}
    {entry : Entry}
    (found : tables.lookupAt? file.path = some entry)
    (isDirectory : entry.isDirectory = true) :
    HostAction.Tells file.root.store tables file.requireDirectory ⟨⟩ := by
  refine (require_tells found).bind ?_
  rw [isDirectory]
  exact .pure PUnit.unit

/-- What lies in a directory is listed. -/
theorem list_along_tells
    (coherent : tables.Coherent)
    {entry : Entry}
    (here : tables.At (start.path.names ++ names) entry)
    (isDirectory : entry.isDirectory = true) :
    HostAction.Tells start.root.store tables (start.along names).list (tables.within entry) := by
  rw [within, if_pos isDirectory]
  have found : tables.lookupAt? (start.along names).path = some entry :=
    coherent.lookupAt?_eq_some_iff.mpr here
  -- Without the type that is expected: it would be unfolded in search of the handle.
  exact (list_tells found isDirectory :)

/-! ## Scans -/

/-- A scan visits the places that it is led to. -/
theorem scanEntries_tells
    (coherent : tables.Coherent)
    (isForest : tables.IsForest start.path.names names entries forest)
    (descend : Descent)
    {depth : Nat}
    (deep : forest.height ≤ depth)
    (asked : List TreePlace) :
    HostAction.Tells start.root.store tables
      (scanEntries descend depth (start.along names) (Path.join base (CleanPath.joinNames names))
        (asked.map (start.visitOf base)) entries)
      (start.guidedVisits base descend asked forest) := by
  induction isForest generalizing depth asked with
  | none =>
      rw [scanEntries]
      exact .pure []
  | @node names name entry rest below beside here inside others insideHypothesis
      othersHypothesis =>
      let place : TreePlace := ⟨names ++ [name], entry⟩
      obtain ⟨under, isUnder⟩ :
          ∃ under,
            (if start.guide base descend asked place then
              below.guided (start.guide base descend) (place :: asked) else []) = under :=
        ⟨_, rfl⟩
      -- Whatever was visited below, the others are visited next.
      have onward :=
        othersHypothesis (le_trans (le_max_right _ _) deep)
          ((under.map Prod.fst).reverse ++ place :: asked)
      rw [List.map_append, List.map_reverse, List.map_cons, guidedVisits] at onward
      rw [scanEntries, guidedVisits, Forest.guided]
      refine (HostAction.Tells.ofExcept (child_along here)).bind ?_
      rw [visit_along base here]
      dsimp only
      rw [isUnder, List.cons_append, List.map_cons, List.map_cons, List.map_append, List.map_append]
      by_cases descends :
          (descend (asked.map (start.visitOf base)) (start.visitOf base place) &&
            entry.isDirectory) = true
      · obtain ⟨accepted, isDirectory⟩ := Bool.and_eq_true_iff.mp descends
        cases depth with
        | zero =>
            simp [Forest.height] at deep
        | succ depth =>
            have shallower : below.height ≤ depth :=
              Nat.le_of_succ_le_succ (le_trans (le_max_left _ _) deep)
            have isGuided : below.guided (start.guide base descend) (place :: asked) = under :=
              (if_pos accepted).symm.trans isUnder
            rw [if_pos descends]
            refine (list_along_tells coherent here isDirectory).bind ?_
            refine (insideHypothesis shallower (place :: asked)).bind ?_
            rw [guidedVisits, isGuided]
            exact onward.bind (.pure _)
      · have isNothing : under = [] := by
          rw [← isUnder]
          split
          · next accepted =>
              have isFile : ¬entry.isDirectory = true := fun isDirectory =>
                descends (Bool.and_eq_true_iff.mpr ⟨accepted, isDirectory⟩)
              rw [within, if_neg isFile] at inside
              cases inside
              rfl
          · rfl
        rw [if_neg descends]
        subst isNothing
        exact (HostAction.Tells.pure []).bind (onward.bind (.pure _))

end FileHandle

namespace Walk

/-! ## Steps of a walk -/

variable
  {tables : Tables}
  {start : FileHandle}
  {fromBottom : Bool}
  {names : List Name}
  {entries : List Entry}
  {forest : Forest}
  {outer frames : List Frame}
  {places : List TreePlace}

/-- The directory at the end of names that a walk from a handle is in. -/
def frameAt
    (start : FileHandle)
    (names : List Name)
    (entries : List Entry)
    (pending : Option TreePlace) :
    Frame :=
  ⟨start.along names, Path.join "" (CleanPath.joinNames names), entries,
    pending.map (start.visitOf "")⟩

/-- The places that a walk has ahead of it in the directories that it is in: in each the forest
of the entries that are left, and the directory itself if it comes after them. -/
inductive Ahead (tables : Tables) (start : FileHandle) (fromBottom : Bool) :
    List Frame → List TreePlace → Prop where
  | nil :
      Ahead tables start fromBottom [] []
  | cons {names : List Name} {entries : List Entry} {forest : Forest} {pending : Option TreePlace}
      {outer : List Frame} {places : List TreePlace}
      (isForest : tables.IsForest start.path.names names entries forest)
      (shallow : forest.height ≤ tables.directories.length)
      (further : Ahead tables start fromBottom outer places) :
      Ahead tables start fromBottom (frameAt start names entries pending :: outer)
        (forest.inOrder fromBottom ++ pending.toList ++ places)

/-- What the next step of a walk comes to, in however many steps more than it needs. -/
structure Comes (id : StoreId) (tables : Tables) (walk : Walk) (visit? : Option Visit)
    (after : Walk) : Prop where
  next : HostAction.Tells id tables walk.next (.ok visit?, after)
  steps :
    ∃ bound, ∀ fuel ≥ bound,
      HostAction.Tells id tables (advance walk.bottomUp fuel walk.frames) (visit?, after.frames)

/-- A step of a walk that looks at an entry: it visits a file, and goes into a directory. -/
theorem advance_entry
    (coherent : tables.Coherent)
    {name : Name}
    {entry : Entry}
    (here : tables.At (start.path.names ++ (names ++ [name])) entry)
    {pending : Option TreePlace}
    {fuel : Nat}
    {outcome : Option Visit × List Frame}
    (tells :
      let place : TreePlace := ⟨names ++ [name], entry⟩
      let left := frameAt start names entries pending :: outer
      let inside pending := frameAt start place.names (tables.within entry) pending :: left
      HostAction.Tells start.root.store tables
        (if entry.isDirectory then
          if fromBottom then advance fromBottom fuel (inside (some place))
          else pure (some (start.visitOf "" place), inside none)
        else pure (some (start.visitOf "" place), left))
        outcome) :
    HostAction.Tells start.root.store tables
      (advance fromBottom (fuel + 1) (frameAt start names (entry :: entries) pending :: outer))
      outcome := by
  rw [frameAt, advance]
  refine (HostAction.Tells.ofExcept (FileHandle.child_along here)).bind ?_
  rw [FileHandle.visit_along "" here]
  cases isDirectory : entry.isDirectory with
  | false =>
      rw [isDirectory] at tells
      exact tells
  | true =>
      rw [isDirectory] at tells
      refine (FileHandle.list_along_tells coherent here isDirectory).bind ?_
      cases fromBottom <;> exact tells

/-- Inside of a directory that has something left a walk comes to the first place ahead. -/
theorem advance_inside
    (coherent : tables.Coherent)
    (isForest : tables.IsForest start.path.names names entries forest)
    (shallow : forest.height ≤ tables.directories.length)
    (further : Ahead tables start fromBottom outer places)
    {pending : Option TreePlace}
    {place : TreePlace}
    {rest : List TreePlace}
    (isNext : forest.inOrder fromBottom ++ pending.toList = place :: rest) :
    ∃ after,
      Ahead tables start fromBottom after (rest ++ places) ∧
        ∀ fuel ≥ forest.height + 1,
          HostAction.Tells start.root.store tables
            (advance fromBottom fuel (frameAt start names entries pending :: outer))
            (some (start.visitOf "" place), after) := by
  induction isForest generalizing outer places pending place rest with
  | none =>
      obtain ⟨rfl, rfl⟩ : pending = some place ∧ rest = [] := by
        rw [Forest.inOrder_none, List.nil_append] at isNext
        cases pending <;> simp_all
      refine ⟨outer, further, fun fuel enough => ?_⟩
      obtain ⟨fuel, rfl⟩ := Nat.exists_eq_add_of_le' enough
      exact .pure _
  | @node names name entry others below beside here inside isBeside insideHypothesis _ =>
      have shallowBeside : beside.height ≤ tables.directories.length :=
        le_trans (le_max_right _ _) shallow
      have shallower : below.height + 1 ≤ tables.directories.length :=
        le_trans (le_max_left _ _) shallow
      have left :
          Ahead tables start fromBottom (frameAt start names others pending :: outer)
            (beside.inOrder fromBottom ++ pending.toList ++ places) :=
        .cons isBeside shallowBeside further
      cases isDirectory : entry.isDirectory with
      | false =>
          rw [within, isDirectory, if_neg Bool.false_ne_true] at inside
          cases inside
          rw [Forest.inOrder_node_none] at isNext
          obtain ⟨rfl, rfl⟩ := List.cons.inj isNext
          refine ⟨_, left, fun fuel enough => ?_⟩
          obtain ⟨fuel, rfl⟩ := Nat.exists_eq_add_of_le' (le_trans (Nat.le_add_left 1 _) enough)
          refine advance_entry coherent here ?_
          rw [isDirectory]
          exact .pure _
      | true =>
          cases fromBottom with
          | false =>
              obtain ⟨rfl, rfl⟩ := List.cons.inj isNext
              have deeper :
                  Ahead tables start false
                    (frameAt start (names ++ [name]) (tables.within entry) none ::
                      frameAt start names others pending :: outer)
                    (below.inOrder false ++ [] ++
                      (beside.inOrder false ++ pending.toList ++ places)) :=
                .cons inside (Nat.le_of_succ_le shallower) left
              refine ⟨_, by simpa [Forest.inOrder] using deeper, fun fuel enough => ?_⟩
              obtain ⟨fuel, rfl⟩ := Nat.exists_eq_add_of_le' (le_trans (Nat.le_add_left 1 _) enough)
              refine advance_entry coherent here ?_
              rw [isDirectory]
              exact .pure _
          | true =>
              -- The directory itself is still to come, so that the step ends inside of it.
              obtain ⟨first, more, isFirst⟩ :
                  ∃ first more,
                    below.inOrder true ++ (some (⟨names ++ [name], entry⟩ : TreePlace)).toList =
                      first :: more :=
                List.exists_cons_of_ne_nil (by simp)
              obtain ⟨after, ahead, comes⟩ :=
                insideHypothesis (Nat.le_of_succ_le shallower) left isFirst
              have whole :
                  (below.inOrder true ++ (some (⟨names ++ [name], entry⟩ : TreePlace)).toList) ++
                    (beside.inOrder true ++ pending.toList) = place :: rest := by
                simpa [Forest.inOrder, Forest.bottomUp] using isNext
              rw [isFirst] at whole
              obtain ⟨rfl, rfl⟩ := List.cons.inj whole
              refine ⟨after, by simpa using ahead, fun fuel enough => ?_⟩
              obtain ⟨fuel, rfl⟩ := Nat.exists_eq_add_of_le' (le_trans (Nat.le_add_left 1 _) enough)
              refine advance_entry coherent here ?_
              rw [isDirectory]
              exact comes fuel (le_trans (le_max_left _ _) (Nat.le_of_succ_le_succ enough))

/-- A walk comes to the first place ahead, or to its end if there is none. -/
theorem advance_tells
    (coherent : tables.Coherent)
    (ahead : Ahead tables start fromBottom frames places) :
    ∃ after,
      Ahead tables start fromBottom after places.tail ∧
        ∀ fuel,
          (frames ≠ [] → frames.length + tables.directories.length < fuel) →
          HostAction.Tells start.root.store tables (advance fromBottom fuel frames)
            (places.head?.map (start.visitOf ""), after) := by
  induction ahead with
  | nil =>
      refine ⟨[], .nil, fun fuel _ => ?_⟩
      cases fuel <;> exact .pure _
  | @cons names entries forest pending outer places isForest shallow further furtherHypothesis =>
      cases isNext : forest.inOrder fromBottom ++ pending.toList with
      | nil =>
          obtain ⟨isEmpty, isNone⟩ := List.append_eq_nil_iff.mp isNext
          obtain ⟨after, ahead, comes⟩ := furtherHypothesis
          refine ⟨after, ahead, fun fuel enough => ?_⟩
          have room := enough (List.cons_ne_nil _ _)
          obtain ⟨fuel, rfl⟩ := Nat.exists_eq_add_of_le' (le_trans (Nat.le_add_left 1 _) room)
          rw [List.length_cons] at room
          have left := comes fuel fun _ => by omega
          cases pending with
          | some place =>
              cases isNone
          | none =>
              cases isForest with
              | none =>
                  exact left
              | node _ _ _ =>
                  exact (Forest.inOrder_node_ne_nil _ _ _ _ isEmpty).elim
      | cons place rest =>
          obtain ⟨after, ahead, comes⟩ := advance_inside coherent isForest shallow further isNext
          refine ⟨after, ahead, fun fuel enough => comes fuel ?_⟩
          have room := enough (List.cons_ne_nil _ _)
          omega

/-- A walk is given more steps than it needs for the next place. -/
theorem stepBound_tells
    (ahead : Ahead tables start fromBottom frames places) :
    ∃ bound,
      HostAction.Tells start.root.store tables (stepBound ⟨fromBottom, frames⟩) bound ∧
        (frames ≠ [] → frames.length + tables.directories.length < bound) := by
  cases ahead with
  | nil =>
      exact ⟨0, .pure 0, fun absurd => (absurd rfl).elim⟩
  | cons isForest shallow further =>
      refine ⟨_, (HostAction.Tells.peek _).bind (.pure _), fun _ => ?_⟩
      dsimp only
      omega

/-- The next step of a walk comes to the first place ahead, or to its end if there is none. -/
theorem comes_of_ahead
    (coherent : tables.Coherent)
    (ahead : Ahead tables start fromBottom frames places) :
    ∃ after,
      Ahead tables start fromBottom after places.tail ∧
        Comes start.root.store tables ⟨fromBottom, frames⟩
          (places.head?.map (start.visitOf "")) ⟨fromBottom, after⟩ := by
  obtain ⟨after, aheadAfter, comes⟩ := advance_tells coherent ahead
  obtain ⟨bound, bounded, enough⟩ := stepBound_tells ahead
  refine ⟨after, aheadAfter, ?_, bound, fun fuel more => comes fuel fun some_ => ?_⟩
  · exact (bounded.bind (comes bound enough)).attempt.bind (.pure _)
  · exact lt_of_lt_of_le (enough some_) more

/-- A walk yields visits one after the other and then ends. -/
inductive Yields (id : StoreId) (tables : Tables) : Walk → List Visit → Prop where
  | ended {walk after : Walk}
      (comes : Comes id tables walk none after) :
      Yields id tables walk []
  | next {walk after : Walk} {visit : Visit} {visits : List Visit}
      (comes : Comes id tables walk (some visit) after)
      (further : Yields id tables after visits) :
      Yields id tables walk (visit :: visits)

/-- A walk yields the places ahead. -/
theorem yields_of_ahead
    (coherent : tables.Coherent)
    (ahead : Ahead tables start fromBottom frames places) :
    Yields start.root.store tables ⟨fromBottom, frames⟩ (places.map (start.visitOf "")) := by
  induction places generalizing frames with
  | nil =>
      obtain ⟨after, -, comes⟩ := comes_of_ahead coherent ahead
      exact .ended comes
  | cons place rest inductionHypothesis =>
      obtain ⟨after, aheadAfter, comes⟩ := comes_of_ahead coherent ahead
      exact .next comes (inductionHypothesis aheadAfter)

/-- Whoever asks for more visits than a walk yields gets them all. -/
theorem Yields.collect
    {id : StoreId}
    {walk : Walk}
    {visits : List Visit}
    (yields : Yields id tables walk visits)
    {fuel : Nat}
    (enough : visits.length < fuel) :
    HostAction.Tells id tables (walk.collect fuel) visits := by
  induction yields generalizing fuel with
  | ended comes =>
      obtain ⟨fuel, rfl⟩ := Nat.exists_eq_add_of_le' enough
      exact comes.next.bind (.pure [])
  | @next walk after visit visits comes further furtherHypothesis =>
      obtain ⟨fuel, rfl⟩ := Nat.exists_eq_add_of_le' (le_trans (Nat.le_add_left 1 _) enough)
      have rest := @furtherHypothesis fuel (by simpa using enough)
      exact comes.next.bind (rest.bind (.pure _))

end Walk

namespace FileHandle

/-! ## Whole traversals -/

/-- Some places are the live entries below a handle, each one of them once and in order. -/
structure Enumerates (file : FileHandle) (tables : Tables) (bottomUp : Bool)
    (places : List TreePlace) : Prop where
  mem_iff :
    ∀ place,
      place ∈ places ↔
        place.names ≠ [] ∧
          tables.lookupAt? ⟨file.path.names ++ place.names⟩ = some place.entry
  once : (places.map TreePlace.entry).Nodup
  inOrder : places.Pairwise (TreePlace.Precedes bottomUp)

/-- A walk below a handle yields some visits, one by one and all at once. -/
structure Walks (file : FileHandle) (tables : Tables) (bottomUp : Bool)
    (visits : List Visit) : Prop where
  oneByOne :
    ∃ walk,
      HostAction.Tells file.root.store tables (Walk.start file bottomUp) walk ∧
        walk.Yields file.root.store tables visits
  atOnce : HostAction.Tells file.root.store tables (file.walkAll bottomUp) visits

/-- A scan below a handle visits some entries, however much deeper than it needs it may go. -/
structure Scans (file : FileHandle) (tables : Tables) (base : String) (descend : Descent)
    (visits : List Visit) : Prop where
  scan : HostAction.Tells file.root.store tables (file.scanWith base descend) visits
  steps :
    ∃ entries bound,
      HostAction.Tells file.root.store tables file.list entries ∧
        ∀ depth ≥ bound,
          HostAction.Tells file.root.store tables
            (scanEntries descend depth file base [] entries) visits

/-- How walks and scans enumerate what lies below a handle. -/
structure Traverses (file : FileHandle) (tables : Tables)
    (topDown bottomUp : List TreePlace) : Prop where
  down : file.Enumerates tables false topDown
  up : file.Enumerates tables true bottomUp
  walksDown : file.Walks tables false (topDown.map (file.visitOf ""))
  walksUp : file.Walks tables true (bottomUp.map (file.visitOf ""))
  /-- The path of a visit leads from the handle to the handle of the visit, and its entry is the
  one that is told there. -/
  items :
    ∀ place ∈ topDown,
      ∀ visit,
        visit = file.visitOf "" place →
        file.child visit.relative = .ok visit.file ∧
          HostAction.Tells file.root.store tables visit.file.stat (some visit.entry)
  /-- A scan asks about entries from the top down, and about all of them that it was not kept
  from above. -/
  scans :
    ∀ base descend, ∃ answers : List (TreePlace × Bool),
      file.Scans tables base descend ((answers.map Prod.fst).map (file.visitOf base)) ∧
        (file.guide base descend).Answers [] answers ∧
          (answers.map Prod.fst).Sublist topDown ∧
            ∀ place ∈ topDown, place ∈ answers.map Prod.fst ↔ place.Unbarred answers
  /-- A scan that is never kept from anything visits what a walk yields. -/
  scansAll :
    ∀ base descend,
      (∀ asked visit, descend asked visit = true) →
      file.Scans tables base descend (topDown.map (file.visitOf base))

variable
  {file : FileHandle}
  {tables : Tables}
  {directory : Entry}
  {forest : Forest}

/-- A forest is enumerated in either order. -/
theorem enumerates_inOrder
    (coherent : tables.Coherent)
    (here : tables.At file.path.names directory)
    (isForest : tables.IsForest file.path.names [] (tables.within directory) forest)
    (bottomUp : Bool) :
    file.Enumerates tables bottomUp (forest.inOrder bottomUp) := by
  have mem_iff (place : TreePlace) :
      place ∈ forest.topDown ↔
        place.names ≠ [] ∧ tables.At (file.path.names ++ place.names) place.entry :=
    isForest.mem_iff_at coherent here
  have inOrder := (isForest.ordered coherent (coherent.pairwise_within directory)).pairwise bottomUp
  refine ⟨fun place => ?_, ?_, inOrder⟩
  · rw [Forest.mem_inOrder_iff, mem_iff, coherent.lookupAt?_eq_some_iff]
  · have distinct : (forest.inOrder bottomUp).Nodup := inOrder.imp TreePlace.Precedes.ne
    refine List.Nodup.map_on (fun first isFirst second isSecond same => ?_) distinct
    obtain ⟨-, firstThere⟩ := (mem_iff first).mp (Forest.mem_inOrder_iff.mp isFirst)
    obtain ⟨-, secondThere⟩ := (mem_iff second).mp (Forest.mem_inOrder_iff.mp isSecond)
    rw [same] at firstThere
    have sameNames := List.append_cancel_left (coherent.at_names_unique firstThere secondThere)
    obtain ⟨firstNames, firstEntry⟩ := first
    obtain ⟨secondNames, secondEntry⟩ := second
    cases sameNames
    cases same
    rfl

/-- There are no more places below a handle than entries. -/
theorem Enumerates.length_le
    {bottomUp : Bool}
    {places : List TreePlace}
    (enumerates : file.Enumerates tables bottomUp places)
    (coherent : tables.Coherent) :
    places.length ≤ tables.entries.length := by
  have known : places.map TreePlace.entry ⊆ tables.entries := by
    intro entry member
    obtain ⟨place, isPlace, rfl⟩ := List.mem_map.mp member
    exact (coherent.lookupAt?_eq_some_iff.mp ((enumerates.mem_iff place).mp isPlace).2).member
  have fewer := (enumerates.once.subperm known).length_le
  rwa [List.length_map] at fewer

/-- A walk yields the places below its handle. -/
theorem walks_inOrder
    (coherent : tables.Coherent)
    (here : tables.At file.path.names directory)
    (isDirectory : directory.isDirectory = true)
    (isForest : tables.IsForest file.path.names [] (tables.within directory) forest)
    (bottomUp : Bool) :
    file.Walks tables bottomUp ((forest.inOrder bottomUp).map (file.visitOf "")) := by
  have found : tables.lookupAt? file.path = some directory :=
    coherent.lookupAt?_eq_some_iff.mpr here
  have shallow := isForest.height_le_of_at coherent here isDirectory
  let walk : Walk := ⟨bottomUp, [Walk.frameAt file [] (tables.within directory) none]⟩
  have started : HostAction.Tells file.root.store tables (Walk.start file bottomUp) walk := by
    refine (requireDirectory_tells found isDirectory).bind ?_
    refine (list_tells found isDirectory).bind ?_
    have isFrame :
        (⟨file, "", tables.listing directory.id, none⟩ : Frame) =
          Walk.frameAt file [] (tables.within directory) none := by
      rw [Walk.frameAt, along_nil, within, if_pos isDirectory]
      rfl
    rw [isFrame]
    exact .pure walk
  have yields :
      walk.Yields file.root.store tables ((forest.inOrder bottomUp).map (file.visitOf "")) := by
    have ahead :
        Walk.Ahead tables file bottomUp [Walk.frameAt file [] (tables.within directory) none]
          (forest.inOrder bottomUp ++ [] ++ []) :=
      .cons isForest shallow .nil
    rw [List.append_nil, List.append_nil] at ahead
    exact Walk.yields_of_ahead coherent ahead
  refine ⟨⟨walk, started, yields⟩, ?_⟩
  have fewer := (enumerates_inOrder coherent here isForest bottomUp).length_le coherent
  have more :
      tables.entries.length + 2 ≤ (tables.entries.length + 2).pow (tables.directories.length + 2) :=
    Nat.le_self_pow (Nat.succ_ne_zero _) _
  refine started.bind ((HostAction.Tells.peek _).bind (yields.collect ?_))
  rw [List.length_map]
  omega

/-- A scan visits the places that it is led to below its handle. -/
theorem scans_guided
    (coherent : tables.Coherent)
    (here : tables.At file.path.names directory)
    (isDirectory : directory.isDirectory = true)
    (isForest : tables.IsForest file.path.names [] (tables.within directory) forest)
    (base : String)
    (descend : Descent) :
    file.Scans tables base descend
      (file.guidedVisits base descend [] forest) := by
  have found : tables.lookupAt? file.path = some directory :=
    coherent.lookupAt?_eq_some_iff.mpr here
  have shallow := isForest.height_le_of_at coherent here isDirectory
  have listed := list_tells found isDirectory
  have tells :
      ∀ depth ≥ tables.directories.length,
        HostAction.Tells file.root.store tables
          (scanEntries descend depth file base [] (tables.listing directory.id))
          (file.guidedVisits base descend [] forest) := by
    intro depth deep
    have whole : Path.join base (CleanPath.joinNames []) = base :=
      Path.join_of_trimLeft_eq_nil rfl
    have listing : tables.within directory = tables.listing directory.id := if_pos isDirectory
    have tells :
        HostAction.Tells file.root.store tables
          (scanEntries descend depth (file.along []) (Path.join base (CleanPath.joinNames [])) []
            (tables.within directory))
          (file.guidedVisits base descend [] forest) :=
      scanEntries_tells coherent isForest descend (le_trans shallow deep) []
    rwa [file.along_nil, whole, listing] at tells
  refine ⟨?_, _, _, listed, tells⟩
  refine (requireDirectory_tells found isDirectory).bind ((HostAction.Tells.peek _).bind ?_)
  exact listed.bind (tells _ (Nat.le_succ _))

/-- In every state that a store can reach, walks and scans enumerate what lies below a handle of
a live directory, whenever nothing is changed in between. -/
theorem traverses_of_reachable
    {config : Config}
    (named : ∀ root ∈ config.roots, IsName root)
    (distinct : config.roots.Nodup)
    {timed : Bool}
    {since : Int}
    {session : Session}
    (reachable :
      Session.Reachable (fun _ _ _ => True) (Session.start config timed since) session)
    {file : FileHandle}
    (found : session.store.tables.lookupAt? file.path = some directory)
    (isDirectory : directory.isDirectory = true) :
    ∃ topDown bottomUp, file.Traverses session.store.tables topDown bottomUp := by
  have sound : session.Sound False :=
    Session.Sound.of_reachable (.start named distinct timed since) (fun absurd => absurd.elim)
      reachable
  have coherent := sound.all.tables.coherent
  have here := coherent.lookupAt?_eq_some_iff.mp found
  have grown : session.store.tables.At (file.path.names ++ []) directory := by
    rwa [List.append_nil]
  obtain ⟨forest, isForest⟩ := coherent.exists_isForest grown
  refine ⟨forest.inOrder false, forest.inOrder true, ?_⟩
  constructor
  case down =>
    exact enumerates_inOrder coherent here isForest false
  case up =>
    exact enumerates_inOrder coherent here isForest true
  case walksDown =>
    exact walks_inOrder coherent here isDirectory isForest false
  case walksUp =>
    exact walks_inOrder coherent here isDirectory isForest true
  case items =>
    rintro place member visit rfl
    have there := (((enumerates_inOrder coherent here isForest false).mem_iff place).mp member).2
    have relative : (file.visitOf "" place).relative = CleanPath.joinNames place.names :=
      CleanPath.join_joinNames_append [] place.names
    refine ⟨?_, ?_⟩
    · rw [relative]
      exact file.child_joinNames place.names
    · have told := (file.along place.names).stat_tells session.store.tables
      have isThere :
          session.store.tables.lookupAt? (file.along place.names).path = some place.entry :=
        there
      rw [isThere] at told
      exact told
  case scans =>
    intro base descend
    refine ⟨_, scans_guided coherent here isDirectory isForest base descend,
      forest.guided_answers _ [], forest.guided_sublist _ [], fun place member => ?_⟩
    have ordered := isForest.ordered coherent (coherent.pairwise_within directory)
    rw [ordered.mem_guided_iff]
    exact and_iff_right member
  case scansAll =>
    intro base descend always
    have whole :
        (forest.guided (file.guide base descend) []).map Prod.fst = forest.topDown :=
      Forest.guided_of_always (fun asked place => always _ _) [] forest
    have scans := scans_guided coherent here isDirectory isForest base descend
    rwa [guidedVisits, whole] at scans

/-- A directory, a file in it and one beside it are all seen by a walk from the top down and by
one from the bottom up. -/
theorem traverses_nested :
    let session :=
      ((Session.start {} false 0).after 1
        (.whole (.write "home/b" ⟨#[1]⟩ none none))).after 2
          (.whole (.write "home/a/x" ⟨#[2]⟩ none none))
    let host : Host := { stores := #[session.store] }
    let home : FileHandle := ⟨⟨0, ⟨"home", by decide⟩, default⟩, ⟨[]⟩⟩
    host.Presents 0 session.store.tables ∧
      ∃ topDown bottomUp,
        home.Traverses session.store.tables topDown bottomUp ∧
          ∀ names ∈ [[⟨"a", by decide⟩], [⟨"a", by decide⟩, ⟨"x", by decide⟩], [⟨"b", by decide⟩]],
            ∃ place ∈ topDown, place ∈ bottomUp ∧ place.names = names := by
  intro session host home
  have written :
      Session.Step (fun _ _ _ => True) (Session.start {} false 0)
        ((Session.start {} false 0).after 1
          (.whole (.write "home/b" ⟨#[1]⟩ none none))) :=
    .event trivial trivial
  have reachable : Session.Reachable (fun _ _ _ => True) (Session.start {} false 0) session :=
    (Relation.ReflTransGen.single written).tail (.event trivial trivial)
  have sound : session.Sound False :=
    Session.Sound.of_reachable (.start (by decide) (by decide) false 0) (fun absurd => absurd.elim)
      reachable
  have free : session.store.savepoints.isEmpty = true ∧ session.store.closed = false := by
    decide +kernel
  have unfiled : session.store.connected = true ∧ session.store.file = none := by
    decide +kernel
  have held :
      ∃ directory ∈ session.store.tables.lookupAt? home.path, directory.isDirectory = true := by
    decide +kernel
  have stored :
      ∀ names ∈ [[⟨"a", by decide⟩], [⟨"a", by decide⟩, ⟨"x", by decide⟩], [⟨"b", by decide⟩]],
        (session.store.tables.lookupAt? ⟨home.path.names ++ names⟩).isSome ∧ names ≠ [] := by
    decide +kernel
  clear_value session
  obtain ⟨directory, found, isDirectory⟩ := held
  obtain ⟨topDown, bottomUp, traverses⟩ :=
    traverses_of_reachable (by decide) (by decide) reachable found isDirectory
  have isFound : host.found 0 = session.store :=
    Host.found_single unfiled.1 unfiled.2 sound.steady.others
  refine ⟨⟨Nat.zero_lt_one, ?_, congrArg Store.tables isFound⟩, topDown, bottomUp, traverses, ?_⟩
  · rw [isFound]
    exact ⟨sound.steady, List.isEmpty_iff.mp free.1, free.2⟩
  · intro names member
    obtain ⟨isStored, some_⟩ := stored names member
    obtain ⟨entry, isEntry⟩ := Option.isSome_iff_exists.mp isStored
    exact ⟨⟨names, entry⟩, (traverses.down.mem_iff _).mpr ⟨some_, isEntry⟩,
      (traverses.up.mem_iff _).mpr ⟨some_, isEntry⟩, rfl⟩

end FileHandle

end VersionStore
