import VersionStore.Proofs.Text.Order
import VersionStore.Proofs.Tree.Resolve

namespace VersionStore

/-!
# The tree below a directory

What lies below a directory of the live tree, as a forest: of the entries of a directory the
first one with what lies below it, and the others beside it. A forest is enumerated from the
top down or from the bottom up, or as far as someone who is asked about each entry wants to
descend. In coherent tables every live directory has its forest, and its enumerations hold
every entry below the directory once and in the order of names.
-/

/-- An entry, and the names that lead to it from where one started. -/
structure TreePlace where
  names : List Name
  entry : Entry
  deriving DecidableEq

namespace TreePlace

/-- A place lies below another one. -/
def Within (inner outer : TreePlace) : Prop :=
  ∃ name rest, inner.names = outer.names ++ name :: rest

/-- The ways to two places part, and the first goes on by the lesser name, byte by byte. -/
def Parts (first second : TreePlace) : Prop :=
  ∃ shared name rest other others,
    first.names = shared ++ name :: rest ∧
      second.names = shared ++ other :: others ∧
        name.text.toUTF8.data.toList < other.text.toUTF8.data.toList

/-- A place comes before another one: on the way to it, or on its way back if one goes from the
bottom up, or by a lesser name. -/
def Precedes (bottomUp : Bool) (first second : TreePlace) : Prop :=
  (if bottomUp then first.Within second else second.Within first) ∨ first.Parts second

/-- None of the answers about the places that a place is within was to keep away. -/
def Unbarred (place : TreePlace) (answers : List (TreePlace × Bool)) : Prop :=
  ∀ pair ∈ answers, place.Within pair.1 → pair.2 = true

variable {first second : TreePlace}

/-- A place is not within itself, nor within one that is within it. -/
theorem Within.length_lt
    (within : first.Within second) :
    second.names.length < first.names.length := by
  obtain ⟨name, rest, shape⟩ := within
  rw [shape, List.length_append, List.length_cons]
  omega

/-- Of two ways that part none leads on from the other. -/
theorem Parts.not_prefix
    (parts : first.Parts second) :
    ¬first.names <+: second.names ∧ ¬second.names <+: first.names := by
  obtain ⟨shared, name, rest, other, others, isFirst, isSecond, less⟩ := parts
  rw [isFirst, isSecond, List.prefix_append_right_inj, List.prefix_append_right_inj]
  constructor
  · rintro ⟨after, same⟩
    obtain ⟨rfl, -⟩ := List.cons.inj same
    exact List.lt_irrefl _ less
  · rintro ⟨after, same⟩
    obtain ⟨rfl, -⟩ := List.cons.inj same
    exact List.lt_irrefl _ less

/-- A place within another one has the names of that one first. -/
theorem Within.prefix
    (within : first.Within second) :
    second.names <+: first.names := by
  obtain ⟨name, rest, shape⟩ := within
  exact shape ▸ List.prefix_append _ _

/-- No place comes before itself. -/
theorem Precedes.ne
    {bottomUp : Bool}
    (precedes : first.Precedes bottomUp second) :
    first ≠ second := by
  rintro rfl
  rcases precedes with within | parts
  · cases bottomUp <;> exact Nat.lt_irrefl _ (Within.length_lt within)
  · exact parts.not_prefix.1 List.prefix_rfl

/-- One answer more may keep away from a place. -/
theorem unbarred_cons
    {place : TreePlace}
    {pair : TreePlace × Bool}
    {answers : List (TreePlace × Bool)} :
    place.Unbarred (pair :: answers) ↔
      (place.Within pair.1 → pair.2 = true) ∧ place.Unbarred answers :=
  List.forall_mem_cons

/-- More answers may keep away from a place. -/
theorem unbarred_append
    {place : TreePlace}
    {before after : List (TreePlace × Bool)} :
    place.Unbarred (before ++ after) ↔ place.Unbarred before ∧ place.Unbarred after :=
  List.forall_mem_append

end TreePlace

/-- Decides whether to descend from a place, knowing those it was asked about before, the latest
first. -/
abbrev Guide : Type :=
  List TreePlace → TreePlace → Bool

namespace Guide

/-- The answers are those of a guide that is asked about place after place. -/
def Answers (guide : Guide) (asked : List TreePlace) : List (TreePlace × Bool) → Prop
  | [] => True
  | (place, answer) :: rest => answer = guide asked place ∧ guide.Answers (place :: asked) rest

/-- A guide that is asked about more places goes on from those before. -/
theorem answers_append
    {guide : Guide}
    {asked : List TreePlace}
    {before after : List (TreePlace × Bool)} :
    guide.Answers asked (before ++ after) ↔
      guide.Answers asked before ∧
        guide.Answers ((before.map Prod.fst).reverse ++ asked) after := by
  induction before generalizing asked with
  | nil =>
      simp [Answers]
  | cons pair rest inductionHypothesis =>
      obtain ⟨place, answer⟩ := pair
      simp [Answers, inductionHypothesis, and_assoc]

end Guide

/-- Places beside each other, the first one with those below it. -/
inductive Forest where
  | none
  | node (place : TreePlace) (below beside : Forest)

namespace Forest

/-- Every place before those below it. -/
def topDown : Forest → List TreePlace
  | none => []
  | node place below beside => place :: below.topDown ++ beside.topDown

/-- Every place after those below it. -/
def bottomUp : Forest → List TreePlace
  | none => []
  | node place below beside => below.bottomUp ++ place :: beside.bottomUp

/-- The places in either order. -/
def inOrder (fromBottom : Bool) (forest : Forest) : List TreePlace :=
  if fromBottom then forest.bottomUp else forest.topDown

/-- The places that a guide is led to, with its answers. -/
def guided (guide : Guide) (asked : List TreePlace) : Forest → List (TreePlace × Bool)
  | none => []
  | node place below beside =>
      let answer := guide asked place
      let under := if answer then below.guided guide (place :: asked) else []
      (place, answer) :: under ++
        beside.guided guide ((under.map Prod.fst).reverse ++ place :: asked)

/-- How many places lie one below the other at most. -/
def height : Forest → Nat
  | none => 0
  | node _ below beside => max (below.height + 1) beside.height

/-! ## Orders -/

/-- Nothing is in order where there is nothing. -/
theorem inOrder_none
    (fromBottom : Bool) :
    none.inOrder fromBottom = [] := by
  cases fromBottom <;> rfl

/-- A place with nothing below it comes first in either order. -/
theorem inOrder_node_none
    (fromBottom : Bool)
    (place : TreePlace)
    (beside : Forest) :
    (node place none beside).inOrder fromBottom = place :: beside.inOrder fromBottom := by
  cases fromBottom <;> rfl

/-- Something is in order where there is a place. -/
theorem inOrder_node_ne_nil
    (fromBottom : Bool)
    (place : TreePlace)
    (below beside : Forest) :
    (node place below beside).inOrder fromBottom ≠ [] := by
  cases fromBottom <;> simp [inOrder, topDown, bottomUp]

/-- From the bottom up there are the same places. -/
theorem bottomUp_perm
    (forest : Forest) :
    forest.bottomUp.Perm forest.topDown := by
  induction forest with
  | none =>
      exact .refl _
  | node place below beside belowHypothesis besideHypothesis =>
      exact List.perm_middle.trans ((belowHypothesis.append besideHypothesis).cons place)

/-- The same places are in either order. -/
theorem mem_inOrder_iff
    {forest : Forest}
    {fromBottom : Bool}
    {place : TreePlace} :
    place ∈ forest.inOrder fromBottom ↔ place ∈ forest.topDown := by
  cases fromBottom with
  | false =>
      exact Iff.rfl
  | true =>
      exact forest.bottomUp_perm.mem_iff

/-- A guide is asked about places from the top down, and not about all of them. -/
theorem guided_sublist
    (guide : Guide)
    (asked : List TreePlace)
    (forest : Forest) :
    ((forest.guided guide asked).map Prod.fst).Sublist forest.topDown := by
  induction forest generalizing asked with
  | none =>
      exact List.Sublist.refl []
  | node place below beside belowHypothesis besideHypothesis =>
      simp only [guided, topDown, List.cons_append, List.map_cons, List.map_append]
      refine .cons_cons place (.append ?_ (besideHypothesis _))
      split
      · exact belowHypothesis _
      · exact List.nil_sublist _

/-- The answers are those of the guide, each knowing the places before it. -/
theorem guided_answers
    (guide : Guide)
    (asked : List TreePlace)
    (forest : Forest) :
    guide.Answers asked (forest.guided guide asked) := by
  induction forest generalizing asked with
  | none =>
      trivial
  | node place below beside belowHypothesis besideHypothesis =>
      rw [guided, List.cons_append]
      refine ⟨rfl, Guide.answers_append.mpr ⟨?_, besideHypothesis _⟩⟩
      split
      · exact belowHypothesis _
      · trivial

/-- A guide that always wants to descend is asked about every place. -/
theorem guided_of_always
    {guide : Guide}
    (always : ∀ asked place, guide asked place = true)
    (asked : List TreePlace)
    (forest : Forest) :
    (forest.guided guide asked).map Prod.fst = forest.topDown := by
  induction forest generalizing asked with
  | none =>
      rfl
  | node place below beside belowHypothesis besideHypothesis =>
      simp only [guided, topDown, List.cons_append, List.map_cons, List.map_append, always, if_true,
        belowHypothesis, besideHypothesis]

/-- Places below a place lie within it, and the ways to them and to places beside it part, by
lesser names to greater ones. -/
def Ordered : Forest → Prop
  | none => True
  | node place below beside =>
      (∀ inner ∈ below.topDown, inner.Within place) ∧
        (∀ first ∈ place :: below.topDown, ∀ second ∈ beside.topDown, first.Parts second) ∧
          below.Ordered ∧ beside.Ordered

/-- The places of an ordered forest come before each other as they should. -/
theorem Ordered.pairwise
    {forest : Forest}
    (ordered : forest.Ordered)
    (fromBottom : Bool) :
    (forest.inOrder fromBottom).Pairwise (TreePlace.Precedes fromBottom) := by
  induction forest with
  | none =>
      cases fromBottom <;> exact .nil
  | node place below beside belowHypothesis besideHypothesis =>
      obtain ⟨within, parts, belowOrdered, besideOrdered⟩ := ordered
      have belowOrder := belowHypothesis belowOrdered
      have besideOrder := besideHypothesis besideOrdered
      cases fromBottom with
      | false =>
          rw [inOrder, if_neg Bool.false_ne_true, topDown]
          refine List.pairwise_append.mpr ⟨List.pairwise_cons.mpr ⟨?_, belowOrder⟩, besideOrder, ?_⟩
          · exact fun inner member => .inl (within inner member)
          · exact fun first isFirst second isSecond => .inr (parts first isFirst second isSecond)
      | true =>
          have belowSame (other : TreePlace) : other ∈ below.bottomUp ↔ other ∈ below.topDown :=
            below.bottomUp_perm.mem_iff
          have besideSame (other : TreePlace) : other ∈ beside.bottomUp ↔ other ∈ beside.topDown :=
            beside.bottomUp_perm.mem_iff
          rw [inOrder, if_pos rfl, bottomUp]
          refine List.pairwise_append.mpr ⟨belowOrder, List.pairwise_cons.mpr ⟨?_, besideOrder⟩, ?_⟩
          · intro second isSecond
            exact .inr (parts place List.mem_cons_self second ((besideSame second).mp isSecond))
          · intro first isFirst second isSecond
            have inBelow := (belowSame first).mp isFirst
            rcases List.mem_cons.mp isSecond with rfl | inBeside
            · exact .inl (within first inBelow)
            · exact .inr (parts first (List.mem_cons_of_mem place inBelow) second
                ((besideSame second).mp inBeside))

/-- In an ordered forest a guide is asked about the places that it was not kept from at a place
above. -/
theorem Ordered.mem_guided_iff
    {forest : Forest}
    (ordered : forest.Ordered)
    (guide : Guide)
    (asked : List TreePlace)
    {place : TreePlace} :
    place ∈ (forest.guided guide asked).map Prod.fst ↔
      place ∈ forest.topDown ∧ place.Unbarred (forest.guided guide asked) := by
  induction forest generalizing asked with
  | none =>
      simp [guided, topDown]
  | node top below beside belowHypothesis besideHypothesis =>
      obtain ⟨within, parts, belowOrdered, besideOrdered⟩ := ordered
      rw [guided]
      generalize guide asked top = answer
      generalize isUnder :
        (if answer = true then below.guided guide (top :: asked) else []) = under
      have besideIff :=
        besideHypothesis besideOrdered ((under.map Prod.fst).reverse ++ top :: asked)
      generalize isBeyond :
        beside.guided guide ((under.map Prod.fst).reverse ++ top :: asked) = beyond at besideIff ⊢
      have inBelow : ∀ pair ∈ under, answer = true ∧ pair ∈ below.guided guide (top :: asked) := by
        intro pair member
        rw [← isUnder] at member
        split at member
        · next accepted => exact ⟨accepted, member⟩
        · exact (List.not_mem_nil member).elim
      have underPlace : ∀ pair ∈ under, pair.1 ∈ below.topDown := fun pair member =>
        (guided_sublist _ _ _).subset (List.mem_map_of_mem (inBelow pair member).2)
      have beyondPlace : ∀ pair ∈ beyond, pair.1 ∈ beside.topDown := fun pair member =>
        (guided_sublist _ _ _).subset (List.mem_map_of_mem (isBeyond ▸ member))
      -- What lies beside the place has nothing to do with it and what lies below it.
      have apart :
          ∀ first ∈ top :: below.topDown, ∀ second ∈ beside.topDown,
            ¬first.Within second ∧ ¬second.Within first :=
        fun first isFirst second isSecond =>
          have different := TreePlace.Parts.not_prefix (parts first isFirst second isSecond)
          ⟨fun absurd => different.2 absurd.prefix, fun absurd => different.1 absurd.prefix⟩
      have free : ∀ first ∈ top :: below.topDown, first.Unbarred beyond :=
        fun first isFirst pair member absurd =>
          ((apart first isFirst pair.1 (beyondPlace pair member)).1 absurd).elim
      rw [List.cons_append, List.map_cons, List.map_append, List.mem_cons, List.mem_append,
        topDown, List.cons_append, List.mem_cons, List.mem_append, TreePlace.unbarred_cons,
        TreePlace.unbarred_append]
      constructor
      · rintro (rfl | inUnder | inBeyond)
        · refine ⟨.inl rfl, fun absurd => (Nat.lt_irrefl _ absurd.length_lt).elim, ?_,
            free place List.mem_cons_self⟩
          intro pair member absurd
          have further := (within pair.1 (underPlace pair member)).length_lt
          exact (Nat.lt_asymm further absurd.length_lt).elim
        · obtain ⟨pair, isPair, rfl⟩ := List.mem_map.mp inUnder
          obtain ⟨accepted, isGuided⟩ := inBelow pair isPair
          obtain ⟨isBelow, unbarred⟩ :=
            (belowHypothesis belowOrdered (top :: asked)).mp (List.mem_map_of_mem isGuided)
          exact ⟨.inr (.inl isBelow), fun _ => accepted,
            fun other member => unbarred other (inBelow other member).2,
            free pair.1 (List.mem_cons_of_mem top isBelow)⟩
        · obtain ⟨isBeside, unbarred⟩ := besideIff.mp inBeyond
          refine ⟨.inr (.inr isBeside), fun absurd => ?_, fun other member absurd => ?_, unbarred⟩
          · exact ((apart top List.mem_cons_self place isBeside).2 absurd).elim
          · have inBelow := List.mem_cons_of_mem top (underPlace other member)
            exact ((apart other.1 inBelow place isBeside).2 absurd).elim
      · rintro ⟨rfl | isBelow | isBeside, accepted, unbarredUnder, unbarred⟩
        · exact .inl rfl
        · rw [if_pos (accepted (within place isBelow))] at isUnder
          rw [← isUnder] at unbarredUnder ⊢
          exact .inr (.inl ((belowHypothesis belowOrdered _).mpr ⟨isBelow, unbarredUnder⟩))
        · exact .inr (.inr (besideIff.mpr ⟨isBeside, unbarred⟩))

end Forest

namespace Tables

/-- What lies in an entry. -/
def within (tables : Tables) (entry : Entry) : List Entry :=
  if entry.isDirectory then tables.listing entry.id else []

/-- A forest is that of some entries of a directory, which lies where names lead to from a
start. -/
inductive IsForest (tables : Tables) (start : List Name) :
    List Name → List Entry → Forest → Prop where
  | none {names : List Name} :
      IsForest tables start names [] .none
  | node {names : List Name} {name : Name} {entry : Entry} {rest : List Entry}
      {below beside : Forest}
      (here : tables.At (start ++ (names ++ [name])) entry)
      (inside : IsForest tables start (names ++ [name]) (tables.within entry) below)
      (others : IsForest tables start names rest beside) :
      IsForest tables start names (entry :: rest) (.node ⟨names ++ [name], entry⟩ below beside)

variable
  {tables : Tables}
  {start names : List Name}
  {entries : List Entry}
  {forest : Forest}
  {holder entry : Entry}

namespace Coherent

/-- Something lies in directories only. -/
theorem isDirectory_of_at
    (coherent : tables.Coherent)
    {name : Name}
    (there : tables.At (names ++ [name]) entry) :
    ∃ holder, tables.At names holder ∧ holder.isDirectory = true := by
  obtain ⟨holder, above, member, -, live, held, -⟩ := there.of_concat
  exact ⟨holder, above,
    (coherent.isLiveDirectory_of_holds member live above.member held).isDirectory⟩

/-- In an entry lies what lies one name further. -/
theorem mem_within_iff
    (coherent : tables.Coherent)
    (here : tables.At names holder) :
    entry ∈ tables.within holder ↔ ∃ name, tables.At (names ++ [name]) entry := by
  rw [within]
  split
  · exact coherent.mem_listing_iff here
  · next file =>
      refine ⟨fun absurd => (List.not_mem_nil absurd).elim, fun ⟨name, there⟩ => ?_⟩
      obtain ⟨other, above, isDirectory⟩ := coherent.isDirectory_of_at there
      rw [coherent.at_unique above here] at isDirectory
      exact (file isDirectory).elim

/-- What lies in an entry is in the order of names. -/
theorem pairwise_within
    (coherent : tables.Coherent)
    (holder : Entry) :
    (tables.within holder).Pairwise fun first second => first.name < second.name := by
  rw [within]
  split
  · exact coherent.pairwise_listing holder.id
  · exact .nil

/-- Every directory on the way to a directory has a row of its own. -/
theorem length_lt_of_at
    (coherent : tables.Coherent)
    (here : tables.At names holder)
    (isDirectory : holder.isDirectory = true) :
    names.length < tables.directories.length := by
  have passed (count : Nat) :
      ∃ above, tables.At (names.take count) above ∧ above.isDirectory = true := by
    rcases shape : names.drop count with _ | ⟨name, rest⟩
    · have whole : names.take count = names := by
        rw [← List.append_nil (names.take count), ← shape, List.take_append_drop]
      exact ⟨holder, whole.symm ▸ here, isDirectory⟩
    · have split : names = names.take count ++ [name] ++ rest := by
        rw [List.append_assoc, List.singleton_append, ← shape, List.take_append_drop]
      rw [split] at here
      obtain ⟨next, isNext⟩ := here.of_append
      exact coherent.isDirectory_of_at isNext
  have distinct :
      ((List.range (names.length + 1)).map fun count =>
        CleanPath.joinNames (names.take count)).Nodup := by
    refine List.Nodup.map_on (fun first isFirst second isSecond same => ?_) List.nodup_range
    have lengths := congrArg List.length (CleanPath.joinNames_injective same)
    simp only [List.mem_range, List.length_take] at isFirst isSecond lengths
    omega
  have rows :
      ((List.range (names.length + 1)).map fun count =>
        CleanPath.joinNames (names.take count)) ⊆ tables.directories.map (·.path) := by
    intro path member
    obtain ⟨count, -, rfl⟩ := List.mem_map.mp member
    obtain ⟨above, isAbove, isDirectoryToo⟩ := passed count
    obtain ⟨row, isRow, -, isPath⟩ := coherent.path_of_at isAbove isDirectoryToo
    exact isPath ▸ List.mem_map_of_mem isRow
  have fewer := (distinct.subperm rows).length_le
  rw [List.length_map, List.length_range, List.length_map] at fewer
  exact fewer

/-- Every entry has the forest of what lies in it. -/
theorem exists_isForest
    (coherent : tables.Coherent)
    (here : tables.At (start ++ names) holder) :
    ∃ forest, tables.IsForest start names (tables.within holder) forest := by
  induction room : tables.directories.length - (start ++ names).length
    using Nat.strong_induction_on generalizing names holder with
  | _ bound inductionHypothesis =>
      have each :
          ∀ entries ⊆ tables.within holder,
            ∃ forest, tables.IsForest start names entries forest := by
        intro entries listed
        induction entries with
        | nil =>
            exact ⟨.none, .none⟩
        | cons first rest restHypothesis =>
            obtain ⟨name, there⟩ :=
              (coherent.mem_within_iff here).mp (listed List.mem_cons_self)
            obtain ⟨other, above, isDirectory⟩ := coherent.isDirectory_of_at there
            have shallow := coherent.length_lt_of_at above isDirectory
            rw [List.append_assoc] at there
            have less :
                tables.directories.length - (start ++ (names ++ [name])).length < bound := by
              rw [← room]
              simp only [List.length_append, List.length_singleton] at shallow ⊢
              omega
            obtain ⟨below, inside⟩ := inductionHypothesis _ less there rfl
            obtain ⟨beside, others⟩ :=
              restHypothesis fun _ member => listed (List.mem_cons_of_mem first member)
            exact ⟨_, .node there inside others⟩
      exact each _ (List.Subset.refl _)

end Coherent

namespace IsForest

/-- The forests of a directory lie no deeper than there are directories. -/
theorem height_le
    (isForest : tables.IsForest start names entries forest)
    (coherent : tables.Coherent)
    (shallow : (start ++ names).length ≤ tables.directories.length) :
    forest.height + (start ++ names).length ≤ tables.directories.length := by
  induction isForest with
  | none =>
      rw [Forest.height]
      omega
  | @node names name entry rest below beside here inside others insideHypothesis
      othersHypothesis =>
      rw [← List.append_assoc] at here
      obtain ⟨holder, above, isDirectory⟩ := coherent.isDirectory_of_at here
      have shallower := coherent.length_lt_of_at above isDirectory
      have insideBound := insideHypothesis (by
        simp only [List.length_append, List.length_singleton] at shallower ⊢
        omega)
      have othersBound := othersHypothesis shallow
      simp only [Forest.height, List.length_append, List.length_singleton] at *
      omega

/-- The forest of a live directory lies no deeper than there are directories. -/
theorem height_le_of_at
    (isForest : tables.IsForest start [] (tables.within holder) forest)
    (coherent : tables.Coherent)
    (here : tables.At start holder)
    (isDirectory : holder.isDirectory = true) :
    forest.height ≤ tables.directories.length := by
  have shallow := coherent.length_lt_of_at here isDirectory
  have bound := isForest.height_le coherent (by simpa using Nat.le_of_lt shallow)
  omega

/-- A forest holds what lies behind its entries. -/
theorem mem_topDown_iff
    (isForest : tables.IsForest start names entries forest)
    (coherent : tables.Coherent)
    {place : TreePlace} :
    place ∈ forest.topDown ↔
      ∃ first ∈ entries, ∃ name rest,
        tables.At (start ++ (names ++ [name])) first ∧
          place.names = names ++ name :: rest ∧ tables.At (start ++ place.names) place.entry := by
  induction isForest with
  | none =>
      simp [Forest.topDown]
  | @node names name entry rest below beside here inside others insideHypothesis
      othersHypothesis =>
      rw [Forest.topDown, List.cons_append, List.mem_cons, List.mem_append, insideHypothesis,
        othersHypothesis]
      constructor
      · rintro (rfl | ⟨next, -, other, further, -, shape, there⟩ |
          ⟨first, member, other, further, isFirst, shape, there⟩)
        · exact ⟨entry, List.mem_cons_self, name, [], here, rfl, here⟩
        · exact ⟨entry, List.mem_cons_self, name, other :: further, here, by simp [shape], there⟩
        · exact ⟨first, List.mem_cons_of_mem entry member, other, further, isFirst, shape, there⟩
      · rintro ⟨first, member, other, further, isFirst, shape, there⟩
        rcases List.mem_cons.mp member with rfl | isOther
        · have sameName : other = name := by
            simpa using coherent.at_names_unique isFirst here
          subst sameName
          cases further with
          | nil =>
              left
              obtain ⟨placeNames, placeEntry⟩ := place
              obtain rfl : placeNames = names ++ [other] := shape
              exact congrArg _ (coherent.at_unique there here)
          | cons next others =>
              right
              left
              have split :
                  start ++ place.names =
                    (start ++ (names ++ [other])) ++ [next] ++ others := by
                simp [shape]
              obtain ⟨held, isHeld⟩ := (split ▸ there).of_append
              refine ⟨held, (coherent.mem_within_iff here).mpr ⟨next, isHeld⟩, next, others, ?_, ?_,
                there⟩
              · simpa using isHeld
              · simp [shape]
        · exact .inr (.inr ⟨first, isOther, other, further, isFirst, shape, there⟩)

/-- The forest of what lies in an entry holds what lies behind it. -/
theorem mem_iff_at
    (isForest : tables.IsForest start [] (tables.within holder) forest)
    (coherent : tables.Coherent)
    (here : tables.At start holder)
    {place : TreePlace} :
    place ∈ forest.topDown ↔ place.names ≠ [] ∧ tables.At (start ++ place.names) place.entry := by
  rw [isForest.mem_topDown_iff coherent]
  constructor
  · rintro ⟨first, -, name, rest, -, shape, there⟩
    exact ⟨by simp [shape], there⟩
  · rintro ⟨some_, there⟩
    obtain ⟨name, rest, shape⟩ := List.exists_cons_of_ne_nil some_
    have split : start ++ place.names = start ++ [name] ++ rest := by
      simp [shape]
    obtain ⟨first, isFirst⟩ := (split ▸ there).of_append
    exact ⟨first, (coherent.mem_within_iff here).mpr ⟨name, isFirst⟩, name, rest, isFirst, shape,
      there⟩

/-- The places of a forest lie within the directory that it is of. -/
theorem names_eq
    (isForest : tables.IsForest start names entries forest)
    (coherent : tables.Coherent)
    {place : TreePlace}
    (member : place ∈ forest.topDown) :
    ∃ first ∈ entries, ∃ name rest,
      first.name = name.text ∧ place.names = names ++ name :: rest := by
  obtain ⟨first, isFirst, name, rest, there, shape, -⟩ :=
    (isForest.mem_topDown_iff coherent).mp member
  rw [← List.append_assoc] at there
  obtain ⟨-, -, -, -, -, -, called⟩ := there.of_concat
  exact ⟨first, isFirst, name, rest, called, shape⟩

/-- Forests are in the order of the names of entries. -/
theorem ordered
    (isForest : tables.IsForest start names entries forest)
    (coherent : tables.Coherent)
    (sorted : entries.Pairwise fun first second => first.name < second.name) :
    forest.Ordered := by
  induction isForest with
  | none =>
      trivial
  | @node names name entry rest below beside here inside others insideHypothesis
      othersHypothesis =>
      obtain ⟨less, sortedRest⟩ := List.pairwise_cons.mp sorted
      have called : entry.name = name.text := by
        rw [← List.append_assoc] at here
        obtain ⟨-, -, -, -, -, -, called⟩ := here.of_concat
        exact called
      have within : ∀ inner ∈ below.topDown, inner.Within ⟨names ++ [name], entry⟩ := by
        intro inner member
        obtain ⟨-, -, next, further, -, shape⟩ := inside.names_eq coherent member
        exact ⟨next, further, shape⟩
      refine ⟨within, ?_, insideHypothesis (coherent.pairwise_within entry),
        othersHypothesis sortedRest⟩
      intro first isFirst second isSecond
      have shape : ∃ further, first.names = names ++ name :: further := by
        rcases List.mem_cons.mp isFirst with rfl | inBelow
        · exact ⟨[], rfl⟩
        · obtain ⟨next, further, shape⟩ := within first inBelow
          exact ⟨next :: further, by simp [shape]⟩
      obtain ⟨further, shape⟩ := shape
      obtain ⟨other, isOther, otherName, otherFurther, otherCalled, otherShape⟩ :=
        others.names_eq coherent isSecond
      refine ⟨names, name, further, otherName, otherFurther, shape, otherShape, ?_⟩
      rw [Text.toUTF8_lt_iff, ← called, ← otherCalled]
      exact less other isOther

end IsForest

end Tables

end VersionStore
