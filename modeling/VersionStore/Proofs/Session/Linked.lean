import VersionStore.Proofs.Content.Linked
import VersionStore.Proofs.Session.Edited
import VersionStore.Proofs.Session.LiveTree

namespace VersionStore

/-!
# Links of a session

A session is asked for the paths that an entry links to and for the entries that link to a path.
Each of the two answers is read from the other. But links are kept as they were written, while
the path that is asked about is cleaned. So a link that is not written as a cleaned path is given
with its entry, and leads nowhere from the other side.
-/

open Tables VersionStore.Action

namespace Session

variable {session : Session}

/-- Targets go on to be told apart in all tables, whatever happens. -/
theorem interned_after
    {strict : Prop}
    (sound : session.Sound strict)
    (all : session.store.All Interned)
    (now : Int)
    {event : Event}
    (possible : session.Possible event) :
    (session.after now event).store.All Interned := by
  refine all_made sound all possible (fun call _ tables makes => ?_)
    (fun text append _ tables edited => ?_) fun index use writer _ _ => ?_
  · exact makes.preserves (fun _ _ _ edit => edit.interned)
      (fun id paths => (all.tables.setLinks id paths).1) all.tables
  · exact edited.preserves (fun _ _ _ edit => edit.interned) all.tables
  · exact Writer.all_run stores_interned sound.steady all
      (fun _ => ⟨trivial, trivial, fun _ _ _ _ _ => trivial⟩) now use

/-- Targets are told apart in all tables of a session on a new store. -/
theorem interned_of_reachable
    {config : Config}
    (named : ∀ root ∈ config.roots, IsName root)
    (distinct : config.roots.Nodup)
    {timed : Bool}
    {since : Int}
    (reachable : Reachable (fun _ _ _ => True) (start config timed since) session) :
    session.Sound False ∧ session.store.All Interned := by
  induction reachable with
  | refl =>
      exact ⟨.start named distinct timed since, interned_seed config.roots since, nofun⟩
  | tail _ step before =>
      obtain ⟨possible, -⟩ := step
      obtain ⟨sound, all⟩ := before
      exact ⟨sound.after possible fun absurd => absurd.elim, interned_after sound all _ possible⟩

/-! ## Answers about links -/

section Answers

variable
  {store : Store}
  (steady : store.Steady)
  (outside : store.savepoints = [])
  (opened : store.closed = false)
  {text : String}
  {place : CleanPath}
  (isPath : CleanPath.ofText text = .ok place)

include steady outside opened isPath

/-- The links at a path are given. -/
theorem runOn_linksFrom :
    ((Store.linksFrom text).runOn store).1 = .ok (store.tables.linksAt place) := by
  let inside : Store := { store with entered := true, connected := true }
  have alone : inside.Alone :=
    ⟨steady.damage, steady.writable, steady.others⟩
  rw [Store.linksFrom, runOn_bind, Txn.clean, runOn_ofExcept, isPath]
  dsimp only
  rw [runOn_reading ⟨steady, outside, opened⟩, Txn.linksFrom, runOn_bind, Txn.entryAt?,
    runOn_query alone, noting_of_outside inside outside, linksAt, lookupAt?]
  cases store.tables.lookup? place.directory place.name with
  | none =>
      rfl
  | some entry =>
      exact congrArg Prod.fst (runOn_query alone _ _)

/-- The entries that link to a path are given. -/
theorem runOn_linksTo :
    ((Store.linksTo text).runOn store).1 = .ok (store.tables.sourcesOf place.text) := by
  rw [Store.linksTo, runOn_bind, Txn.clean, runOn_ofExcept, isPath]
  exact runOn_reading_query steady outside opened _ _

end Answers

/-- What a session answers about links is the same in either direction, and links are what they
were set to. -/
structure AnswersLinks (session : Session) (text : String) (place : CleanPath) (entry : Entry) :
    Prop where
  /-- An entry links to a path when one of its links denotes the path and is written like it. -/
  inverse :
    ∃ links,
      ((Store.linksFrom text).runOn session.store).1 = .ok links ∧
        ∀ query path,
          CleanPath.ofText query = .ok path →
          ∃ sources,
            ((Store.linksTo query).runOn session.store).1 = .ok sources ∧
              (⟨place.directory, entry⟩ ∈ sources ↔
                ∃ link ∈ links, CleanPath.ofText link = .ok path ∧ link = path.text)
  /-- Links are set unless the store is about to close, and no others are changed. -/
  set :
    session.store.closing = false →
    ∀ links,
      ∃ left,
        (Store.setLinks text links).runOn session.store = (.ok true, left) ∧
          (∃ given,
            ((Store.linksFrom text).runOn left).1 = .ok given ∧
              ∀ link, link ∈ given ↔ link ∈ links) ∧
            ∀ other path,
              CleanPath.ofText other = .ok path →
              path ≠ place →
              ((Store.linksFrom other).runOn left).1 =
                ((Store.linksFrom other).runOn session.store).1

/-- A sound session answers alike about links in either direction. -/
theorem Sound.answersLinks
    {strict : Prop}
    (sound : session.Sound strict)
    (interned : session.store.tables.Interned)
    (outside : session.store.savepoints = [])
    (opened : session.store.closed = false)
    {text : String}
    {place : CleanPath}
    {entry : Entry}
    (isPath : CleanPath.ofText text = .ok place)
    (found : session.store.tables.lookupAt? place = some entry) :
    session.AnswersLinks text place entry := by
  have coherent := sound.all.tables.coherent
  constructor
  case inverse =>
    refine ⟨_, runOn_linksFrom sound.steady outside opened isPath, fun query path isQuery =>
      ⟨_, runOn_linksTo sound.steady outside opened isQuery, ?_⟩⟩
    rw [linksAt, found, ← interned.mem_targetsOf_iff_mem_sourcesOf coherent found]
    constructor
    · exact fun member => ⟨path.text, member, CleanPath.ofText_text path, rfl⟩
    · rintro ⟨_, member, -, rfl⟩
      exact member
  case set =>
    intro staying links
    obtain ⟨done, left, ran, idle, rfl, same⟩ :=
      (Txn.setLinks_known isPath found links).runs_writing ⟨sound.steady, outside, opened⟩ staying
        .idle rfl
    obtain ⟨own, others⟩ := interned.relinks coherent found links
    have answer {text : String} {place : CleanPath} (isPath : CleanPath.ofText text = .ok place) :
        ((Store.linksFrom text).runOn left).1 =
          .ok ((session.store.tables.setLinks entry.id links).linksAt place) := by
      rw [← same]
      exact runOn_linksFrom idle.toSteady idle.outside idle.opened isPath
    refine ⟨left, ran, ⟨_, answer isPath, own⟩, fun other path isOther apart => ?_⟩
    rw [answer isOther, others path apart, runOn_linksFrom sound.steady outside opened isOther]

/-- In a session on a new store, whatever happens, an entry links to a path just when it is among
those that link there. Links that are set for what lies at a path are the links from this path,
and links from other paths stay, in a transaction as well as outside. -/
theorem linked_of_reachable
    {config : Config}
    (named : ∀ root ∈ config.roots, IsName root)
    (distinct : config.roots.Nodup)
    {timed : Bool}
    {since : Int}
    (reachable : Reachable (fun _ _ _ => True) (start config timed since) session) :
    (∀ tables ∈ session.store.tables :: session.store.kept :: session.store.savepoints,
      ∀ place entry path,
        tables.lookupAt? place = some entry →
        (path ∈ tables.targetsOf entry.id ↔
          ⟨place.directory, entry⟩ ∈ tables.sourcesOf path)) ∧
      ∀ text place entry,
        CleanPath.ofText text = .ok place →
        session.store.tables.lookupAt? place = some entry →
        (session.store.savepoints = [] →
          session.store.closed = false →
          session.AnswersLinks text place entry) ∧
          (session.store.savepoints ≠ [] →
            ∀ links,
              ∃ left,
                (Txn.setLinks text links).runOn session.store = (.ok true, left) ∧
                  Relinks session.store.tables place links left.tables) := by
  obtain ⟨sound, interned⟩ := interned_of_reachable named distinct reachable
  have coherent := sound.all.tables.coherent
  refine ⟨fun tables isTables place entry path found => ?_,
    fun text place entry isPath found => ⟨fun outside opened => ?_, fun inside links => ?_⟩⟩
  · exact (interned.each sound.steady tables isTables).mem_targetsOf_iff_mem_sourcesOf
      (sound.all.each sound.steady tables isTables).coherent found
  · exact sound.answersLinks interned.tables outside opened isPath found
  · obtain ⟨-, ended⟩ :=
      Txn.setLinks_known isPath found links session.store (sound.steady.inScope inside .idle) rfl
    rcases ran : (Txn.setLinks text links).runOn session.store with ⟨fault | done, left⟩
    · rw [ran] at ended
      exact ended.elim
    · rw [ran] at ended
      obtain ⟨rfl, same⟩ := ended
      refine ⟨left, rfl, ?_⟩
      rw [same]
      exact interned.tables.relinks coherent found links

/-- Two files link to one path. Only the link that is written as a cleaned path is found from
there, whichever way the path is written. -/
theorem linked_write :
    let session :=
      ((start {} false 0).after 1 (.whole (.write "home/a" ⟨#[1]⟩ (some ["/home/b"]) none))).after 2
        (.whole (.write "home/c" ⟨#[1]⟩ (some ["home/b"]) none))
    let place (name : Name) : CleanPath := ⟨[⟨"home", by decide⟩, name]⟩
    ∃ first second sources,
      session.AnswersLinks "home/a" (place ⟨"a", by decide⟩) first ∧
        session.AnswersLinks "home/c" (place ⟨"c", by decide⟩) second ∧
          ((Store.linksTo "/home/b").runOn session.store).1 = .ok sources ∧
            ⟨"home", first⟩ ∉ sources ∧ ⟨"home", second⟩ ∈ sources := by
  intro session place
  have written :
      Step (fun _ _ _ => True) (start {} false 0)
        ((start {} false 0).after 1 (.whole (.write "home/a" ⟨#[1]⟩ (some ["/home/b"]) none))) :=
    .event trivial trivial
  have reachable : Reachable (fun _ _ _ => True) (start {} false 0) session :=
    (Relation.ReflTransGen.single written).tail (.event trivial trivial)
  have state : session.store.savepoints.isEmpty = true ∧ session.store.closed = false := by
    decide +kernel
  obtain ⟨-, answers⟩ := linked_of_reachable (by decide) (by decide) reachable
  -- A link is found from the path when it is written as the path is.
  have found
      (text : String)
      (name : Name)
      (link : String)
      (isPath : CleanPath.ofText text = .ok (place name))
      (isThere : (session.store.tables.lookupAt? (place name)).isSome = true)
      (given : ((Store.linksFrom text).runOn session.store).1 = .ok [link]) :
      ∃ entry sources,
        session.AnswersLinks text (place name) entry ∧
          ((Store.linksTo "/home/b").runOn session.store).1 = .ok sources ∧
            (⟨"home", entry⟩ ∈ sources ↔
              ∃ other ∈ [link],
                CleanPath.ofText other = .ok (place ⟨"b", by decide⟩) ∧ other = "home/b") := by
    obtain ⟨entry, isEntry⟩ := Option.isSome_iff_exists.mp isThere
    have agrees := (answers text _ entry isPath isEntry).1 (List.isEmpty_iff.mp state.1) state.2
    obtain ⟨links, isGiven, inverse⟩ := agrees.inverse
    cases given.symm.trans isGiven
    obtain ⟨sources, isAnswer, listed⟩ :=
      inverse "/home/b" (place ⟨"b", by decide⟩) (by decide)
    exact ⟨entry, sources, agrees, isAnswer, listed⟩
  obtain ⟨first, sources, firstAgrees, isAnswer, firstListed⟩ :=
    found "home/a" ⟨"a", by decide⟩ "/home/b" (by decide) (by decide +kernel)
      (by decide +kernel)
  obtain ⟨second, others, secondAgrees, isOther, secondListed⟩ :=
    found "home/c" ⟨"c", by decide⟩ "home/b" (by decide) (by decide +kernel)
      (by decide +kernel)
  cases isAnswer.symm.trans isOther
  exact ⟨first, second, sources, firstAgrees, secondAgrees, isAnswer,
    mt firstListed.mp (by decide), secondListed.mpr (by decide)⟩

end Session

end VersionStore
