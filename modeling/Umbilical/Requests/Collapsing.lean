import Mathlib.Data.List.Sort
import Mathlib.Logic.Function.Basic
import Umbilical.Requests.Compatibility

set_option autoImplicit false

/-!
# Collapsing requests

Whoever adds a buildset collapses the requests that its own ones stand for, while
others add buildsets, claim and complete requests and collapse too.
-/

namespace Umbilical.Requests.Collapsing

open Keyed Interleaving

variable {ν π : Type} [DecidableEq ν] [DecidableEq π]

/-- The values of the dictionary of the new requests by builder: of several requests for one builder, the last. -/
def newRequests (new : NewBuildset ν) : List Nat :=
  new.builderids.eraseDups.filterMap fun builderid =>
    (((new.builderids.zip new.brids).filter fun pair => pair.1 = builderid).map Prod.snd).getLast?

/-- `_getUnclaimedBrs`. -/
def getUnclaimedBrs (tables : Tables ν) (builderid : Nat) : List BuildRequestRow :=
  let rows := tables.buildrequests.filter fun row => row.builderid = builderid ∧ row.builderid ∈ tables.builders ∧
    (tables.claim row.id).isNone ∧ row.complete = some 0
  (rows.flatMap tables.joined).eraseDups.insertionSort fun first second => first.submittedAt ≤ second.submittedAt

/-- Where a process is in `collapse`. `found` is `brids_to_collapse`. -/
inductive Stage where
  | idle
  | requests (brids found : List Nat)
  | unclaimed (new : BuildRequestRow) (olds : List BuildRequestRow) (brids found : List Nat)
  | comparing (new old : BuildRequestRow) (comparison : Comparison) (olds : List BuildRequestRow) (brids found : List Nat)
  | claiming (found : List Nat)
  | completing (brid : Nat) (found : List Nat)

inductive Event (ν π : Type) where
  | addSourcestamp (row : SourceStampRow)
  | addChange (ssid : Nat)
  | addBuilder (builderid : Nat)
  | addBuildset (process : π) (new : NewBuildset ν)
  | call (call : Call)
  | proceed (process : π) (masterid : Nat) (configured : Bool) (brid : Nat) (now : Int)
  | fail (process : π)

inductive Observation (π : Type) where
  | collapsed (process : π) (brid : Nat)
  deriving DecidableEq

structure World (ν π : Type) where
  tables : Tables ν
  stages : π → Stage

namespace World

def start (foreignKeys : Bool) : World ν π := ⟨.empty ν foreignKeys, fun _ => .idle⟩

variable (world : World ν π)

def become (process : π) (tables : Tables ν) (stage : Stage) : World ν π where
  tables := tables
  stages := Function.update world.stages process stage

/-- `configured` says whether the builder of the request is one of this master, `brid` which of the requests found
the set gives next. -/
def advance (process : π) (masterid : Nat) (configured : Bool) (brid : Nat) (now : Int) :
    Stage → World ν π × List (Observation π)
  | .idle => (world, [])
  | .requests [] found => (world.become process world.tables (.claiming found), [])
  | .requests (next :: brids) found =>
      match world.tables.getBuildRequest next with
      | none => (world.become process world.tables .idle, [])
      | some new =>
          if configured then (world.become process world.tables
            (.unclaimed new (getUnclaimedBrs world.tables new.builderid) brids found), [])
          else (world.become process world.tables (.requests brids found), [])
  | .unclaimed _ [] brids found => (world.become process world.tables (.requests brids found), [])
  | .unclaimed new (old :: olds) brids found =>
      if old.id = new.id then (world.become process world.tables (.unclaimed new olds brids found), [])
      else (world.become process world.tables
        (.comparing new old (world.tables.beginComparison new old) olds brids found), [])
  | .comparing new old (.answer true) olds brids found =>
      (world.become process world.tables (.unclaimed new olds brids (found.insert old.id)), [])
  | .comparing new _ (.answer false) olds brids found =>
      (world.become process world.tables (.unclaimed new olds brids found), [])
  | .comparing new old comparison olds brids found => (world.become process world.tables
      (.comparing new old (world.tables.compare new old comparison) olds brids found), [])
  | .claiming found =>
      if found = [] then (world.become process world.tables .idle, [])
      else if brid ∈ found then
        match world.tables.update masterid (.claimBuildRequests [brid] now) with
        | (tables, .ok true) => (world.become process tables (.completing brid (found.erase brid)), [])
        | (tables, _) => (world.become process tables (.claiming (found.erase brid)), [])
      else (world, [])
  | .completing brid found =>
      match world.tables.update masterid (.completeBuildRequests [brid] SKIPPED now) with
      | (tables, .ok true) => (world.become process tables (.claiming found), [.collapsed process brid])
      | (tables, _) => (world.become process tables (.claiming found), [])

def step : Event ν π → World ν π × List (Observation π)
  | .addSourcestamp row =>
      -- `findSourceStampId` inserts what is not there yet
      if lookup SourceStampRow.id world.tables.sourcestamps row.id = none ∧
        lookup SourceStampRow.stamp world.tables.sourcestamps row.stamp = none then
        ({ world with tables := world.tables.addSourcestamp row }, [])
      else (world, [])
  | .addChange ssid => ({ world with tables := world.tables.addChange ssid }, [])
  | .addBuilder builderid => ({ world with tables := world.tables.addBuilder builderid }, [])
  | .addBuildset process new =>
      match world.stages process, world.tables.addBuildset new with
      | .idle, .ok tables =>
          if world.tables.Admits new then (world.become process tables (.requests (newRequests new) []), [])
          else (world, [])
      | _, _ => (world, [])
  | .call call => ({ world with tables := (world.tables.call call).1 }, [])
  | .proceed process masterid configured brid now =>
      world.advance process masterid configured brid now (world.stages process)
  | .fail process => (world.become process world.tables .idle, [])

end World

section Invariants

variable {before after tables : Tables ν} {row new old keeper : BuildRequestRow} {stage : Stage}

omit [DecidableEq ν]

def Present (tables : Tables ν) (row : BuildRequestRow) : Prop := ∃ other ∈ tables.buildrequests, Tables.Same other row

/-- No request of the same buildset and builder is newer. -/
def Newest (tables : Tables ν) (row : BuildRequestRow) : Prop :=
  ∀ other ∈ tables.buildrequests, other.buildsetid = row.buildsetid → other.builderid = row.builderid → other.id ≤ row.id

/-- One request can be built in the place of another one. -/
def StandsFor (tables : Tables ν) (row keeper : BuildRequestRow) : Prop :=
  keeper.builderid = row.builderid ∧
    (keeper.buildsetid = row.buildsetid ∨ tables.Supersedes keeper.buildsetid row.buildsetid)

/-- A newer request stands for the request. -/
def Justified (tables : Tables ν) (brid : Nat) : Prop :=
  ∃ row ∈ tables.buildrequests, row.id = brid ∧ ∃ keeper ∈ tables.buildrequests, row.id < keeper.id ∧
    StandsFor tables row keeper

def Grounded (tables : Tables ν) : Stage → Prop
  | .idle => True
  | .requests brids found =>
      (∀ brid ∈ brids, ∃ row ∈ tables.buildrequests, row.id = brid ∧ Newest tables row) ∧
        ∀ brid ∈ found, Justified tables brid
  | .unclaimed new olds brids found => Present tables new ∧ Newest tables new ∧
      (∀ old ∈ olds, Present tables old ∧ old.builderid = new.builderid) ∧
      (∀ brid ∈ brids, ∃ row ∈ tables.buildrequests, row.id = brid ∧ Newest tables row) ∧
        ∀ brid ∈ found, Justified tables brid
  | .comparing new old comparison olds brids found => Present tables new ∧ Newest tables new ∧
      (Present tables old ∧ old.builderid = new.builderid ∧ old.id ≠ new.id ∧ tables.Compares new old comparison) ∧
      (∀ old ∈ olds, Present tables old ∧ old.builderid = new.builderid) ∧
      (∀ brid ∈ brids, ∃ row ∈ tables.buildrequests, row.id = brid ∧ Newest tables row) ∧
        ∀ brid ∈ found, Justified tables brid
  | .claiming found => ∀ brid ∈ found, Justified tables brid
  | .completing brid found => Justified tables brid ∧ ∀ brid ∈ found, Justified tables brid

theorem StandsFor.trans {first second third : BuildRequestRow} (one : StandsFor tables first second)
    (two : StandsFor tables second third) : StandsFor tables first third := by
  refine ⟨two.1.trans one.1, ?_⟩
  rcases one.2 with same | supersedes
  · rcases two.2 with also | further
    · exact .inl (also.trans same)
    · exact .inr (same ▸ further)
  · rcases two.2 with also | further
    · exact .inr (also.symm ▸ supersedes)
    · exact .inr (further.trans supersedes)

theorem Present.known (sound : tables.Sound) (present : Present tables row) : tables.Known row.buildsetid := by
  obtain ⟨other, there, -, same, -⟩ := present
  exact same ▸ sound.buildset other there

section Growth

variable (grown : before.Extends after)
include grown

theorem Present.grow (present : Present before row) : Present after row := by
  obtain ⟨other, there, ids, sets, builders⟩ := present
  obtain ⟨later, also, ids', sets', builders'⟩ := grown.later other there
  exact ⟨later, also, ids'.trans ids, sets'.trans sets, builders'.trans builders⟩

theorem Newest.grow (known : before.Known row.buildsetid) (newest : Newest before row) : Newest after row := by
  intro other there sameSet sameBuilder
  obtain ⟨earlier, before, ids, sets, builders⟩ := grown.earlier other there (sameSet.symm ▸ known)
  exact ids ▸ newest earlier before (sets.trans sameSet) (builders.trans sameBuilder)

theorem StandsFor.grow (rowKnown : before.Known row.buildsetid) (keeperKnown : before.Known keeper.buildsetid)
    (stands : StandsFor before row keeper) : StandsFor after row keeper :=
  ⟨stands.1, stands.2.imp id (grown.supersedes keeperKnown rowKnown)⟩

theorem Justified.grow (sound : before.Sound) {brid : Nat} (justified : Justified before brid) : Justified after brid := by
  obtain ⟨row, there, rfl, keeper, kept, newer, stands⟩ := justified
  obtain ⟨row', there', ids, sets, builders⟩ := grown.later row there
  obtain ⟨keeper', kept', ids', sets', builders'⟩ := grown.later keeper kept
  have still := stands.grow grown (sound.buildset row there) (sound.buildset keeper kept)
  refine ⟨row', there', ids, keeper', kept', ids ▸ ids' ▸ newer, ?_⟩
  unfold StandsFor at still ⊢
  rwa [sets, builders, sets', builders']

theorem Grounded.grow (sound : before.Sound) (grounded : Grounded before stage) : Grounded after stage := by
  have found : ∀ {brids : List Nat}, (∀ brid ∈ brids, Justified before brid) → ∀ brid ∈ brids, Justified after brid :=
    fun all brid member => (all brid member).grow grown sound
  have requests : ∀ {brids : List Nat},
      (∀ brid ∈ brids, ∃ row ∈ before.buildrequests, row.id = brid ∧ Newest before row) →
      ∀ brid ∈ brids, ∃ row ∈ after.buildrequests, row.id = brid ∧ Newest after row := by
    intro brids all brid member
    obtain ⟨row, there, same, newest⟩ := all brid member
    obtain ⟨later, also, ids, sets, builders⟩ := grown.later row there
    have still := newest.grow grown (sound.buildset row there)
    refine ⟨later, also, ids.trans same, ?_⟩
    unfold Newest at still ⊢
    rwa [ids, sets, builders]
  have present : ∀ {olds : List BuildRequestRow} {new : BuildRequestRow},
      (∀ old ∈ olds, Present before old ∧ old.builderid = new.builderid) →
      ∀ old ∈ olds, Present after old ∧ old.builderid = new.builderid :=
    fun all old member => ⟨(all old member).1.grow grown, (all old member).2⟩
  cases stage with
  | idle => trivial
  | requests brids collapsing => exact ⟨requests grounded.1, found grounded.2⟩
  | unclaimed new olds brids collapsing =>
    obtain ⟨there, newest, olds, brids, justified⟩ := grounded
    exact ⟨there.grow grown, newest.grow grown (there.known sound), present olds, requests brids, found justified⟩
  | comparing new old comparison olds brids collapsing =>
    obtain ⟨there, newest, ⟨also, builder, other, compares⟩, olds, brids, justified⟩ := grounded
    exact ⟨there.grow grown, newest.grow grown (there.known sound),
      ⟨also.grow grown, builder, other, grown.compares (there.known sound) (also.known sound) compares⟩,
      present olds, requests brids, found justified⟩
  | claiming collapsing => exact found grounded
  | completing brid collapsing => exact ⟨grounded.1.grow grown sound, found grounded.2⟩

end Growth

end Invariants

omit [DecidableEq ν] in
theorem mem_getUnclaimedBrs {tables : Tables ν} {builderid : Nat} {row : BuildRequestRow}
    (member : row ∈ getUnclaimedBrs tables builderid) : row ∈ tables.buildrequests ∧ row.builderid = builderid := by
  simp only [getUnclaimedBrs, List.mem_insertionSort, List.mem_eraseDups, List.mem_flatMap, List.mem_filter,
    decide_eq_true_eq, Tables.joined, List.mem_map] at member
  obtain ⟨found, ⟨there, builder, -⟩, -, -, -, -, rfl⟩ := member
  exact ⟨there, builder⟩

omit [DecidableEq ν] in
/-- What a comparison finds: the new request stands for the old one and is newer. -/
theorem justified_of_compares {tables : Tables ν} {new old : BuildRequestRow} (there : Present tables new)
    (also : Present tables old) (newest : Newest tables new) (builder : old.builderid = new.builderid)
    (other : old.id ≠ new.id)
    (compared : new.buildsetid = old.buildsetid ∨
      old.id ≤ new.id ∧ tables.Supersedes new.buildsetid old.buildsetid) : Justified tables old.id := by
  obtain ⟨keeper, kept, ids, sets, builders⟩ := there
  obtain ⟨row, present, ids', sets', builders'⟩ := also
  have newer : row.id < keeper.id := by
    rw [ids, ids']
    rcases compared with same | ⟨older, -⟩
    · -- of the requests of a buildset for one builder, only the newest one collapses others
      have last := newest row present (sets'.trans same.symm) (builders'.trans builder)
      omega
    · omega
  refine ⟨row, present, ids', keeper, kept, newer, builders.trans (builder.symm.trans builders'.symm), ?_⟩
  rw [sets, sets']
  exact compared.imp id And.right

section NewRequests

variable {before after : Tables ν} {new : NewBuildset ν}

omit [DecidableEq ν]

theorem newRequests_last (growing : new.brids.Pairwise (· < ·)) (lengths : new.brids.length = new.builderids.length)
    {brid : Nat} (member : brid ∈ newRequests new) :
    ∃ builderid, (builderid, brid) ∈ new.builderids.zip new.brids ∧
      ∀ other, (builderid, other) ∈ new.builderids.zip new.brids → other ≤ brid := by
  obtain ⟨builderid, -, last⟩ := List.mem_filterMap.mp member
  obtain ⟨earlier, split⟩ := List.getLast?_eq_some_iff.mp last
  have mine : ∀ other, other ∈ earlier ++ [brid] ↔ (builderid, other) ∈ new.builderids.zip new.brids := by
    intro other
    rw [← split]
    simp
  have sorted : (earlier ++ [brid]).Pairwise (· < ·) := by
    rw [← split]
    refine List.Pairwise.sublist (List.Sublist.map _ List.filter_sublist) ?_
    rwa [List.map_snd_zip (Nat.le_of_eq lengths)]
  refine ⟨builderid, (mine brid).mp (by simp), fun other there => ?_⟩
  rcases List.mem_append.mp ((mine other).mpr there) with before | same
  · exact Nat.le_of_lt ((List.pairwise_append.mp sorted).2.2 other before brid (by simp))
  · exact Nat.le_of_eq (List.mem_singleton.mp same)

theorem newRequests_newest (sound : before.Sound) (admits : before.Admits new)
    (added : before.addBuildset new = .ok after) :
    ∀ brid ∈ newRequests new, ∃ row ∈ after.buildrequests, row.id = brid ∧ Newest after row := by
  intro brid member
  obtain ⟨builderid, paired, last⟩ := newRequests_last admits.2.2.1 admits.2.2.2.1 member
  obtain ⟨-, rfl⟩ := Tables.addBuildset_eq_ok added
  refine ⟨new.request builderid brid, List.mem_append_right _ (List.mem_map.mpr ⟨_, paired, rfl⟩), rfl, ?_⟩
  intro other there sameSet sameBuilder
  rcases List.mem_append.mp there with old | fresh
  · -- the buildset is new, so it has no other requests
    obtain ⟨buildset, among, same⟩ := sound.buildset other old
    exact absurd (same.trans sameSet) (lookup_eq_none.mp admits.1 buildset among)
  · obtain ⟨⟨builderid', brid'⟩, paired', rfl⟩ := List.mem_map.mp fresh
    obtain rfl : builderid' = builderid := sameBuilder
    exact last brid' paired'

end NewRequests

namespace World

variable {world after : World ν π} {tables : Tables ν} {stage : Stage} {observed : List (Observation π)}

structure Sound (world : World ν π) : Prop where
  tables : world.tables.Sound
  catalogued : world.tables.Catalogued
  grounded : ∀ process, Grounded world.tables (world.stages process)

/-- What one step keeps, and what it shows. -/
structure Follows (world after : World ν π) (observed : List (Observation π)) : Prop where
  sound : after.Sound
  grown : world.tables.Extends after.tables
  justified : ∀ process brid, .collapsed process brid ∈ observed → Justified world.tables brid

omit [DecidableEq ν] [DecidableEq π]

theorem Sound.still (sound : world.Sound) : world.Follows world [] := ⟨sound, .refl _, fun _ _ => nofun⟩

/-- A step in which only the tables change. -/
theorem Sound.change (sound : world.Sound) (grown : world.tables.Extends tables) (soundTables : tables.Sound)
    (catalogued : tables.Catalogued) : world.Follows { world with tables := tables } [] where
  sound := ⟨soundTables, catalogued, fun process => (sound.grounded process).grow grown sound.tables⟩
  grown := grown
  justified _ _ := nofun

variable [DecidableEq π]

theorem Sound.become (sound : world.Sound) (grown : world.tables.Extends tables) (soundTables : tables.Sound)
    (catalogued : tables.Catalogued) (grounded : Grounded tables stage) (process : π)
    (justified : ∀ process brid, .collapsed process brid ∈ observed → Justified world.tables brid) :
    world.Follows (world.become process tables stage) observed where
  sound :=
    { tables := soundTables
      catalogued := catalogued
      grounded := by
        intro other
        by_cases same : other = process
        · subst same
          simpa [World.become] using grounded
        · simpa [World.become, same] using (sound.grounded other).grow grown sound.tables }
  grown := grown
  justified := justified

/-- A step in which only one process moves. -/
theorem Sound.turn (sound : world.Sound) (grounded : Grounded world.tables stage) (process : π) :
    world.Follows (world.become process world.tables stage) [] :=
  sound.become (.refl _) sound.tables sound.catalogued grounded process fun _ _ => nofun

omit [DecidableEq π] in
theorem Sound.effect (sound : world.Sound) {masterid : Nat} {operation : Operation}
    (effect : tables = world.tables ∨ Tables.Effect masterid world.tables tables operation) :
    world.tables.Extends tables ∧ tables.Sound ∧ tables.Catalogued := by
  rcases effect with rfl | effect
  · exact ⟨.refl _, sound.tables, sound.catalogued⟩
  · exact ⟨effect.extends, sound.tables.effect effect, effect.catalogued sound.catalogued⟩

omit [DecidableEq π] in
theorem Sound.update (sound : world.Sound) (masterid : Nat) (operation : Operation) :
    world.tables.Extends (world.tables.update masterid operation).1 ∧
      (world.tables.update masterid operation).1.Sound ∧ (world.tables.update masterid operation).1.Catalogued := by
  apply sound.effect
  rcases Tables.update_execute world.tables masterid operation with same | same
  · exact .inl same
  · rw [same]
    exact Tables.execute_effect sound.tables.toKeyed masterid operation

variable [DecidableEq ν]

theorem Sound.advance_follows (sound : world.Sound) (process : π) (masterid : Nat) (configured : Bool) (brid : Nat)
    (now : Int) (here : Grounded world.tables stage) :
    world.Follows (world.advance process masterid configured brid now stage).1
      (world.advance process masterid configured brid now stage).2 := by
  cases stage with
  | idle => exact sound.still
  | requests brids found =>
    obtain ⟨requests, justified⟩ := here
    cases brids with
    | nil =>
      refine sound.turn ?_ process
      exact justified
    | cons next brids =>
      simp only [World.advance]
      split
      next =>
        refine sound.turn ?_ process
        exact trivial
      next new read =>
        have rest := fun brid member => requests brid (List.mem_cons_of_mem next member)
        split_ifs
        · obtain ⟨there, same⟩ := mem_of_lookup (Option.filter_eq_some_iff.mp read).1
          obtain ⟨row, also, identical, newest⟩ := requests next List.mem_cons_self
          obtain rfl := sound.tables.requests.eq_of_key also there (identical.trans same.symm)
          refine sound.turn ?_ process
          refine ⟨⟨row, there, rfl, rfl, rfl⟩, newest, fun old member => ?_, rest, justified⟩
          obtain ⟨present, builder⟩ := mem_getUnclaimedBrs member
          exact ⟨⟨old, present, rfl, rfl, rfl⟩, builder⟩
        · refine sound.turn ?_ process
          exact ⟨rest, justified⟩
  | unclaimed new olds brids found =>
    obtain ⟨there, newest, present, requests, justified⟩ := here
    cases olds with
    | nil =>
      refine sound.turn ?_ process
      exact ⟨requests, justified⟩
    | cons old olds =>
      have rest := fun other member => present other (List.mem_cons_of_mem old member)
      obtain ⟨also, builder⟩ := present old List.mem_cons_self
      simp only [World.advance]
      split_ifs with same
      · refine sound.turn ?_ process
        exact ⟨there, newest, rest, requests, justified⟩
      · refine sound.turn ?_ process
        exact ⟨there, newest, ⟨also, builder, same, Tables.beginComparison_compares new old⟩, rest, requests, justified⟩
  | comparing new old comparison olds brids found =>
    obtain ⟨there, newest, ⟨also, builder, other, compares⟩, present, requests, justified⟩ := here
    have onward := compares.compare sound.catalogued
    cases comparison with
    | sources pairs =>
      refine sound.turn ?_ process
      exact ⟨there, newest, ⟨also, builder, other, onward⟩, present, requests, justified⟩
    | otherChanges selfChanges self second pairs =>
      refine sound.turn ?_ process
      exact ⟨there, newest, ⟨also, builder, other, onward⟩, present, requests, justified⟩
    | answer canCollapse =>
      cases canCollapse with
      | false =>
        refine sound.turn ?_ process
        exact ⟨there, newest, present, requests, justified⟩
      | true =>
        refine sound.turn ?_ process
        refine ⟨there, newest, present, requests, fun brid member => ?_⟩
        rcases List.mem_insert_iff.mp member with rfl | before
        · exact justified_of_compares there also newest builder other (compares rfl)
        · exact justified brid before
  | claiming found =>
    obtain ⟨grown, soundTables, catalogued⟩ := sound.update masterid (.claimBuildRequests [brid] now)
    have kept : ∀ other ∈ found, Justified (world.tables.update masterid (.claimBuildRequests [brid] now)).1 other :=
      fun other member => (here other member).grow grown sound.tables
    simp only [World.advance]
    split_ifs with none among
    · refine sound.turn ?_ process
      exact trivial
    · split
      next tables updated =>
        rw [updated] at grown soundTables catalogued kept
        refine sound.become grown soundTables catalogued ?_ process fun _ _ => nofun
        exact ⟨kept brid among, fun other member => kept other (List.mem_of_mem_erase member)⟩
      next tables answer _ updated =>
        rw [updated] at grown soundTables catalogued kept
        refine sound.become grown soundTables catalogued ?_ process fun _ _ => nofun
        exact fun other member => kept other (List.mem_of_mem_erase member)
    · exact sound.still
  | completing brid found =>
    obtain ⟨grown, soundTables, catalogued⟩ := sound.update masterid (.completeBuildRequests [brid] SKIPPED now)
    obtain ⟨mine, others⟩ := here
    have kept : ∀ other ∈ found,
        Justified (world.tables.update masterid (.completeBuildRequests [brid] SKIPPED now)).1 other :=
      fun other member => (others other member).grow grown sound.tables
    simp only [World.advance]
    split
    next tables updated =>
      rw [updated] at grown soundTables catalogued kept
      refine sound.become grown soundTables catalogued ?_ process fun _ other seen => ?_
      · exact kept
      · obtain ⟨-, rfl⟩ := Observation.collapsed.inj (List.mem_singleton.mp seen)
        exact mine
    next tables answer _ updated =>
      rw [updated] at grown soundTables catalogued kept
      refine sound.become grown soundTables catalogued ?_ process fun _ _ => nofun
      exact kept

theorem Sound.step_follows (sound : world.Sound) (event : Event ν π) :
    world.Follows (world.step event).1 (world.step event).2 := by
  cases event with
  | addSourcestamp row =>
    simp only [World.step]
    split_ifs with fresh
    · exact sound.change (.addSourcestamp sound.catalogued fresh.1) (sound.tables.addSourcestamp row)
        (sound.catalogued.addSourcestamp fresh.1 fresh.2)
    · exact sound.still
  | addChange ssid =>
    exact sound.change (.addChange ssid) (sound.tables.addChange ssid)
      ⟨sound.catalogued.ids, sound.catalogued.stamps, sound.catalogued.linked⟩
  | addBuilder builderid =>
    exact sound.change (.addBuilder builderid) (sound.tables.addBuilder builderid)
      ⟨sound.catalogued.ids, sound.catalogued.stamps, sound.catalogued.linked⟩
  | addBuildset process new =>
    simp only [World.step]
    split
    next tables _ added =>
      split_ifs with admits
      · have soundTables := sound.tables.addBuildset admits added
        refine sound.become (.addBuildset admits added) soundTables (sound.catalogued.addBuildset admits added) ?_ process
          (by simp)
        exact ⟨newRequests_newest sound.tables admits added, by simp⟩
      · exact sound.still
    next => exact sound.still
  | call call =>
    obtain ⟨grown, soundTables, catalogued⟩ := sound.effect (Tables.call_effect sound.tables.toKeyed call)
    exact sound.change grown soundTables catalogued
  | proceed process masterid configured brid now =>
    exact sound.advance_follows process masterid configured brid now (sound.grounded process)
  | fail process =>
    refine sound.turn ?_ process
    exact trivial

omit [DecidableEq ν] [DecidableEq π] in
theorem start_sound (foreignKeys : Bool) : (start foreignKeys : World ν π).Sound :=
  ⟨Tables.empty_sound foreignKeys, ⟨List.nodup_nil, List.nodup_nil, nofun⟩, fun _ => trivial⟩

/-- Everything that has been collapsed is justified in the state reached. -/
theorem run_justified (foreignKeys : Bool) (events : List (Event ν π)) :
    (final step (start foreignKeys) events).Sound ∧ ∀ process brid,
      .collapsed process brid ∈ seen step (start foreignKeys) events →
        Justified (final step (start foreignKeys) events).tables brid := by
  let invariant (world : World ν π) (past : List (Observation π)) :=
    world.Sound ∧ ∀ process brid, .collapsed process brid ∈ past → Justified world.tables brid
  have preserved : ∀ world past event, invariant world past →
      invariant (world.step event).1 (past ++ (world.step event).2) := by
    rintro world past event ⟨sound, justified⟩
    have follows := sound.step_follows event
    refine ⟨follows.sound, fun process brid member => ?_⟩
    rcases List.mem_append.mp member with before | now
    · exact (justified process brid before).grow follows.grown sound.tables
    · exact (follows.justified process brid now).grow follows.grown sound.tables
  have initially : invariant (start foreignKeys) [] := ⟨start_sound foreignKeys, fun _ _ => nofun⟩
  exact history_of_step preserved initially events

end World

/-- Same codebases, repositories, branches and projects, no patches, the same revisions where there are no changes,
and the same properties from the scheduler. -/
structure Compatible (tables : Tables ν) (new old : Nat) : Prop where
  codebases : ∀ codebase, (tables.source new codebase).isSome = (tables.source old codebase).isSome
  sources : ∀ codebase self other, tables.source new codebase = some self → tables.source old codebase = some other →
    self.stamp.repository = other.stamp.repository ∧ self.stamp.branch = other.stamp.branch ∧
      self.stamp.project = other.stamp.project ∧ self.stamp.patchid = none ∧ other.stamp.patchid = none ∧
      (tables.HasChanges self.id ∧ tables.HasChanges other.id ∨ self.stamp.revision = other.stamp.revision)
  properties : ∀ name, tables.schedulerProperty new name = tables.schedulerProperty old name

omit [DecidableEq ν] in
theorem compatible_of_supersedes {tables : Tables ν} {new old : Nat} (supersedes : tables.Supersedes new old) :
    Compatible tables new old where
  codebases := supersedes.codebases
  sources codebase self other here there := by
    have alike := supersedes.alike codebase self other here there
    refine ⟨alike.repository, alike.branch, alike.project, alike.unpatched.1, alike.unpatched.2, ?_⟩
    exact alike.changes.symm.imp id fun same => congrArg (fun row => row.stamp.revision) same
  properties := supersedes.properties

/-- In whatever order buildsets are added, requests are collapsed, claimed and completed: a request that has been
collapsed has another one of its builder that has not been, which is of the same buildset, or newer and compatible. -/
theorem collapsed_has_survivor (foreignKeys : Bool) (events : List (Event ν π)) (process : π) (brid : Nat)
    (collapsed : .collapsed process brid ∈ seen World.step (.start foreignKeys) events) :
    let reached := (final World.step (.start foreignKeys : World ν π) events).tables
    ∃ row ∈ reached.buildrequests, row.id = brid ∧ ∃ keeper ∈ reached.buildrequests,
      keeper.builderid = row.builderid ∧
      (∀ other, .collapsed other keeper.id ∉ seen World.step (.start foreignKeys) events) ∧
      (keeper.buildsetid = row.buildsetid ∨
        row.id < keeper.id ∧ Compatible reached keeper.buildsetid row.buildsetid) := by
  intro reached
  obtain ⟨sound, justified⟩ := World.run_justified foreignKeys events
  let lost (row : BuildRequestRow) : Prop :=
    ∃ other, .collapsed other row.id ∈ seen World.step (.start foreignKeys : World ν π) events
  have climbs : ∀ row ∈ reached.buildrequests, lost row →
      ∃ keeper ∈ reached.buildrequests, StandsFor reached row keeper ∧ row.id < keeper.id := by
    rintro row member ⟨other, gone⟩
    obtain ⟨row', there, same, keeper, kept, newer, stands⟩ := justified other row.id gone
    obtain rfl := sound.tables.requests.eq_of_key there member same
    exact ⟨keeper, kept, stands, newer⟩
  obtain ⟨row, member, rfl, -⟩ := justified process brid collapsed
  have gone : lost row := ⟨process, collapsed⟩
  obtain ⟨keeper, kept, ⟨builder, stands⟩, newer, here⟩ :=
    exists_survivor BuildRequestRow.id (StandsFor reached) StandsFor.trans climbs member gone
  refine ⟨row, member, rfl, keeper, kept, builder, fun other gone => here ⟨other, gone⟩, ?_⟩
  exact stands.imp id fun supersedes => ⟨newer, compatible_of_supersedes supersedes⟩

/-- Two buildsets of one source stamp for one builder. The second one's request collapses the first one's. -/
def laterRequest : List (Event Unit Unit) :=
  [.addSourcestamp ⟨1, ⟨"", "", "", none, none, none⟩⟩, .addBuilder 7, .addBuildset () ⟨1, [1], [], [7], [1], 0⟩,
    .fail (), .addBuildset () ⟨2, [1], [], [7], [2], 0⟩] ++ List.replicate 11 (.proceed () 1 true 1 0)

theorem laterRequest_has_survivor :
    .collapsed () 1 ∈ seen World.step (.start true) laterRequest ∧
      ∃ keeper ∈ (final World.step (.start true) laterRequest).tables.buildrequests,
        ∀ other, .collapsed other keeper.id ∉ seen World.step (.start true) laterRequest := by
  have collapsed : .collapsed () 1 ∈ seen World.step (.start true) laterRequest := by decide +kernel
  obtain ⟨_, -, -, keeper, kept, -, alive, -⟩ := collapsed_has_survivor true laterRequest () 1 collapsed
  exact ⟨collapsed, keeper, kept, alive⟩

end Umbilical.Requests.Collapsing
