import Umbilical.Requests.Claiming

set_option autoImplicit false

/-!
# Buildsets in the database

A buildset comes with its source stamps and its requests in one transaction and
is completed in another one. Its requests are read through a join with its
source stamps.
-/

namespace Umbilical.Requests

open Keyed Interleaving

variable {ν : Type}

/-- What `addBuildset` inserts: `bsid` and `brids` are the keys that the database hands out. -/
structure NewBuildset (ν : Type) where
  bsid : Nat
  sourcestamps : List Nat
  properties : List (String × ν × String)
  builderids : List Nat
  brids : List Nat
  submittedAt : Int

def NewBuildset.request (new : NewBuildset ν) (builderid brid : Nat) : BuildRequestRow where
  id := brid
  buildsetid := new.bsid
  builderid := builderid
  submittedAt := new.submittedAt
  complete := some 0
  results := some (-1)
  completeAt := none

def NewBuildset.requests (new : NewBuildset ν) : List BuildRequestRow :=
  (new.builderids.zip new.brids).map fun (builderid, brid) => new.request builderid brid

def Tables.empty (ν : Type) (foreignKeys : Bool) : Tables ν where
  buildrequests := []
  buildrequestClaims := []
  buildsets := []
  buildsetSourcestamps := []
  sourcestamps := []
  changes := []
  buildsetProperties := []
  builders := []
  foreignKeys := foreignKeys

namespace Tables

variable (tables : Tables ν)

/-- Keys are new and grow within the transaction, and the callers have the other ids from their tables. -/
def Admits (new : NewBuildset ν) : Prop :=
  tables.buildset new.bsid = none ∧ (∀ brid ∈ new.brids, tables.request brid = none) ∧
    new.brids.Pairwise (· < ·) ∧ new.brids.length = new.builderids.length ∧
    (∀ builderid ∈ new.builderids, builderid ∈ tables.builders) ∧
    ∀ ssid ∈ new.sourcestamps, ∃ row ∈ tables.sourcestamps, row.id = ssid

instance (new : NewBuildset ν) : Decidable (tables.Admits new) := by
  unfold Admits
  infer_instance

/-- Without source stamps the insert into `buildset_sourcestamps` has no parameters: one row of defaults, which has
no `buildsetid` and is refused. -/
def addBuildset (new : NewBuildset ν) : Except DbError (Tables ν) :=
  if new.sourcestamps = [] then .error .integrityError
  else .ok { tables with
    buildsets := tables.buildsets ++ [⟨new.bsid, 0, some (-1), none⟩]
    buildsetSourcestamps := tables.buildsetSourcestamps ++ new.sourcestamps.map fun ssid => (new.bsid, ssid)
    buildrequests := tables.buildrequests ++ new.requests
    buildsetProperties := tables.buildsetProperties ++
      new.properties.map fun (name, value, source) => ⟨new.bsid, name, value, source⟩ }

def addSourcestamp (row : SourceStampRow) : Tables ν := { tables with sourcestamps := tables.sourcestamps ++ [row] }

def addChange (ssid : Nat) : Tables ν := { tables with changes := tables.changes ++ [ssid] }

def addBuilder (builderid : Nat) : Tables ν := { tables with builders := tables.builders ++ [builderid] }

/-- One row for each source stamp of a request's buildset. -/
def joined (row : BuildRequestRow) : List BuildRequestRow :=
  let stamps := tables.buildsetSourcestamps.filter fun pair => pair.1 = row.buildsetid
  stamps.flatMap fun pair => (tables.sourcestamps.filter fun stamp => stamp.id = pair.2).map fun _ => row

def hasComplete (row : BuildRequestRow) : Option Bool → Bool
  | none => true
  | some true => row.complete.any (· ≠ 0)
  | some false => row.complete = some 0

/-- `getBuildRequests(bsid=bsid, complete=complete)`. A request comes once, however many source stamps there are. -/
def getBuildRequests (bsid : Nat) (complete : Option Bool) : List BuildRequestRow :=
  let rows := tables.buildrequests.filter fun row =>
    row.buildsetid = bsid ∧ row.builderid ∈ tables.builders ∧ hasComplete row complete
  (rows.flatMap tables.joined).eraseDups

def getBuildRequest (brid : Nat) : Option BuildRequestRow :=
  (tables.request brid).filter fun row => row.builderid ∈ tables.builders

def completed (row : BuildsetRow) (results : Option Int) (completeAt : Int) : BuildsetRow :=
  { row with complete := 1, results := results, completeAt := some completeAt }

/-- `completeBuildset`: the update is committed, then its row count is looked at. -/
def completeBuildset (bsid : Nat) (results : Option Int) (completeAt : Int) : Tables ν × Option DbError :=
  let matching (row : BuildsetRow) : Bool := row.id = bsid ∧ row.complete ≠ 1
  ({ tables with buildsets := tables.buildsets.map fun row =>
      if matching row then completed row results completeAt else row },
    if tables.buildsets.countP matching ≠ 1 then some .alreadyCompleteError else none)

/-- The results of the requests of a buildset. -/
def requestResults (bsid : Nat) : List (Option Int) :=
  (tables.buildrequests.filter fun row => row.buildsetid = bsid).map BuildRequestRow.results

def AllComplete (bsid : Nat) : Prop :=
  ∀ row ∈ tables.buildrequests, row.buildsetid = bsid → row.complete = some 1

/-- All requests of a buildset are complete, and `results` is the worst of them. -/
structure Finished (bsid : Nat) (results : Option Int) : Prop where
  complete : tables.AllComplete bsid
  worst : ∃ result, results = some result ∧ Worst (some SUCCESS :: tables.requestResults bsid) result

/-- What holds of the tables at any time. -/
structure Sound (tables : Tables ν) : Prop extends tables.Keyed where
  keys : Distinct BuildsetRow.id tables.buildsets
  flags : ∀ row ∈ tables.buildrequests, row.complete = some 0 ∨ row.complete = some 1
  builder : ∀ row ∈ tables.buildrequests, row.builderid ∈ tables.builders
  buildset : ∀ row ∈ tables.buildrequests, ∃ buildset ∈ tables.buildsets, buildset.id = row.buildsetid
  stamped : ∀ row ∈ tables.buildsets, ∃ pair ∈ tables.buildsetSourcestamps, pair.1 = row.id ∧
    ∃ stamp ∈ tables.sourcestamps, stamp.id = pair.2
  finished : ∀ row ∈ tables.buildsets, row.complete = 0 ∨ row.complete = 1 ∧ tables.Finished row.id row.results

/-- How the tables change over time: buildsets keep their requests, and what is complete stays as it is. -/
structure Grows (before after : Tables ν) : Prop where
  old : ∀ row ∈ after.buildrequests, (∃ buildset ∈ before.buildsets, buildset.id = row.buildsetid) →
    ∃ earlier ∈ before.buildrequests, earlier.buildsetid = row.buildsetid ∧ (earlier.complete = some 1 → row = earlier)
  kept : ∀ row ∈ before.buildrequests, row.complete = some 1 → row ∈ after.buildrequests
  buildsets : ∀ row ∈ before.buildsets, ∃ later ∈ after.buildsets, later.id = row.id ∧ (row.complete = 1 → later = row)

theorem empty_sound (foreignKeys : Bool) : (empty ν foreignKeys).Sound where
  requests := List.nodup_nil
  claims := List.nodup_nil
  keys := List.nodup_nil
  flags := nofun
  builder := nofun
  buildset := nofun
  stamped := nofun
  finished := nofun

variable {tables before after : Tables ν}

theorem Sound.mem_getBuildRequests (sound : tables.Sound) {bsid : Nat} {complete : Option Bool} {row : BuildRequestRow} :
    row ∈ tables.getBuildRequests bsid complete ↔
      row ∈ tables.buildrequests ∧ row.buildsetid = bsid ∧ hasComplete row complete := by
  have joins : ∀ row ∈ tables.buildrequests, ∀ other, other ∈ tables.joined row ↔ other = row := by
    intro row member other
    obtain ⟨buildset, among, same⟩ := sound.buildset row member
    obtain ⟨pair, paired, first, stamp, stamped, second⟩ := sound.stamped buildset among
    simp only [joined, List.mem_flatMap, List.mem_map, List.mem_filter, decide_eq_true_eq]
    constructor
    · rintro ⟨-, -, -, -, rfl⟩
      rfl
    · rintro rfl
      exact ⟨pair, ⟨paired, first.trans same⟩, stamp, ⟨stamped, second⟩, rfl⟩
  simp only [getBuildRequests, List.mem_eraseDups, List.mem_flatMap, List.mem_filter, decide_eq_true_eq]
  constructor
  · rintro ⟨found, ⟨member, within, -, matching⟩, among⟩
    obtain rfl := (joins found member row).mp among
    exact ⟨member, within, matching⟩
  · rintro ⟨member, within, matching⟩
    exact ⟨row, ⟨member, within, sound.builder row member, matching⟩, (joins row member row).mpr rfl⟩

section Growth

variable {bsid : Nat} {results : Option Int}

theorem Grows.refl (tables : Tables ν) : Grows tables tables where
  old row member _ := ⟨row, member, rfl, fun _ => rfl⟩
  kept _ member _ := member
  buildsets row member := ⟨row, member, rfl, fun _ => rfl⟩

variable (grows : Grows before after) (known : ∃ buildset ∈ before.buildsets, buildset.id = bsid)
include grows known

theorem Grows.exists_buildset : ∃ buildset ∈ after.buildsets, buildset.id = bsid := by
  obtain ⟨row, member, rfl⟩ := known
  obtain ⟨later, there, same, -⟩ := grows.buildsets row member
  exact ⟨later, there, same⟩

theorem Grows.allComplete (complete : before.AllComplete bsid) : after.AllComplete bsid := by
  intro row member within
  obtain ⟨earlier, there, same, stays⟩ := grows.old row member (within ▸ known)
  have done := complete earlier there (same.trans within)
  exact stays done ▸ done

theorem Grows.mem_requestResults (complete : before.AllComplete bsid) (result : Option Int) :
    result ∈ after.requestResults bsid ↔ result ∈ before.requestResults bsid := by
  simp only [requestResults, List.mem_map, List.mem_filter, decide_eq_true_eq]
  constructor
  · rintro ⟨row, ⟨member, within⟩, rfl⟩
    obtain ⟨earlier, there, same, stays⟩ := grows.old row member (within ▸ known)
    have unchanged := stays (complete earlier there (same.trans within))
    exact ⟨earlier, ⟨there, same.trans within⟩, by rw [unchanged]⟩
  · rintro ⟨row, ⟨member, within⟩, rfl⟩
    exact ⟨row, ⟨grows.kept row member (complete row member within), within⟩, rfl⟩

theorem Grows.finished (finished : before.Finished bsid results) : after.Finished bsid results where
  complete := grows.allComplete known finished.complete
  worst := by
    obtain ⟨result, same, worst⟩ := finished.worst
    have among : ∀ other, some other ∈ some SUCCESS :: after.requestResults bsid ↔
        some other ∈ some SUCCESS :: before.requestResults bsid := by
      intro other
      simp only [List.mem_cons, grows.mem_requestResults known finished.complete]
    refine ⟨result, same, worst.known, (among result).mpr worst.member, fun other member => ?_⟩
    exact worst.least other ((among other).mp member)

end Growth

theorem Grows.of_same (requests : after.buildrequests = before.buildrequests)
    (buildsets : after.buildsets = before.buildsets) : Grows before after where
  old row member _ := ⟨row, requests ▸ member, rfl, fun _ => rfl⟩
  kept _ member _ := requests ▸ member
  buildsets row member := ⟨row, buildsets ▸ member, rfl, fun _ => rfl⟩

theorem Effect.grows {masterid : Nat} {operation : Operation} (keyed : before.Keyed)
    (effect : Effect masterid before after operation) : Grows before after := by
  cases operation with
  | claimBuildRequests brids claimedAt =>
    obtain ⟨-, rfl⟩ := effect
    exact .of_same rfl rfl
  | unclaimBuildRequests brids =>
    cases effect
    exact .of_same rfl rfl
  | completeBuildRequests brids results completeAt =>
    obtain ⟨all, rfl⟩ := effect
    -- a complete request is none of those that the call has found incomplete
    have outside : ∀ row ∈ before.buildrequests, row.complete = some 1 → row.id ∉ brids := by
      intro row member complete inside
      obtain ⟨other, among, same, incomplete⟩ := all row.id inside
      rw [keyed.requests.eq_of_key among member same] at incomplete
      simp [BuildRequestRow.incomplete, complete] at incomplete
    refine ⟨fun row member _ => ?_, fun row member complete => ?_, fun row member => ⟨row, member, rfl, fun _ => rfl⟩⟩
    · obtain ⟨earlier, there, rfl⟩ := List.mem_map.mp member
      refine ⟨earlier, there, ?_, fun complete => if_neg (outside earlier there complete)⟩
      split_ifs <;> rfl
    · exact List.mem_map.mpr ⟨row, member, if_neg (outside row member complete)⟩

theorem Sound.finished_later (sound : before.Sound) (grows : Grows before after) :
    ∀ row ∈ before.buildsets, row.complete = 0 ∨ row.complete = 1 ∧ after.Finished row.id row.results := by
  intro row member
  rcases sound.finished row member with running | ⟨complete, finished⟩
  · exact .inl running
  · exact .inr ⟨complete, grows.finished ⟨row, member, rfl⟩ finished⟩

theorem Sound.effect {masterid : Nat} {operation : Operation} (sound : before.Sound)
    (effect : Effect masterid before after operation) : after.Sound := by
  have grows := effect.grows sound.toKeyed
  have keyed := effect.keyed sound.toKeyed
  have finished := sound.finished_later grows
  cases operation with
  | claimBuildRequests brids claimedAt =>
    obtain ⟨-, rfl⟩ := effect
    exact ⟨keyed, sound.keys, sound.flags, sound.builder, sound.buildset, sound.stamped, finished⟩
  | unclaimBuildRequests brids =>
    cases effect
    exact ⟨keyed, sound.keys, sound.flags, sound.builder, sound.buildset, sound.stamped, finished⟩
  | completeBuildRequests brids results completeAt =>
    obtain ⟨-, rfl⟩ := effect
    have earlier : ∀ row ∈ (before.completing brids results completeAt).buildrequests,
        ∃ old ∈ before.buildrequests, row.buildsetid = old.buildsetid ∧ row.builderid = old.builderid ∧
          (row.complete = old.complete ∨ row.complete = some 1) := by
      intro row member
      obtain ⟨old, there, rfl⟩ := List.mem_map.mp member
      refine ⟨old, there, ?_⟩
      split_ifs
      · exact ⟨rfl, rfl, .inr rfl⟩
      · exact ⟨rfl, rfl, .inl rfl⟩
    refine ⟨keyed, sound.keys, fun row member => ?_, fun row member => ?_, fun row member => ?_, sound.stamped, finished⟩
    · obtain ⟨old, there, -, -, same | done⟩ := earlier row member
      · exact same ▸ sound.flags old there
      · exact .inr done
    · obtain ⟨old, there, -, same, -⟩ := earlier row member
      exact same ▸ sound.builder old there
    · obtain ⟨old, there, same, -, -⟩ := earlier row member
      exact same ▸ sound.buildset old there

theorem Sound.addSourcestamp (sound : before.Sound) (row : SourceStampRow) : (before.addSourcestamp row).Sound where
  toKeyed := ⟨sound.requests, sound.claims⟩
  keys := sound.keys
  flags := sound.flags
  builder := sound.builder
  buildset := sound.buildset
  stamped buildset member := by
    obtain ⟨pair, there, first, stamp, stamped, second⟩ := sound.stamped buildset member
    exact ⟨pair, there, first, stamp, List.mem_append_left _ stamped, second⟩
  finished := sound.finished_later (.of_same rfl rfl)

theorem Sound.addChange (sound : before.Sound) (ssid : Nat) : (before.addChange ssid).Sound where
  toKeyed := ⟨sound.requests, sound.claims⟩
  keys := sound.keys
  flags := sound.flags
  builder := sound.builder
  buildset := sound.buildset
  stamped := sound.stamped
  finished := sound.finished_later (.of_same rfl rfl)

theorem Sound.addBuilder (sound : before.Sound) (builderid : Nat) : (before.addBuilder builderid).Sound where
  toKeyed := ⟨sound.requests, sound.claims⟩
  keys := sound.keys
  flags := sound.flags
  builder row member := List.mem_append_left _ (sound.builder row member)
  buildset := sound.buildset
  stamped := sound.stamped
  finished := sound.finished_later (.of_same rfl rfl)

variable {new : NewBuildset ν}

theorem mem_requests {row : BuildRequestRow} (member : row ∈ new.requests) :
    ∃ builderid ∈ new.builderids, ∃ brid ∈ new.brids, row = new.request builderid brid := by
  obtain ⟨⟨builderid, brid⟩, paired, rfl⟩ := List.mem_map.mp member
  obtain ⟨first, second⟩ := List.of_mem_zip paired
  exact ⟨builderid, first, brid, second, rfl⟩

theorem map_id_requests (lengths : new.brids.length = new.builderids.length) :
    new.requests.map BuildRequestRow.id = new.brids := by
  rw [NewBuildset.requests, List.map_map]
  exact List.map_snd_zip (Nat.le_of_eq lengths)

theorem addBuildset_eq_ok (added : before.addBuildset new = .ok after) : new.sourcestamps ≠ [] ∧
    after = { before with
      buildsets := before.buildsets ++ [⟨new.bsid, 0, some (-1), none⟩]
      buildsetSourcestamps := before.buildsetSourcestamps ++ new.sourcestamps.map fun ssid => (new.bsid, ssid)
      buildrequests := before.buildrequests ++ new.requests
      buildsetProperties := before.buildsetProperties ++
        new.properties.map fun (name, value, source) => ⟨new.bsid, name, value, source⟩ } := by
  unfold addBuildset at added
  split_ifs at added with none
  exact ⟨none, (Except.ok.inj added).symm⟩

theorem Grows.addBuildset (admits : before.Admits new) (added : before.addBuildset new = .ok after) :
    Grows before after := by
  obtain ⟨-, rfl⟩ := addBuildset_eq_ok added
  refine ⟨fun row member known => ?_, fun row member _ => List.mem_append_left _ member,
    fun row member => ⟨row, List.mem_append_left _ member, rfl, fun _ => rfl⟩⟩
  rcases List.mem_append.mp member with old | fresh
  · exact ⟨row, old, rfl, fun _ => rfl⟩
  · -- the new requests are those of a buildset that was not there
    obtain ⟨builderid, -, brid, -, rfl⟩ := mem_requests fresh
    obtain ⟨buildset, there, same⟩ := known
    exact absurd same (lookup_eq_none.mp admits.1 buildset there)

theorem Sound.addBuildset (sound : before.Sound) (admits : before.Admits new)
    (added : before.addBuildset new = .ok after) : after.Sound := by
  have grows := Grows.addBuildset admits added
  have finished := sound.finished_later grows
  obtain ⟨stamps, rfl⟩ := addBuildset_eq_ok added
  obtain ⟨freshSet, freshRequests, growing, lengths, builders, stamped⟩ := admits
  have distinct : Distinct BuildRequestRow.id (before.buildrequests ++ new.requests) := by
    rw [Distinct, List.map_append, map_id_requests lengths]
    refine List.nodup_append.mpr ⟨sound.requests, growing.imp (fun less => Nat.ne_of_lt less), ?_⟩
    rintro _ old brid there rfl
    obtain ⟨row, member, same⟩ := List.mem_map.mp old
    exact lookup_eq_none.mp (freshRequests _ there) row member same
  refine ⟨⟨distinct, sound.claims⟩, distinct_append.mpr ⟨sound.keys, freshSet⟩, ?_, ?_, ?_, ?_, ?_⟩
  · intro row member
    rcases List.mem_append.mp member with old | fresh
    · exact sound.flags row old
    · obtain ⟨builderid, -, brid, -, rfl⟩ := mem_requests fresh
      exact .inl rfl
  · intro row member
    rcases List.mem_append.mp member with old | fresh
    · exact sound.builder row old
    · obtain ⟨builderid, there, brid, -, rfl⟩ := mem_requests fresh
      exact builders builderid there
  · intro row member
    rcases List.mem_append.mp member with old | fresh
    · obtain ⟨buildset, there, same⟩ := sound.buildset row old
      exact ⟨buildset, List.mem_append_left _ there, same⟩
    · obtain ⟨builderid, -, brid, -, rfl⟩ := mem_requests fresh
      exact ⟨_, List.mem_append_right _ (List.mem_singleton_self _), rfl⟩
  · intro row member
    rcases List.mem_append.mp member with old | fresh
    · obtain ⟨pair, there, first, rest⟩ := sound.stamped row old
      exact ⟨pair, List.mem_append_left _ there, first, rest⟩
    · obtain rfl := List.mem_singleton.mp fresh
      obtain ⟨ssid, there⟩ := List.exists_mem_of_ne_nil _ stamps
      refine ⟨(new.bsid, ssid), List.mem_append_right _ (List.mem_map_of_mem there), rfl, ?_⟩
      exact stamped ssid there
  · intro row member
    rcases List.mem_append.mp member with old | fresh
    · exact finished row old
    · obtain rfl := List.mem_singleton.mp fresh
      exact .inl rfl

variable {bsid : Nat} {results : Option Int} {completeAt : Int}

theorem Grows.completeBuildset : Grows before (before.completeBuildset bsid results completeAt).1 := by
  refine ⟨fun row member _ => ⟨row, member, rfl, fun _ => rfl⟩, fun _ member _ => member, fun row member => ?_⟩
  refine ⟨_, List.mem_map_of_mem member, ?_, fun complete => if_neg (by simp [complete])⟩
  split_ifs <;> rfl

theorem Sound.completeBuildset (sound : before.Sound) (worst : before.Finished bsid results) (completeAt : Int) :
    (before.completeBuildset bsid results completeAt).1.Sound := by
  have same : ∀ row ∈ (before.completeBuildset bsid results completeAt).1.buildsets, ∃ old ∈ before.buildsets,
      row.id = old.id ∧ (row = old ∨ old.id = bsid ∧ row = completed old results completeAt) := by
    intro row member
    obtain ⟨old, there, rfl⟩ := List.mem_map.mp member
    refine ⟨old, there, ?_⟩
    split_ifs with matching
    · exact ⟨rfl, .inr ⟨(of_decide_eq_true matching).1, rfl⟩⟩
    · exact ⟨rfl, .inl rfl⟩
  refine ⟨⟨sound.requests, sound.claims⟩, ?_, sound.flags, sound.builder, ?_, ?_, ?_⟩
  · refine (distinct_map BuildsetRow.id _ Function.injective_id fun row => ?_).mpr sound.keys
    split_ifs <;> rfl
  · intro row member
    exact Grows.completeBuildset.exists_buildset (sound.buildset row member)
  · intro row member
    obtain ⟨old, there, identical, -⟩ := same row member
    exact identical ▸ sound.stamped old there
  · intro row member
    obtain ⟨old, there, -, rfl | ⟨rfl, rfl⟩⟩ := same row member
    · exact sound.finished_later Grows.completeBuildset row there
    · exact .inr ⟨rfl, Grows.completeBuildset.finished ⟨old, there, rfl⟩ worst⟩

/-- `completeBuildset` succeeds where it finds the buildset incomplete, and changes nothing otherwise. -/
theorem Sound.completeBuildset_spec (sound : before.Sound) {row : BuildsetRow} (there : row ∈ before.buildsets)
    (results : Option Int) (completeAt : Int) :
    (row.complete = 1 → before.completeBuildset row.id results completeAt = (before, some .alreadyCompleteError)) ∧
      (row.complete ≠ 1 → (before.completeBuildset row.id results completeAt).2 = none) ∧
      (row.complete ≠ 1 → ∃ later ∈ (before.completeBuildset row.id results completeAt).1.buildsets,
        later.id = row.id ∧ later.complete = 1 ∧ later.results = results) := by
  have only : ∀ other ∈ before.buildsets, other.id = row.id → other = row :=
    fun other among same => sound.keys.eq_of_key among there same
  refine ⟨fun complete => ?_, fun running => ?_, fun running => ?_⟩
  · have none : ∀ other ∈ before.buildsets, ¬ (other.id = row.id ∧ other.complete ≠ 1) := by
      rintro other among ⟨same, running⟩
      exact running (only other among same ▸ complete)
    have unchanged : before.buildsets.map (fun other => if decide (other.id = row.id ∧ other.complete ≠ 1) = true then
        completed other results completeAt else other) = before.buildsets := by
      conv_rhs => rw [← List.map_id before.buildsets]
      refine List.map_congr_left fun other among => if_neg ?_
      simpa using none other among
    have counted : before.buildsets.countP (fun other => decide (other.id = row.id ∧ other.complete ≠ 1)) = 0 :=
      List.countP_eq_zero.mpr fun other among => by simpa using none other among
    simp only [Tables.completeBuildset, unchanged, counted]
    rfl
  · have counted : before.buildsets.countP (fun other => decide (other.id = row.id ∧ other.complete ≠ 1)) = 1 :=
      countP_eq_one sound.keys there (by simp [running]) fun other holds => (of_decide_eq_true holds).1
    simp only [Tables.completeBuildset, counted]
    rfl
  · refine ⟨completed row results completeAt, ?_, rfl, rfl, rfl⟩
    exact List.mem_map.mpr ⟨row, there, if_pos (by simp [running])⟩

end Tables

end Umbilical.Requests
