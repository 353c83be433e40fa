import Umbilical.Shared.Interleaving
import Umbilical.Requests.Tables

set_option autoImplicit false

/-!
# Masters that share the build requests

Any number of masters claim, unclaim and complete build requests in one database,
through the data API or on the database component itself.
-/

namespace Umbilical.Requests

open Keyed Interleaving

inductive Operation where
  | claimBuildRequests (brids : List Nat) (claimedAt : Int)
  | unclaimBuildRequests (brids : List Nat)
  | completeBuildRequests (brids : List Nat) (results completeAt : Int)
  deriving DecidableEq

def Operation.brids : Operation → List Nat
  | .claimBuildRequests brids _ => brids
  | .unclaimBuildRequests brids => brids
  | .completeBuildRequests brids _ _ => brids

/-- A call by a master, as an update method of the data API or on the database component. -/
structure Call where
  masterid : Nat
  updateMethod : Bool
  operation : Operation
  deriving DecidableEq

variable {ν : Type}

/-- What a transaction that raised leaves behind. -/
def rolledBack (tables : Tables ν) (result : Except DbError (Tables ν)) : Tables ν :=
  match result with
  | .ok after => after
  | .error _ => tables

def raised {α : Type} : Except DbError α → Option DbError
  | .ok _ => none
  | .error error => some error

namespace Tables

variable (tables : Tables ν)

/-- A call on the database component, with the exception that it raises. -/
def execute (masterid : Nat) : Operation → Tables ν × Option DbError
  | .claimBuildRequests brids claimedAt =>
      let result := tables.claimBuildRequests masterid brids claimedAt
      (rolledBack tables result, raised result)
  | .unclaimBuildRequests brids => (tables.unclaimBuildRequests masterid brids, none)
  | .completeBuildRequests brids results completeAt =>
      let result := tables.completeBuildRequests brids results completeAt
      (rolledBack tables result, raised result)

/-- An update method of the data API: nothing to do for no requests, and `False` where they are claimed or
complete already. -/
def update (masterid : Nat) (operation : Operation) : Tables ν × Except DbError Bool :=
  match operation with
  | .completeBuildRequests _ results _ =>
      if results = RETRY then (tables, .error .assertionError)
      else if operation.brids = [] then (tables, .ok true)
      else match tables.execute masterid operation with
        | (after, none) => (after, .ok true)
        | (after, some .notClaimedError) => (after, .ok false)
        | (after, some error) => (after, .error error)
  | _ =>
      if operation.brids = [] then (tables, .ok true)
      else match tables.execute masterid operation with
        | (after, none) => (after, .ok true)
        | (after, some .alreadyClaimedError) => (after, .ok false)
        | (after, some error) => (after, .error error)

def call (call : Call) : Tables ν × List (Call × Except DbError Bool) :=
  if call.updateMethod then
    let answer := tables.update call.masterid call.operation
    (answer.1, [(call, answer.2)])
  else
    match tables.execute call.masterid call.operation with
    | (after, none) => (after, [(call, .ok true)])
    | (after, some error) => (after, [(call, .error error)])

/-- What a call of a master may do. -/
def Effect (masterid : Nat) (before after : Tables ν) : Operation → Prop
  | .claimBuildRequests brids claimedAt => Distinct ClaimRow.brid after.buildrequestClaims ∧
      after = { before with
        buildrequestClaims := before.buildrequestClaims ++ brids.map fun brid => ⟨brid, masterid, claimedAt⟩ }
  | .unclaimBuildRequests brids => after = before.deleteClaims masterid brids
  | .completeBuildRequests brids results completeAt =>
      (∀ brid ∈ brids, ∃ row ∈ before.buildrequests, row.id = brid ∧ row.incomplete) ∧
        after = before.completing brids results completeAt

variable {tables : Tables ν}

theorem execute_effect (keyed : tables.Keyed) (masterid : Nat) (operation : Operation) :
    (tables.execute masterid operation).1 = tables ∨
      Effect masterid tables (tables.execute masterid operation).1 operation := by
  cases operation with
  | claimBuildRequests brids claimedAt =>
    simp only [execute]
    cases result : tables.claimBuildRequests masterid brids claimedAt with
    | ok after => exact .inr (claimBuildRequests_eq_ok keyed.claims result)
    | error error => exact .inl rfl
  | unclaimBuildRequests brids => exact .inr (unclaimBuildRequests_eq masterid brids)
  | completeBuildRequests brids results completeAt =>
    simp only [execute]
    cases result : tables.completeBuildRequests brids results completeAt with
    | ok after => exact .inr (completeBuildRequests_eq_ok keyed.requests result)
    | error error => exact .inl rfl

/-- An update method does what the database component does, or nothing. -/
theorem update_execute (tables : Tables ν) (masterid : Nat) (operation : Operation) :
    (tables.update masterid operation).1 = tables ∨
      (tables.update masterid operation).1 = (tables.execute masterid operation).1 := by
  unfold update
  cases operation
  all_goals
    dsimp only
    split_ifs
  any_goals exact .inl rfl
  all_goals
    apply Or.inr
    split <;> next executed => rw [executed]

theorem call_effect (keyed : tables.Keyed) (call : Call) :
    (tables.call call).1 = tables ∨ Effect call.masterid tables (tables.call call).1 call.operation := by
  have executed := execute_effect keyed call.masterid call.operation
  unfold Tables.call
  split_ifs
  · rcases update_execute tables call.masterid call.operation with unchanged | same
    · exact .inl unchanged
    · simpa only [same] using executed
  · split <;> next result => simpa only [result] using executed

variable {after : Tables ν} {masterid : Nat} {operation : Operation}

theorem Effect.keyed (keyed : tables.Keyed) (effect : Effect masterid tables after operation) : after.Keyed := by
  cases operation with
  | claimBuildRequests brids claimedAt =>
    obtain ⟨distinct, rfl⟩ := effect
    exact ⟨keyed.requests, distinct⟩
  | unclaimBuildRequests brids =>
    cases effect
    exact ⟨keyed.requests, List.Nodup.sublist (List.Sublist.map _ List.filter_sublist) keyed.claims⟩
  | completeBuildRequests brids results completeAt =>
    obtain ⟨-, rfl⟩ := effect
    exact ⟨completing_distinct keyed.requests, keyed.claims⟩

theorem call_keyed (keyed : tables.Keyed) (call : Call) : (tables.call call).1.Keyed := by
  rcases call_effect keyed call with unchanged | effect
  · rwa [unchanged]
  · exact effect.keyed keyed

theorem request_completing {brids : List Nat} {results completeAt : Int} (brid : Nat) :
    (tables.completing brids results completeAt).request brid =
      (tables.request brid).map fun row => if row.id ∈ brids then row.completed results completeAt else row := by
  apply lookup_map BuildRequestRow.id _ Function.injective_id
  intro row
  split_ifs <;> rfl

/-- A request that is complete is not touched any more. -/
theorem Effect.complete_stays (keyed : tables.Keyed) (effect : Effect masterid tables after operation) {brid : Nat}
    {row : BuildRequestRow} (there : tables.request brid = some row) (complete : row.complete = some 1) :
    after.request brid = some row := by
  cases operation with
  | claimBuildRequests brids claimedAt =>
    obtain ⟨-, rfl⟩ := effect
    exact there
  | unclaimBuildRequests brids =>
    cases effect
    exact there
  | completeBuildRequests brids results completeAt =>
    obtain ⟨all, rfl⟩ := effect
    have outside : brid ∉ brids := by
      intro inside
      obtain ⟨other, among, same, incomplete⟩ := all brid inside
      rw [request, (keyed.requests.lookup_iff).mpr ⟨among, same⟩] at there
      cases there
      simp [BuildRequestRow.incomplete, complete] at incomplete
    have same := (mem_of_lookup there).2
    simp [request_completing, there, same, outside]

theorem call_complete_stays (keyed : tables.Keyed) (call : Call) {brid : Nat} {row : BuildRequestRow}
    (there : tables.request brid = some row) (complete : row.complete = some 1) :
    (tables.call call).1.request brid = some row := by
  rcases call_effect keyed call with unchanged | effect
  · rwa [unchanged]
  · exact effect.complete_stays keyed there complete

theorem run_keyed (keyed : tables.Keyed) (calls : List Call) : (final Tables.call tables calls).Keyed := by
  have preserved : ∀ (tables : Tables ν) (call : Call), tables.Keyed → (tables.call call).1.Keyed :=
    fun _ call keyed => call_keyed keyed call
  exact final_of_step preserved keyed calls

theorem run_complete_stays (keyed : tables.Keyed) (calls : List Call) {brid : Nat} {row : BuildRequestRow}
    (there : tables.request brid = some row) (complete : row.complete = some 1) :
    (final Tables.call tables calls).request brid = some row := by
  let invariant (tables : Tables ν) := tables.Keyed ∧ tables.request brid = some row
  have preserved : ∀ tables call, invariant tables → invariant (tables.call call).1 :=
    fun _ call kept => ⟨call_keyed kept.1 call, call_complete_stays kept.1 call kept.2 complete⟩
  have initially : invariant tables := ⟨keyed, there⟩
  exact (final_of_step preserved initially calls).2

theorem claims_at_most_one (keyed : tables.Keyed) (brid : Nat) :
    tables.buildrequestClaims.countP (fun row => row.brid = brid) ≤ 1 := by
  have counted : tables.buildrequestClaims.countP (fun row => row.brid = brid) =
      (tables.buildrequestClaims.map ClaimRow.brid).count brid := by
    rw [List.count, List.countP_map]
    rfl
  rw [counted]
  exact List.nodup_iff_count_le_one.mp keyed.claims brid

/-- What a claim, an unclaim and a completion by a master leave of the rows. -/
def Whole (masterid : Nat) (before after : Tables ν) : Operation → Prop
  | .claimBuildRequests brids claimedAt => after.buildrequestClaims = before.buildrequestClaims ∨
      after.buildrequestClaims = before.buildrequestClaims ++ brids.map fun brid => ⟨brid, masterid, claimedAt⟩
  | .unclaimBuildRequests _ => ∀ row ∈ before.buildrequestClaims, row.masterid ≠ masterid →
      row ∈ after.buildrequestClaims
  | .completeBuildRequests brids results completeAt => after.buildrequests = before.buildrequests ∨
      ∀ brid ∈ brids, ∃ row, before.request brid = some row ∧ row.incomplete ∧
        after.request brid = some (row.completed results completeAt)

theorem call_whole (keyed : tables.Keyed) (call : Call) :
    Whole call.masterid tables (tables.call call).1 call.operation := by
  have effect := call_effect keyed call
  generalize (tables.call call).1 = after at effect ⊢
  cases operation : call.operation with
  | claimBuildRequests brids claimedAt =>
    rcases operation ▸ effect with unchanged | ⟨-, rfl⟩
    · exact .inl (congrArg buildrequestClaims unchanged)
    · exact .inr rfl
  | unclaimBuildRequests brids =>
    intro row member other
    rcases operation ▸ effect with unchanged | rfl
    · exact unchanged ▸ member
    · exact List.mem_filter.mpr ⟨member, by simp [other]⟩
  | completeBuildRequests brids results completeAt =>
    rcases operation ▸ effect with unchanged | ⟨all, rfl⟩
    · exact .inl (congrArg buildrequests unchanged)
    · refine .inr fun brid member => ?_
      obtain ⟨row, among, same, incomplete⟩ := all brid member
      have there : tables.request brid = some row := keyed.requests.lookup_iff.mpr ⟨among, same⟩
      refine ⟨row, there, incomplete, ?_⟩
      simp [request_completing, there, same, member]

end Tables

/-- Whatever the masters call in whatever order, each request is claimed at most once at a time, every call does all
of its work or none of it and leaves the claims of others alone, and what is complete stays as it is. -/
theorem claims_exclusive_completions_final {tables : Tables ν} (keyed : tables.Keyed) (past : List Call) (call : Call)
    (rest : List Call) :
    let before := final Tables.call tables past
    let later := final Tables.call tables (past ++ call :: rest)
    (∀ brid, before.buildrequestClaims.countP (fun row => row.brid = brid) ≤ 1) ∧
      Tables.Whole call.masterid before (before.call call).1 call.operation ∧
      ∀ brid row, before.request brid = some row → row.complete = some 1 → later.request brid = some row := by
  intro before later
  have sound := Tables.run_keyed keyed past
  refine ⟨Tables.claims_at_most_one sound, Tables.call_whole sound call, fun brid row there complete => ?_⟩
  have kept := Tables.run_complete_stays sound (call :: rest) there complete
  rwa [← final_append] at kept

/-- Two requests of one buildset, not claimed by anyone. -/
def twoRequests : Tables Unit where
  buildrequests := [⟨1, 1, 7, 0, some 0, some (-1), none⟩, ⟨2, 1, 7, 0, some 0, some (-1), none⟩]
  buildrequestClaims := []
  buildsets := [⟨1, 0, some (-1), none⟩]
  buildsetSourcestamps := [(1, 1)]
  sourcestamps := [⟨1, ⟨"", "", "", none, none, none⟩⟩]
  changes := []
  buildsetProperties := []
  builders := [7]
  foreignKeys := true

/-- A second master gets nothing of two requests when the first one has claimed one of them. -/
theorem twoRequests_whole :
    let first : Call := ⟨1, true, .claimBuildRequests [2] 10⟩
    let second : Call := ⟨2, true, .claimBuildRequests [1, 2] 11⟩
    let before := final Tables.call twoRequests [first]
    Tables.Whole 2 before (before.call second).1 second.operation ∧
      before.buildrequestClaims = [⟨2, 1, 10⟩] ∧ (before.call second).1 = before := by
  intro first second before
  have keyed : twoRequests.Keyed := ⟨by decide, by decide⟩
  refine ⟨(claims_exclusive_completions_final keyed [first] second []).2.1, ?_, ?_⟩
  · decide
  · decide

end Umbilical.Requests
