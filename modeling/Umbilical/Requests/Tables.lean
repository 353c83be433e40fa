import Mathlib.Data.List.Perm.Subperm
import Umbilical.Shared.Keyed
import Umbilical.Requests.Severity

set_option autoImplicit false

/-!
# Build requests in the database

The tables around the build requests, and the transactions of the database
components on them. A transaction leaves the tables as its statements have made
them, or as they were.
-/

namespace Umbilical.Requests

open Keyed

structure BuildRequestRow where
  id : Nat
  buildsetid : Nat
  builderid : Nat
  submittedAt : Int
  complete : Option Int
  results : Option Int
  completeAt : Option Int
  deriving DecidableEq

structure ClaimRow where
  brid : Nat
  masterid : Nat
  claimedAt : Int
  deriving DecidableEq

structure BuildsetRow where
  id : Nat
  complete : Int
  results : Option Int
  completeAt : Option Int
  deriving DecidableEq

structure SourceStamp where
  codebase : String
  repository : String
  project : String
  branch : Option String
  revision : Option String
  patchid : Option Nat
  deriving DecidableEq

structure SourceStampRow where
  id : Nat
  stamp : SourceStamp
  deriving DecidableEq

/-- A row of `buildset_properties`. Values that Python's `==` does not tell apart are one value. -/
structure PropertyRow (ν : Type) where
  buildsetid : Nat
  name : String
  value : ν
  source : String
  deriving DecidableEq

/-- `changes` has the source stamp of each change, `buildsetSourcestamps` pairs of a buildset and a source stamp. -/
structure Tables (ν : Type) where
  buildrequests : List BuildRequestRow
  buildrequestClaims : List ClaimRow
  buildsets : List BuildsetRow
  buildsetSourcestamps : List (Nat × Nat)
  sourcestamps : List SourceStampRow
  changes : List Nat
  buildsetProperties : List (PropertyRow ν)
  builders : List Nat
  foreignKeys : Bool
  deriving DecidableEq

inductive DbError where
  | alreadyClaimedError
  | notClaimedError
  | alreadyCompleteError
  | assertionError
  | integrityError
  deriving DecidableEq

def batches {α : Type} (size : Nat) : Nat → List α → List (List α)
  | 0, _ => []
  | fuel + 1, items => if items = [] ∨ size = 0 then [] else items.take size :: batches size fuel (items.drop size)

/-- The groups of at most `size` items that `itertools.islice` takes one after the other. -/
def doBatch {α : Type} (size : Nat) (items : List α) : List (List α) := batches size items.length items

/-- `complete != 1` in SQL, which is not true of `NULL`. -/
def BuildRequestRow.incomplete (row : BuildRequestRow) : Bool := row.complete.any (· ≠ 1)

def BuildRequestRow.completed (row : BuildRequestRow) (results completeAt : Int) : BuildRequestRow :=
  { row with complete := some 1, results := some results, completeAt := some completeAt }

namespace Tables

variable {ν : Type} (tables : Tables ν)

def request (brid : Nat) : Option BuildRequestRow := lookup BuildRequestRow.id tables.buildrequests brid

def claim (brid : Nat) : Option ClaimRow := lookup ClaimRow.brid tables.buildrequestClaims brid

def buildset (bsid : Nat) : Option BuildsetRow := lookup BuildsetRow.id tables.buildsets bsid

/-- `INSERT INTO buildrequest_claims`, which the unique index on `brid` may refuse, and the foreign key too. -/
def insertClaim (row : ClaimRow) : Option (Tables ν) :=
  if (tables.claim row.brid).isSome then none
  else if tables.foreignKeys && (tables.request row.brid).isNone then none
  else some { tables with buildrequestClaims := tables.buildrequestClaims ++ [row] }

def insertClaims : List ClaimRow → Tables ν → Option (Tables ν)
  | [], tables => some tables
  | row :: rows, tables => (tables.insertClaim row).bind (insertClaims rows)

/-- `_claim_buildrequests_for_master`. Without parameters the statement inserts one row of defaults, which has no
`brid` and is refused. -/
def claimBuildRequests (masterid : Nat) (brids : List Nat) (claimedAt : Int) : Except DbError (Tables ν) :=
  if brids = [] then .error .alreadyClaimedError
  else match insertClaims (brids.map fun brid => ⟨brid, masterid, claimedAt⟩) tables with
    | some after => .ok after
    | none => .error .alreadyClaimedError

def deleteClaims (masterid : Nat) (batch : List Nat) : Tables ν :=
  { tables with buildrequestClaims := tables.buildrequestClaims.filter fun row =>
      ¬ (row.brid ∈ batch ∧ row.masterid = masterid) }

/-- `_unclaim_buildrequests_for_master`. -/
def unclaimBuildRequests (masterid : Nat) (brids : List Nat) : Tables ν :=
  (doBatch 100 brids).foldl (fun tables batch => tables.deleteClaims masterid batch) tables

/-- The rows that the update of one batch finds. -/
def found (batch : List Nat) : List BuildRequestRow :=
  tables.buildrequests.filter fun row => row.id ∈ batch ∧ row.incomplete

def updateBatch (results completeAt : Int) (batch : List Nat) : Tables ν :=
  { tables with buildrequests := tables.buildrequests.map fun row =>
      if row.id ∈ batch ∧ row.incomplete then row.completed results completeAt else row }

def completeBatches (results completeAt : Int) : List (List Nat) → Tables ν → Option (Tables ν)
  | [], tables => some tables
  | batch :: batches, tables =>
      -- `res.rowcount != len(batch)` rolls everything back
      if (tables.found batch).length ≠ batch.length then none
      else completeBatches results completeAt batches (tables.updateBatch results completeAt batch)

def completeBuildRequests (brids : List Nat) (results completeAt : Int) : Except DbError (Tables ν) :=
  if results = RETRY then .error .assertionError
  else match completeBatches results completeAt (doBatch 100 brids) tables with
    | some after => .ok after
    | none => .error .notClaimedError

end Tables

theorem batches_flatten {α : Type} {size fuel : Nat} (positive : 0 < size) {items : List α}
    (enough : items.length ≤ fuel) : (batches size fuel items).flatten = items := by
  induction fuel generalizing items with
  | zero => exact (List.length_eq_zero_iff.mp (Nat.le_zero.mp enough)).symm
  | succ fuel ih =>
    unfold batches
    split_ifs with ended
    · rcases ended with empty | zero
      · exact empty.symm
      · omega
    · have shorter : (items.drop size).length ≤ fuel := by
        rw [List.length_drop]
        omega
      rw [List.flatten_cons, ih shorter, List.take_append_drop]

theorem doBatch_flatten {α : Type} {size : Nat} (positive : 0 < size) (items : List α) :
    (doBatch size items).flatten = items := batches_flatten positive (Nat.le_refl _)

namespace Tables

variable {ν : Type} {tables after : Tables ν}

/-- What the primary key of the requests and the unique index of the claims make sure of. -/
structure Keyed (tables : Tables ν) : Prop where
  requests : Distinct BuildRequestRow.id tables.buildrequests
  claims : Distinct ClaimRow.brid tables.buildrequestClaims

theorem insertClaim_eq_some {row : ClaimRow} (inserted : tables.insertClaim row = some after) :
    tables.claim row.brid = none ∧
      after = { tables with buildrequestClaims := tables.buildrequestClaims ++ [row] } := by
  unfold insertClaim at inserted
  split_ifs at inserted with taken missing
  exact ⟨Option.not_isSome_iff_eq_none.mp taken, (Option.some.inj inserted).symm⟩

theorem insertClaims_eq_some {rows : List ClaimRow} (distinct : Distinct ClaimRow.brid tables.buildrequestClaims)
    (inserted : insertClaims rows tables = some after) :
    Distinct ClaimRow.brid (tables.buildrequestClaims ++ rows) ∧
      after = { tables with buildrequestClaims := tables.buildrequestClaims ++ rows } := by
  induction rows generalizing tables with
  | nil =>
    cases inserted
    simpa using distinct
  | cons row rows ih =>
    obtain ⟨between, first, rest⟩ := Option.bind_eq_some_iff.mp inserted
    obtain ⟨fresh, rfl⟩ := insertClaim_eq_some first
    obtain ⟨distinctAll, rfl⟩ := ih (distinct_append.mpr ⟨distinct, fresh⟩) rest
    simp only [List.append_assoc, List.singleton_append] at distinctAll ⊢
    exact ⟨distinctAll, trivial⟩

theorem claimBuildRequests_eq_ok {masterid : Nat} {brids : List Nat} {claimedAt : Int}
    (distinct : Distinct ClaimRow.brid tables.buildrequestClaims)
    (claimed : tables.claimBuildRequests masterid brids claimedAt = .ok after) :
    Distinct ClaimRow.brid after.buildrequestClaims ∧ after = { tables with
      buildrequestClaims := tables.buildrequestClaims ++ brids.map fun brid => ⟨brid, masterid, claimedAt⟩ } := by
  unfold claimBuildRequests at claimed
  split_ifs at claimed
  split at claimed
  next inserted =>
    cases claimed
    obtain ⟨distinctAfter, rfl⟩ := insertClaims_eq_some distinct inserted
    exact ⟨distinctAfter, rfl⟩
  next => cases claimed

theorem unclaimBuildRequests_eq (masterid : Nat) (brids : List Nat) :
    tables.unclaimBuildRequests masterid brids = tables.deleteClaims masterid brids := by
  have folded : ∀ (batches : List (List Nat)) (tables : Tables ν),
      batches.foldl (fun tables batch => tables.deleteClaims masterid batch) tables =
        tables.deleteClaims masterid batches.flatten := by
    intro batches
    induction batches with
    | nil => simp [deleteClaims]
    | cons batch batches ih =>
      intro tables
      rw [List.foldl_cons, ih]
      simp only [deleteClaims, List.filter_filter, List.flatten_cons, List.mem_append]
      congr 2
      funext row
      by_cases here : row.brid ∈ batch <;> by_cases later : row.brid ∈ batches.flatten <;> simp [here, later]
  rw [unclaimBuildRequests, folded, doBatch_flatten (by decide)]

theorem found_eq_length {batch : List Nat} (distinct : Distinct BuildRequestRow.id tables.buildrequests)
    (all : (tables.found batch).length = batch.length) :
    ∀ brid ∈ batch, ∃ row ∈ tables.buildrequests, row.id = brid ∧ row.incomplete := by
  -- the rows found have different ids, all of them in the batch, and there are as many
  have nodup : ((tables.found batch).map BuildRequestRow.id).Nodup :=
    List.Nodup.sublist (List.Sublist.map _ List.filter_sublist) distinct
  have within : (tables.found batch).map BuildRequestRow.id ⊆ batch := by
    intro brid member
    obtain ⟨row, among, rfl⟩ := List.mem_map.mp member
    exact (of_decide_eq_true (List.mem_filter.mp among).2).1
  have filled : ((tables.found batch).map BuildRequestRow.id).Perm batch := by
    apply (List.subperm_of_subset nodup within).perm_of_length_le
    simp [all]
  intro brid member
  obtain ⟨row, among, same⟩ := List.mem_map.mp (filled.mem_iff.mpr member)
  obtain ⟨present, condition⟩ := List.mem_filter.mp among
  exact ⟨row, present, same, (of_decide_eq_true condition).2⟩

/-- The tables with the requests of `brids` completed. -/
def completing (brids : List Nat) (results completeAt : Int) (tables : Tables ν) : Tables ν :=
  { tables with buildrequests := tables.buildrequests.map fun row =>
      if row.id ∈ brids then row.completed results completeAt else row }

variable {results completeAt : Int}

theorem completing_distinct {brids : List Nat} (distinct : Distinct BuildRequestRow.id tables.buildrequests) :
    Distinct BuildRequestRow.id (tables.completing brids results completeAt).buildrequests := by
  refine (distinct_map BuildRequestRow.id _ Function.injective_id fun row => ?_).mpr distinct
  split_ifs <;> rfl

theorem updateBatch_eq {batch : List Nat} (distinct : Distinct BuildRequestRow.id tables.buildrequests)
    (all : ∀ brid ∈ batch, ∃ row ∈ tables.buildrequests, row.id = brid ∧ row.incomplete) :
    tables.updateBatch results completeAt batch = tables.completing batch results completeAt := by
  unfold updateBatch completing
  congr 1
  refine List.map_congr_left fun row member => ?_
  by_cases inside : row.id ∈ batch
  · obtain ⟨other, among, same, incomplete⟩ := all row.id inside
    rw [distinct.eq_of_key among member same] at incomplete
    simp [inside, incomplete]
  · simp [inside]

theorem completeBatches_eq_some {batches : List (List Nat)}
    (distinct : Distinct BuildRequestRow.id tables.buildrequests)
    (completed : completeBatches results completeAt batches tables = some after) :
    (∀ brid ∈ batches.flatten, ∃ row ∈ tables.buildrequests, row.id = brid ∧ row.incomplete) ∧
      after = tables.completing batches.flatten results completeAt := by
  induction batches generalizing tables with
  | nil =>
    cases completed
    simp [completing]
  | cons batch batches ih =>
    unfold completeBatches at completed
    split_ifs at completed with counted
    have all := found_eq_length distinct (not_not.mp counted)
    rw [updateBatch_eq distinct all] at completed
    obtain ⟨later, rfl⟩ := ih (completing_distinct distinct) completed
    -- a request of a later batch was not in this one, or it would be complete by now
    have apart : ∀ brid ∈ batches.flatten, brid ∉ batch ∧
        ∃ row ∈ tables.buildrequests, row.id = brid ∧ row.incomplete := by
      intro brid member
      obtain ⟨row, among, same, incomplete⟩ := later brid member
      obtain ⟨original, before, rfl⟩ := List.mem_map.mp among
      by_cases inside : original.id ∈ batch
      · simp [inside, BuildRequestRow.incomplete, BuildRequestRow.completed] at incomplete
      · simp only [inside, if_false] at same incomplete
        exact ⟨same ▸ inside, original, before, same, incomplete⟩
    refine ⟨fun brid member => ?_, ?_⟩
    · rcases List.mem_append.mp (List.flatten_cons ▸ member) with now | after
      · exact all brid now
      · exact (apart brid after).2
    · simp only [completing, List.map_map]
      congr 1
      refine List.map_congr_left fun row _ => ?_
      by_cases inside : row.id ∈ batch
      · have : row.id ∉ batches.flatten := fun member => (apart row.id member).1 inside
        simp [inside, BuildRequestRow.completed]
      · simp [inside]

theorem completeBuildRequests_eq_ok {brids : List Nat} (distinct : Distinct BuildRequestRow.id tables.buildrequests)
    (completed : tables.completeBuildRequests brids results completeAt = .ok after) :
    (∀ brid ∈ brids, ∃ row ∈ tables.buildrequests, row.id = brid ∧ row.incomplete) ∧
      after = tables.completing brids results completeAt := by
  unfold completeBuildRequests at completed
  split_ifs at completed
  split at completed
  next done =>
    cases completed
    have spec := completeBatches_eq_some distinct done
    rwa [doBatch_flatten (by decide)] at spec
  next => cases completed

end Tables

end Umbilical.Requests
