import Umbilical.Data.ResultSpec
import Umbilical.Shared.Dictionary

set_option autoImplicit false

/-!
# The collections of build requests and of changes

The endpoints give the result spec to the database and return a plain list, to which
`get_with_resultspec` applies what is left of the spec. In between, build requests lose
their duplicates, and changes are reversed.
-/

namespace Umbilical.Data

open Dictionary

variable {φ χ ν ρ : Type}

/-- What an endpoint raises, apart from what the result spec raises. -/
inductive Failure where
  | IndexError
  | raised (error : Error)
  deriving DecidableEq

def raised {α : Type} : Except Error α → Except Failure α
  | .ok a => .ok a
  | .error error => .error (.raised error)

def Collection.items : Collection φ ν → List (Item φ ν)
  | .list data => data
  | .paginated result => result.data

/-! ## Filters that an endpoint takes out of the spec -/

section Popping

variable [DecidableEq φ]

/-- The values of the first filter of this kind, and the filters without it. -/
def popFilter (field : φ) (op : Op) (filters : List (Filter φ ν)) : Option (List (Option ν)) × List (Filter φ ν) :=
  ((filters.find? fun f => f.field = field ∧ f.op = op).map Filter.values,
    filters.eraseP fun f => f.field = field ∧ f.op = op)

def popOneFilter (field : φ) (op : Op) (filters : List (Filter φ ν)) :
    Except Failure (Option ν × List (Filter φ ν)) :=
  match popFilter field op filters with
  | (none, filters) => .ok (none, filters)
  | (some (v :: _), filters) => .ok (v, filters)
  | (some [], _) => .error .IndexError

/-- A value of which the code asks whether it is a `bool`. -/
inductive FilterValue where
  | none
  | bool (b : Bool)
  | int (n : Int)
  deriving DecidableEq

def FilterValue.truthy : FilterValue → Bool
  | .none => false
  | .bool b => b
  | .int n => n ≠ 0

/-- A value of a field with booleans, which are the numbers 0 and 1. -/
def asBoolean : Option Int → FilterValue
  | none => .none
  | some n => .bool (n ≠ 0)

def asInteger : Option Int → FilterValue
  | none => .none
  | some n => .int n

def popBooleanFilter (read : Option Int → FilterValue) (field : φ) (filters : List (Filter φ Int)) :
    FilterValue × List (Filter φ Int) :=
  match popFilter field .eq filters with
  | (some [v], filters) => (read v, filters)
  | (_, filters) =>
      match popFilter field .ne filters with
      | (some [v], filters) => (.bool !(read v).truthy, filters)
      | (_, filters) => (.none, filters)

end Popping

/-! ## Build requests -/

namespace BuildRequests

/-- A row of the table `buildrequests`, in which `complete` and `waited_for` are 0 or 1. -/
structure BuildRequest where
  id : Int
  buildsetid : Int
  builderid : Int
  priority : Int
  complete : Bool
  results : Option Int
  submitted_at : Int
  complete_at : Option Int
  waited_for : Bool
  deriving DecidableEq

/-- A row of the table `buildrequest_claims`. -/
structure Claim where
  brid : Int
  masterid : Int
  claimed_at : Int
  deriving DecidableEq

/-- The tables that the query joins. A request and its claim have its id for a key. -/
structure Tables where
  buildrequests : List BuildRequest
  buildrequest_claims : List Claim
  buildset_sourcestamps : List (Int × Int)
  keyed : Keyed.Distinct BuildRequest.id buildrequests

/-- A request with the claim of it, if there is one. -/
structure Row where
  request : BuildRequest
  claim : Option Claim
  deriving DecidableEq

def Tables.rows (tables : Tables) : List Row :=
  tables.buildrequests.map fun request => ⟨request, Keyed.lookup Claim.brid tables.buildrequest_claims request.id⟩

/-- The rows of `buildset_sourcestamps` that a request is joined with. -/
def Tables.sourcestamps (tables : Tables) (row : Row) : List (Int × Int) :=
  tables.buildset_sourcestamps.filter fun pair => pair.1 = row.request.buildsetid

/-- The from clause: the inner joins give a row for each source stamp of the request's buildset. -/
def Tables.saSelectQuery (tables : Tables) : List Row :=
  tables.rows.flatMap fun row => (tables.sourcestamps row).map fun _ => row

def ofBool (b : Bool) : Option Int := some (if b then 1 else 0)

namespace Row

def columns (row : Row) : List (String × Option Int) :=
  [("buildrequests.id", some row.request.id),
    ("buildrequests.buildsetid", some row.request.buildsetid),
    ("buildrequests.builderid", some row.request.builderid),
    ("buildrequests.priority", some row.request.priority),
    ("buildrequests.complete", ofBool row.request.complete),
    ("buildrequests.results", row.request.results),
    ("buildrequests.submitted_at", some row.request.submitted_at),
    ("buildrequests.complete_at", row.request.complete_at),
    ("buildrequests.waited_for", ofBool row.request.waited_for),
    ("buildrequest_claims.masterid", row.claim.map Claim.masterid),
    ("buildrequest_claims.claimed_at", row.claim.map Claim.claimed_at)]

def column (row : Row) (col : String) : Option Int := (row.columns.lookup col).getD none

/-- A time is the number of its epoch. -/
def modelFromRow (row : Row) : Item String Int :=
  [("buildrequestid", row.column "buildrequests.id"),
    ("buildsetid", row.column "buildrequests.buildsetid"),
    ("builderid", row.column "buildrequests.builderid"),
    ("submitted_at", row.column "buildrequests.submitted_at"),
    ("complete_at", row.column "buildrequests.complete_at"),
    ("complete", row.column "buildrequests.complete"),
    ("results", row.column "buildrequests.results"),
    ("waited_for", row.column "buildrequests.waited_for"),
    ("priority", row.column "buildrequests.priority"),
    ("claimed_at", row.column "buildrequest_claims.claimed_at"),
    ("claimed_by_masterid", row.column "buildrequest_claims.masterid")]

end Row

def buildrequests_field_mapping : List (String × String) :=
  [("buildrequestid", "buildrequests.id"),
    ("buildsetid", "buildrequests.buildsetid"),
    ("builderid", "buildrequests.builderid"),
    ("priority", "buildrequests.priority"),
    ("complete", "buildrequests.complete"),
    ("results", "buildrequests.results"),
    ("submitted_at", "buildrequests.submitted_at"),
    ("complete_at", "buildrequests.complete_at"),
    ("waited_for", "buildrequests.waited_for"),
    ("claimed_at", "buildrequest_claims.claimed_at"),
    ("claimed_by_masterid", "buildrequest_claims.masterid")]

theorem mapped_cases {α β : Type} [DecidableEq α] {mapping : List (α × β)} {field : α} {col : β}
    (mapped : mapping.lookup field = some col) : (field, col) ∈ mapping := by
  induction mapping with
  | nil => simp at mapped
  | cons entry rest ih =>
    obtain ⟨key, value⟩ := entry
    by_cases same : field = key
    · subst same
      obtain rfl : value = col := by simpa using mapped
      exact List.mem_cons_self
    · have other : (field == key) = false := by simpa using same
      rw [List.lookup_cons, other] at mapped
      exact List.mem_cons_of_mem _ (ih mapped)

def source : Source String String Int Row where
  fieldMapping field := buildrequests_field_mapping.lookup field
  inner_columns := buildrequests_field_mapping.map Prod.snd
  column := Row.column
  dictFromRow := Row.modelFromRow
  carries row field col mapped := by
    have member := mapped_cases mapped
    simp only [buildrequests_field_mapping, List.mem_cons, List.not_mem_nil, or_false, Prod.mk.injEq] at member
    rcases member with ⟨rfl, rfl⟩ | ⟨rfl, rfl⟩ | ⟨rfl, rfl⟩ | ⟨rfl, rfl⟩ | ⟨rfl, rfl⟩ | ⟨rfl, rfl⟩ | ⟨rfl, rfl⟩ |
      ⟨rfl, rfl⟩ | ⟨rfl, rfl⟩ | ⟨rfl, rfl⟩ | ⟨rfl, rfl⟩ <;> rfl

/-- The arguments of `getBuildRequests`, apart from the result spec. -/
structure Arguments where
  builderid : Option Int
  complete : FilterValue
  claimed : FilterValue
  bsid : Option Int

/-- The where clauses for the arguments. -/
def Arguments.where_ (arguments : Arguments) (row : Row) : Bool :=
  (match arguments.claimed with
    | .none => true
    | .bool false => row.claim.isNone && !row.request.complete
    | .bool true => row.claim.isSome
    | .int n => row.claim.map Claim.masterid = some n) &&
  (match arguments.builderid with
    | none => true
    | some builderid => row.request.builderid = builderid) &&
  (match arguments.complete with
    | .none => true
    | complete => row.request.complete = complete.truthy) &&
  (match arguments.bsid with
    | none => true
    | some bsid => row.request.buildsetid = bsid)

def deduplicateBrdict (brdicts : List (Item String Int)) : List (Item String Int) :=
  dictOf (fun b => valueOf b "buildrequestid") brdicts

def getBuildRequests (database : Database Int) (tables : Tables) (arguments : Arguments)
    (resultSpec : ResultSpec String Int) : Except Error (ResultSpec String Int × List (Item String Int)) := do
  let q := tables.saSelectQuery.filter arguments.where_
  let (resultSpec, res) ← source.thd_execute database resultSpec q
  return (resultSpec, deduplicateBrdict res.items)

/-- `claimed` tells whether there is a time of the claim; no properties have been asked for. -/
def db2data (dbmodel : Item String Int) : Item String Int :=
  let claimed := ofBool (valueOf dbmodel "claimed_at").isSome
  dbmodel ++ [("claimed", claimed), ("properties", none)]

/-- What `get` takes out of the spec. -/
def pops (builderid : Option Int) (resultSpec : ResultSpec String Int) :
    Except Failure (Arguments × ResultSpec String Int) := do
  let (complete, filters) := popBooleanFilter asBoolean "complete" resultSpec.filters
  let (claimed_by_masterid, filters) := popBooleanFilter asInteger "claimed_by_masterid" filters
  let (claimed, filters) :=
    if claimed_by_masterid.truthy then (claimed_by_masterid, filters)
    else popBooleanFilter asBoolean "claimed" filters
  let (bsid, filters) ← popOneFilter "buildsetid" .eq filters
  return (⟨builderid, complete, claimed, bsid⟩, { resultSpec with filters := filters })

def get (database : Database Int) (tables : Tables) (builderid : Option Int) (resultSpec : ResultSpec String Int) :
    Except Failure (ResultSpec String Int × List (Item String Int)) := do
  let (arguments, resultSpec) ← pops builderid resultSpec
  let (resultSpec, buildrequests) ← raised (getBuildRequests database tables arguments resultSpec)
  return (resultSpec, buildrequests.map db2data)

def get_with_resultspec (database : Database Int) (containers : Containers Int) (tables : Tables)
    (resultSpec : ResultSpec String Int) : Except Failure (ListResult String Int) := do
  let (resultSpec, rv) ← get database tables none resultSpec
  raised (resultSpec.apply containers (.list rv))

/-- All the build requests as `get` represents them. -/
def complete (tables : Tables) : List (Item String Int) := tables.rows.map fun row => db2data row.modelFromRow

end BuildRequests

/-! ## Changes -/

namespace Changes

/-- The value of each column of the table, and what the other tables say about the change. -/
structure Change (ν : Type) where
  columns : String → Option ν
  parent_changeids : ν
  files : ν
  sourcestamp : ν
  properties : ν

def fieldMapping : List (String × String) :=
  [("author", "changes.author"),
    ("branch", "changes.branch"),
    ("category", "changes.category"),
    ("changeid", "changes.changeid"),
    ("codebase", "changes.codebase"),
    ("comments", "changes.comments"),
    ("committer", "changes.committer"),
    ("project", "changes.project"),
    ("repository", "changes.repository"),
    ("revision", "changes.revision"),
    ("revlink", "changes.revlink"),
    ("sourcestampid", "changes.sourcestampid"),
    ("when_timestamp", "changes.when_timestamp")]

/-- The model of the change whose id the row has. A time is the number of its epoch. -/
def getChange (row : Change ν) : Item String ν :=
  (fieldMapping.map fun entry => (entry.1, row.columns entry.2)) ++
    [("parent_changeids", some row.parent_changeids), ("files", some row.files),
      ("sourcestamp", some row.sourcestamp), ("properties", some row.properties)]

theorem lookup_map_mapping {α β γ : Type} [DecidableEq α] {mapping : List (α × β)} {field : α} {col : β}
    (mapped : mapping.lookup field = some col) (value : β → γ) (others : List (α × γ)) :
    ((mapping.map fun entry => (entry.1, value entry.2)) ++ others).lookup field = some (value col) := by
  induction mapping with
  | nil => simp at mapped
  | cons entry rest ih =>
    obtain ⟨key, name⟩ := entry
    by_cases same : field = key
    · subst same
      obtain rfl : name = col := by simpa using mapped
      simp
    · have other : (field == key) = false := by simpa using same
      rw [List.lookup_cons, other] at mapped
      simpa only [List.map_cons, List.cons_append, List.lookup_cons, other] using ih mapped

def source : Source String String ν (Change ν) where
  fieldMapping field := fieldMapping.lookup field
  inner_columns := fieldMapping.map Prod.snd
  column row col := row.columns col
  dictFromRow := getChange
  carries row _ _ mapped := lookup_map_mapping mapped row.columns _

/-- The data of a change have its source stamp instead of the id of that. -/
def fixChange (model : Item String ν) : Item String ν := model.filter fun entry => entry.1 ≠ "sourcestampid"

variable [LinearOrder ν]

def getChanges (database : Database ν) (changes : List (Change ν)) (resultSpec : ResultSpec String ν) :
    Except Error (ResultSpec String ν × List (Item String ν)) := do
  let (resultSpec, res) ← source.thd_execute database resultSpec changes
  return (resultSpec, res.items.reverse)

def get (database : Database ν) (changes : List (Change ν)) (resultSpec : ResultSpec String ν) :
    Except Failure (ResultSpec String ν × List (Item String ν)) := do
  let (resultSpec, changes) ← raised (getChanges database changes resultSpec)
  return (resultSpec, changes.map fixChange)

def get_with_resultspec (database : Database ν) (containers : Containers ν) (changes : List (Change ν))
    (resultSpec : ResultSpec String ν) : Except Failure (ListResult String ν) := do
  let (resultSpec, rv) ← get database changes resultSpec
  raised (resultSpec.apply containers (.list rv))

/-- All the changes as `get` returns them without filters, order, offset and limit. -/
def complete (changes : List (Change ν)) : List (Item String ν) := changes.reverse.map fun row => fixChange (getChange row)

end Changes

end Umbilical.Data
