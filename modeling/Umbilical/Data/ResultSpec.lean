import Mathlib.Data.List.Sort
import Mathlib.Order.Basic

set_option autoImplicit false

/-!
# Result specs

A `ResultSpec` filters, orders and slices a collection, in Python or, as far as the
field mapping covers the fields, in the query that the database executes. A value
`none` is `None`, or `NULL` in the database.
-/

namespace Umbilical.Data

variable {φ χ ν ρ : Type}

inductive Error where
  | KeyError
  | TypeError
  | ArgumentError
  | AssertionError
  deriving DecidableEq

inductive Op where
  | eq | ne | lt | le | gt | ge | contains | in | notin
  deriving DecidableEq

structure Filter (φ ν : Type) where
  field : φ
  op : Op
  values : List (Option ν)

/-- A key such as `'lastName'`, or with `reverse` such as `'-lastName'`. -/
structure Key (φ : Type) where
  field : φ
  reverse : Bool

/-- What Python does with values that may be containers: `v in d` and `set(d)`, where they do not raise. -/
structure Containers (ν : Type) where
  contains : ν → Option ν → Option Bool
  iterate : ν → Option (List (Option ν))

/-! ## The operators in Python -/

section Python

variable [LinearOrder ν] (containers : Containers ν)

def compare (test : ν → ν → Bool) : Option ν → Option ν → Except Error Bool
  | some d, some v => .ok (test d v)
  | _, _ => .error .TypeError

def singular_operators (op : Op) (v d : Option ν) : Except Error Bool :=
  match op with
  | .eq => .ok (d = v)
  | .ne => .ok (d ≠ v)
  | .lt => compare (· < ·) d v
  | .le => compare (· ≤ ·) d v
  | .gt => compare (· > ·) d v
  | .ge => compare (· ≥ ·) d v
  | .contains =>
      match d.bind fun d => containers.contains d v with
      | some found => .ok found
      | none => .error .TypeError
  | .in => .ok (d ∈ [v])
  | .notin => .ok (d ∉ [v])

def plural_operators (op : Op) (v : List (Option ν)) : Except Error (Option ν → Except Error Bool) :=
  match op with
  | .eq | .in => .ok fun d => .ok (d ∈ v)
  | .ne | .notin => .ok fun d => .ok (d ∉ v)
  | .contains => .ok fun d =>
      match d.bind containers.iterate with
      | some elements => .ok (v.any (· ∈ elements))
      | none => .error .TypeError
  | .lt | .le | .gt | .ge => .error .KeyError

def Filter.getOperator (filter : Filter φ ν) : Except Error (Option ν → Except Error Bool) :=
  match filter.values with
  | [v] => .ok (singular_operators containers filter.op v)
  | v => plural_operators containers filter.op v

end Python

/-! ## The operators in SQL -/

/-- What the database decides by itself: `LIKE`, and what an offset and a limit mean, which is what they
say unless they are negative. -/
structure Database (ν : Type) where
  like : ν → ν → Bool
  skipped : Int → Nat
  taken : Int → Option Nat
  skipped_nonneg : ∀ offset, 0 ≤ offset → skipped offset = offset.toNat
  taken_nonneg : ∀ limit, 0 ≤ limit → taken limit = some limit.toNat

section Sql

variable [LinearOrder ν] (database : Database ν)

/-- `d IN v`. The third truth value is `none`. -/
def in_ (v : List (Option ν)) (d : Option ν) : Option Bool :=
  if v = [] then some false
  else
    match d with
    | none => none
    | some _ => if d ∈ v then some true else if none ∈ v then none else some false

def notin_ (v : List (Option ν)) (d : Option ν) : Option Bool := (in_ v d).map not

/-- An ordering operator, which the query builder refuses for `None`. -/
def compareSql (test : ν → ν → Bool) : Option ν → Except Error (Option ν → Option Bool)
  | none => .error .ArgumentError
  | some v => .ok fun d => d.map fun d => test d v

def containsSql (v d : Option ν) : Option Bool := d.bind fun d => v.map fun v => database.like d v

/-- `sa.or_`, which without arguments restricts nothing. -/
def or_ : List (Option Bool) → Option Bool
  | [] => some true
  | truths => if some true ∈ truths then some true else if none ∈ truths then none else some false

def singular_operators_sql (op : Op) (v : Option ν) : Except Error (Option ν → Option Bool) :=
  match op with
  -- a comparison with None becomes IS NULL or IS NOT NULL
  | .eq => .ok fun d => if v = none then some (d = none) else d.map fun d => some d = v
  | .ne => .ok fun d => if v = none then some (d ≠ none) else d.map fun d => some d ≠ v
  | .lt => compareSql (· < ·) v
  | .le => compareSql (· ≤ ·) v
  | .gt => compareSql (· > ·) v
  | .ge => compareSql (· ≥ ·) v
  | .contains => .ok (containsSql database v)
  | .in => .ok (in_ [v])
  | .notin => .ok (notin_ [v])

def plural_operators_sql (op : Op) (v : List (Option ν)) : Except Error (Option ν → Option Bool) :=
  match op with
  | .eq | .in => .ok (in_ v)
  | .ne | .notin => .ok (notin_ v)
  | .contains => .ok fun d => or_ (v.map fun v => containsSql database v d)
  | .lt | .le | .gt | .ge => .error .KeyError

def Filter.getOperatorSql (filter : Filter φ ν) : Except Error (Option ν → Option Bool) :=
  match filter.values with
  | [v] => singular_operators_sql database filter.op v
  | v => plural_operators_sql database filter.op v

end Sql

/-! ## Order -/

section Order

variable [LinearOrder ν] {α : Type}

/-- `NoneComparator.__lt__`. -/
def noneLt : Option ν → Option ν → Bool
  | none, none => false
  | none, some _ => true
  | some _, none => false
  | some a, some b => a < b

/-- `<` of the key lists of two elements: the first keys that differ decide. `ReverseComparator` swaps. -/
def keyLt (value : α → φ → Option ν) : List (Key φ) → α → α → Bool
  | [], _, _ => false
  | k :: rest, a, b =>
      if value a k.field = value b k.field then keyLt value rest a b
      else if k.reverse then noneLt (value b k.field) (value a k.field)
      else noneLt (value a k.field) (value b k.field)

/-- Not to be moved behind, in a stable sort. -/
def Ordered (value : α → φ → Option ν) (order : List (Key φ)) (a b : α) : Prop := keyLt value order b a = false

instance (value : α → φ → Option ν) (order : List (Key φ)) : DecidableRel (Ordered value order) :=
  fun a b => inferInstanceAs (Decidable (keyLt value order b a = false))

end Order

/-! ## Applying a spec in Python -/

abbrev Item (φ ν : Type) := List (φ × Option ν)

/-- `fields`, `order` and `filters` may be `None` in the source, which is the empty list here. -/
structure ResultSpec (φ ν : Type) where
  filters : List (Filter φ ν)
  fields : List φ
  order : List (Key φ)
  limit : Option Int
  offset : Option Int

structure ListResult (φ ν : Type) where
  data : List (Item φ ν)
  offset : Option Int
  total : Nat
  limit : Option Int

/-- A plain list, or a `ListResult` of an endpoint that has applied the pagination. -/
inductive Collection (φ ν : Type) where
  | list (data : List (Item φ ν))
  | paginated (result : ListResult φ ν)

/-- `data[start:stop]`, where negative bounds count from the end. -/
def slice {α : Type} (start stop : Option Int) (data : List α) : List α :=
  let bound (i : Int) : Nat := if i < 0 then (i + data.length).toNat else i.toNat
  let first := (start.map bound).getD 0
  let last := (stop.map bound).getD data.length
  (data.take last).drop first

def select {α : Type} (test : α → Except Error Bool) : List α → Except Error (List α)
  | [] => .ok []
  | d :: data => do
      let keep ← test d
      let rest ← select test data
      return if keep then d :: rest else rest

section Apply

variable [DecidableEq φ] [LinearOrder ν] (containers : Containers ν)

def data_getter (d : Item φ ν) (fld : φ) : Except Error (Option ν) :=
  match d.lookup fld with
  | some value => .ok value
  | none => .error .KeyError

/-- The filters linked together, on one element. -/
def passes : List (Filter φ ν) → Item φ ν → Except Error Bool
  | [], _ => .ok true
  | filter :: rest, d => do
      let f ← filter.getOperator containers
      let value ← data_getter d filter.field
      if ← f value then passes rest d else return false

/-- Every filter has its operator, which `FieldBase.apply` looks up before it sees an element. -/
def operators : List (Filter φ ν) → Except Error Unit
  | [] => .ok ()
  | filter :: rest => do
      let _ ← filter.getOperator containers
      operators rest

def includeFields (fields : List φ) (d : Item φ ν) : Item φ ν :=
  if fields = [] then d else d.filter fun entry => entry.1 ∈ fields

def valueOf (d : Item φ ν) (fld : φ) : Option ν := (d.lookup fld).getD none

/-- `data.sort`, which calls `keyFunc` for every element. -/
def sort (order : List (Key φ)) (data : List (Item φ ν)) : Except Error (List (Item φ ν)) :=
  if data.all fun d => order.all fun k => (d.lookup k.field).isSome then
    .ok (data.insertionSort (Ordered valueOf order))
  else .error .KeyError

namespace ResultSpec

def apply (self : ResultSpec φ ν) (collection : Collection φ ν) : Except Error (ListResult φ ν) := do
  let (data, offset, total, limit) ← match collection with
    | .list data => .ok (data, none, none, none)
    | .paginated result =>
        if self.fields = [] ∧ self.order.isEmpty ∧ self.filters.isEmpty then
          .ok (result.data, result.offset, some result.total, result.limit)
        else .error Error.AssertionError
  operators containers self.filters
  let data ← select (passes containers self.filters) (data.map (includeFields self.fields))
  let total := total.getD data.length
  let data ← sort self.order data
  if self.offset.isSome ∨ self.limit.isSome then
    if offset.isSome ∨ limit.isSome then .error .AssertionError
    else
      let stop := self.limit.map fun limit => self.offset.getD 0 + limit
      return ⟨slice self.offset stop data, self.offset, total, self.limit⟩
  else return ⟨data, offset, total, limit⟩

end ResultSpec

end Apply

/-! ## Applying a spec in SQL -/

/-- Where the rows come from: the field mapping, the columns of the query, and the conversion of a row to a
dictionary, which has the value of a column under the field that is mapped to it. -/
structure Source (φ χ ν ρ : Type) [DecidableEq φ] where
  fieldMapping : φ → Option χ
  inner_columns : List χ
  column : ρ → χ → Option ν
  dictFromRow : ρ → Item φ ν
  carries : ∀ row field col, fieldMapping field = some col → (dictFromRow row).lookup field = some (column row col)

structure Query (χ ν : Type) where
  where_ : List (χ × (Option ν → Option Bool))
  order_by : List (Key χ)
  offset : Option Int
  limit : Option Int

namespace Source

variable [DecidableEq φ] [DecidableEq χ] [LinearOrder ν] (source : Source φ χ ν ρ) (database : Database ν)

def findColumn (field : φ) : Except Error χ :=
  match source.fieldMapping field with
  | none => .error .KeyError
  | some mapped => if mapped ∈ source.inner_columns then .ok mapped else .error .KeyError

def applyFilterToSQLQuery (query : Query χ ν) (f : Filter φ ν) : Except Error (Query χ ν) := do
  let col ← source.findColumn f.field
  let criterion ← f.getOperatorSql database
  return { query with where_ := query.where_ ++ [(col, criterion)] }

def applyOrderToSQLQuery (query : Query χ ν) (o : Key φ) : Except Error (Query χ ν) := do
  let col ← source.findColumn o.field
  return { query with order_by := query.order_by ++ [⟨col, o.reverse⟩] }

/-- The loop over the filters or over the keys: what the query cannot take is collected. -/
def applyAll {α : Type} (applyToQuery : Query χ ν → α → Except Error (Query χ ν)) :
    Query χ ν → List α → Except Error (Query χ ν × List α)
  | query, [] => .ok (query, [])
  | query, a :: rest =>
      match applyToQuery query a with
      | .ok query => applyAll applyToQuery query rest
      | .error .KeyError => do
          let (query, unmatched) ← applyAll applyToQuery query rest
          return (query, a :: unmatched)
      | .error error => .error error

/-- The rows that the query selects, in its order, before the offset and the limit. -/
def selected (query : Query χ ν) (table : List ρ) : List ρ :=
  (table.filter fun row => query.where_.all fun criterion => criterion.2 (source.column row criterion.1) = some true)
    |>.insertionSort (Ordered source.column query.order_by)

def fetchall (query : Query χ ν) (table : List ρ) : List ρ :=
  let rows := (source.selected query table).drop ((query.offset.map database.skipped).getD 0)
  match query.limit.bind database.taken with
  | some count => rows.take count
  | none => rows

/-- `applyToSQLQuery`, with what is left of the spec and with the query to count by. -/
def applyToSQLQuery (self : ResultSpec φ ν) :
    Except Error (ResultSpec φ ν × Query χ ν × Option (Query χ ν)) := do
  let query : Query χ ν := ⟨[], [], none, none⟩
  let (query, unmatched_filters) ← applyAll (source.applyFilterToSQLQuery database) query self.filters
  let (query, unmatched_order) ← applyAll source.applyOrderToSQLQuery query self.order
  if unmatched_filters.isEmpty ∧ unmatched_order.isEmpty then
    return ({ self with filters := [], order := [], offset := none, limit := none },
      { query with offset := self.offset, limit := self.limit }, some query)
  else return ({ self with filters := unmatched_filters, order := unmatched_order }, query, none)

/-- The truth value of an optional number. -/
def truthy : Option Int → Bool
  | none => false
  | some n => n ≠ 0

def thd_execute (self : ResultSpec φ ν) (table : List ρ) : Except Error (ResultSpec φ ν × Collection φ ν) := do
  let (left, query, count) ← source.applyToSQLQuery database self
  let rv := (source.fetchall database query table).map source.dictFromRow
  match count with
  | some count =>
      if truthy self.offset ∨ truthy self.limit then
        return (left, .paginated ⟨rv, self.offset, (source.selected count table).length, self.limit⟩)
      else return (left, .list rv)
  | none => return (left, .list rv)

/-- The endpoint's query, and then `apply` on what it has returned. -/
def executeAndApply (containers : Containers ν) (self : ResultSpec φ ν) (table : List ρ) :
    Except Error (ListResult φ ν) := do
  let (left, collection) ← source.thd_execute database self table
  left.apply containers collection

end Source

end Umbilical.Data
