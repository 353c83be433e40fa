import Umbilical.Data.Ordering

set_option autoImplicit false

/-!
# The SQL path and the Python path of a result spec

Where the filters that go to the database decide as their Python operators do, and
the keys that go there are the last ones of the order, the two paths give the same
items in the same order, and the same total.
-/

namespace Umbilical.Data

variable {φ χ ν ρ : Type} [DecidableEq φ] [LinearOrder ν]

/-! ## The filters and the order in Python -/

section Python

variable (containers : Containers ν)

/-- What a test decides, and nothing where it raises. -/
def decided {α : Type} (test : α → Except Error Bool) (d : α) : Option Bool := (test d).toOption

theorem select_of_decided {α : Type} {test : α → Except Error Bool} {data : List α}
    (all : ∀ d ∈ data, decided test d ≠ none) :
    select test data = .ok (data.filter fun d => decided test d = some true) := by
  induction data with
  | nil => rfl
  | cons d rest ih =>
    have later := ih fun e member => all e (List.mem_cons_of_mem d member)
    have now := all d List.mem_cons_self
    unfold decided at now
    cases keep : test d with
    | error e => simp [keep, Except.toOption] at now
    | ok keep' => cases keep' <;> simp [select, keep, later, decided, Except.toOption, bind, Except.bind, pure, Except.pure]

theorem select_of_raises {α : Type} {test : α → Except Error Bool} {data : List α} {d : α} (member : d ∈ data)
    (raises : decided test d = none) : (select test data).toOption = none := by
  induction data with
  | nil => simp at member
  | cons e rest ih =>
    cases keep : test e with
    | error error => simp [select, keep, bind, Except.bind, Except.toOption]
    | ok keep' =>
      rcases List.mem_cons.mp member with rfl | member
      · simp [decided, keep, Except.toOption] at raises
      · have later := ih member
        cases rest' : select test rest with
        | error error => simp [select, keep, rest', bind, Except.bind, Except.toOption]
        | ok data => simp [rest', Except.toOption] at later

/-- `apply` on a plain list, up to the slice: the total and the ordered data. -/
def pipeline (filters : List (Filter φ ν)) (fields : List φ) (order : List (Key φ)) (data : List (Item φ ν)) :
    Except Error (Nat × List (Item φ ν)) := do
  operators containers filters
  let data ← select (passes containers filters) (data.map (includeFields fields))
  let ordered ← sort order data
  return (data.length, ordered)

def paginate (offset limit : Option Int) (total : Nat) (data : List (Item φ ν)) : ListResult φ ν :=
  if offset.isSome ∨ limit.isSome then
    ⟨slice offset (limit.map fun limit => offset.getD 0 + limit) data, offset, total, limit⟩
  else ⟨data, none, total, none⟩

theorem apply_list (self : ResultSpec φ ν) (data : List (Item φ ν)) :
    self.apply containers (.list data) = (pipeline containers self.filters self.fields self.order data).map
      fun result => paginate self.offset self.limit result.1 result.2 := by
  unfold ResultSpec.apply pipeline paginate
  simp only [bind, Except.bind, pure, Except.pure, Except.map]
  cases operators containers self.filters with
  | error error => rfl
  | ok _ =>
    simp only
    cases select (passes containers self.filters) (data.map (includeFields self.fields)) with
    | error error => rfl
    | ok data =>
      simp only
      cases sort self.order data with
      | error error => rfl
      | ok ordered => by_cases paged : self.offset.isSome ∨ self.limit.isSome <;> simp [paged]

end Python

/-! ## What goes to the database -/

namespace Source

variable [DecidableEq χ] (source : Source φ χ ν ρ) (database : Database ν) (containers : Containers ν)

/-- What a filter becomes in the query. -/
def criterion (f : Filter φ ν) : Except Error (χ × (Option ν → Option Bool)) := do
  let col ← source.findColumn f.field
  let criterion ← f.getOperatorSql database
  return (col, criterion)

/-- What a key becomes in the query. -/
def columnKey (o : Key φ) : Except Error (Key χ) := do
  let col ← source.findColumn o.field
  return ⟨col, o.reverse⟩

def covers (o : Key φ) : Bool := (source.columnKey o).toOption.isSome

def takes (f : Filter φ ν) : Bool := (source.criterion database f).toOption.isSome

omit [LinearOrder ν] [DecidableEq χ] in
theorem applyAll_eq {α β : Type} {applyToQuery : Query χ ν → α → Except Error (Query χ ν)} (becomes : α → Except Error β)
    (add : Query χ ν → β → Query χ ν)
    (applies : ∀ query a, applyToQuery query a = (becomes a).map (add query)) {l : List α}
    (builds : ∀ a ∈ l, ∀ error, becomes a = .error error → error = .KeyError) (query : Query χ ν) :
    applyAll applyToQuery query l =
      .ok ((l.filterMap fun a => (becomes a).toOption).foldl add query,
        l.filter fun a => !(becomes a).toOption.isSome) := by
  induction l generalizing query with
  | nil => rfl
  | cons a rest ih =>
    have later := ih fun b member => builds b (List.mem_cons_of_mem a member)
    rw [applyAll, applies]
    cases becomes' : becomes a with
    | ok b => simp [Except.map, Except.toOption, becomes', later]
    | error error =>
      obtain rfl := builds a List.mem_cons_self error becomes'
      simp [Except.map, Except.toOption, becomes', later, bind, Except.bind, pure, Except.pure]

omit [LinearOrder ν] [DecidableEq χ] in
theorem foldl_filters (criteria : List (χ × (Option ν → Option Bool))) (query : Query χ ν) :
    criteria.foldl (fun query criterion => { query with where_ := query.where_ ++ [criterion] }) query =
      { query with where_ := query.where_ ++ criteria } := by
  induction criteria generalizing query with
  | nil => simp
  | cons criterion rest ih => simp [ih]

omit [LinearOrder ν] [DecidableEq χ] in
theorem foldl_order (keys : List (Key χ)) (query : Query χ ν) :
    keys.foldl (fun query key => { query with order_by := query.order_by ++ [key] }) query =
      { query with order_by := query.order_by ++ keys } := by
  induction keys generalizing query with
  | nil => simp
  | cons key rest ih => simp [ih]

omit [DecidableEq φ] in
/-- An SQL operator is missing from its table, or the query builder refuses `None`. -/
theorem getOperatorSql_error {database : Database ν} {f : Filter φ ν} {error : Error}
    (fails : f.getOperatorSql database = .error error) : error = .KeyError ∨ error = .ArgumentError := by
  unfold Filter.getOperatorSql at fails
  split at fails
  · rename_i v _
    cases op : f.op <;> cases v <;> simp [op, singular_operators_sql, compareSql] at fails <;> simp [← fails]
  · cases op : f.op <;> simp [op, plural_operators_sql] at fails <;> simp [← fails]

omit [LinearOrder ν] in
theorem findColumn_error {field : φ} {error : Error} (fails : source.findColumn field = .error error) :
    error = .KeyError := by
  unfold findColumn at fails
  split at fails
  · exact (Except.error.inj fails).symm
  · split at fails
    · exact absurd fails (by simp)
    · exact (Except.error.inj fails).symm

theorem applyFilters_eq (filters : List (Filter φ ν))
    (builds : ∀ f ∈ filters, source.criterion database f ≠ .error .ArgumentError) (query : Query χ ν) :
    applyAll (source.applyFilterToSQLQuery database) query filters =
      .ok ({ query with where_ := query.where_ ++ filters.filterMap fun f => (source.criterion database f).toOption },
        filters.filter fun f => !(source.criterion database f).toOption.isSome) := by
  rw [applyAll_eq (source.criterion database) (fun query criterion => { query with
    where_ := query.where_ ++ [criterion] }), foldl_filters]
  · intro query f
    unfold applyFilterToSQLQuery criterion
    cases source.findColumn f.field with
    | error error => rfl
    | ok col => cases f.getOperatorSql database <;> rfl
  · intro f member error fails
    have argument := builds f member
    unfold criterion at fails argument
    cases column : source.findColumn f.field with
    | error other =>
      rw [column] at fails
      exact (Except.error.inj fails) ▸ source.findColumn_error column
    | ok col =>
      rw [column] at fails argument
      cases op : f.getOperatorSql database with
      | ok operator => simp [op, bind, Except.bind, pure, Except.pure] at fails
      | error other =>
        obtain rfl : other = error := by simpa [op, bind, Except.bind] using fails
        rcases getOperatorSql_error op with key | argument'
        · exact key
        · simp [op, argument', bind, Except.bind] at argument

omit [LinearOrder ν] in
theorem applyOrder_eq (order : List (Key φ)) (query : Query χ ν) :
    applyAll source.applyOrderToSQLQuery query order =
      .ok ({ query with order_by := query.order_by ++ order.filterMap fun o => (source.columnKey o).toOption },
        order.filter fun o => !(source.columnKey o).toOption.isSome) := by
  rw [applyAll_eq source.columnKey (fun query key => { query with order_by := query.order_by ++ [key] }), foldl_order]
  · intro query o
    unfold applyOrderToSQLQuery columnKey
    cases source.findColumn o.field <;> rfl
  · intro o _ error fails
    unfold columnKey at fails
    cases column : source.findColumn o.field with
    | error other =>
      rw [column] at fails
      exact (Except.error.inj fails) ▸ source.findColumn_error column
    | ok col =>
      rw [column] at fails
      simp [bind, Except.bind, pure, Except.pure] at fails

/-- The query, without its offset and limit, that a spec becomes. -/
def queryOf (self : ResultSpec φ ν) : Query χ ν where
  where_ := self.filters.filterMap fun f => (source.criterion database f).toOption
  order_by := self.order.filterMap fun o => (source.columnKey o).toOption
  offset := none
  limit := none

/-- The filters that Python is left with. -/
def unmatched_filters (self : ResultSpec φ ν) : List (Filter φ ν) := self.filters.filter fun f => !source.takes database f

def unmatched_order (self : ResultSpec φ ν) : List (Key φ) := self.order.filter fun o => !source.covers o

theorem applyToSQLQuery_eq {self : ResultSpec φ ν}
    (builds : ∀ f ∈ self.filters, source.criterion database f ≠ .error .ArgumentError) :
    source.applyToSQLQuery database self =
      .ok (if (source.unmatched_filters database self).isEmpty ∧ (source.unmatched_order self).isEmpty then
        ({ self with filters := [], order := [], offset := none, limit := none },
          { source.queryOf database self with offset := self.offset, limit := self.limit },
          some (source.queryOf database self))
      else
        ({ self with filters := source.unmatched_filters database self, order := source.unmatched_order self },
          source.queryOf database self, none)) := by
  have filters := source.applyFilters_eq database self.filters builds ⟨[], [], none, none⟩
  have order := source.applyOrder_eq self.order
    ⟨self.filters.filterMap fun f => (source.criterion database f).toOption, [], none, none⟩
  unfold applyToSQLQuery
  simp only [List.nil_append] at filters order
  simp only [filters, order, bind, Except.bind, pure, Except.pure]
  unfold unmatched_filters unmatched_order takes covers
  split <;> rfl

/-! ## The agreement of the paths -/

/-- The row as Python gets to see it. -/
def item (self : ResultSpec φ ν) (row : ρ) : Item φ ν := includeFields self.fields (source.dictFromRow row)

/-- The row satisfies the criteria in the query. -/
def Kept (self : ResultSpec φ ν) (row : ρ) : Prop :=
  ∀ criterion ∈ (source.queryOf database self).where_, criterion.2 (source.column row criterion.1) = some true

instance (self : ResultSpec φ ν) (row : ρ) : Decidable (source.Kept database self row) :=
  inferInstanceAs (Decidable (∀ criterion ∈ (source.queryOf database self).where_,
    criterion.2 (source.column row criterion.1) = some true))

/-- When a spec, a field mapping and a table do not reach what the two paths do differently. -/
structure Agrees (spec : ResultSpec φ ν) (table : List ρ) : Prop where
  -- the query can be built
  builds : ∀ f ∈ spec.filters, source.criterion database f ≠ .error .ArgumentError
  -- the criteria in the query and the other filters in Python decide on a row as all the filters do in Python
  rows : ∀ row ∈ table, decided (passes containers spec.filters) (source.item spec row) =
    if source.Kept database spec row then
      decided (passes containers (source.unmatched_filters database spec)) (source.item spec row)
    else some false
  -- a key in the query is of a field that the items keep
  keys : ∀ o ∈ spec.order, source.covers o → spec.fields = [] ∨ o.field ∈ spec.fields
  -- the keys in the query are the last ones
  order : spec.order.Pairwise fun earlier later => source.covers earlier → source.covers later
  -- what the database slices, it slices as Python would
  nonnegative : (∀ f ∈ spec.filters, source.takes database f) → (∀ o ∈ spec.order, source.covers o) →
    (∀ offset ∈ spec.offset, 0 ≤ offset) ∧ ∀ limit ∈ spec.limit, 0 ≤ limit
  -- a ListResult has all its fields
  fields : (∀ f ∈ spec.filters, source.takes database f) → (∀ o ∈ spec.order, source.covers o) →
    truthy spec.offset ∨ truthy spec.limit → spec.fields = []
  -- a limit of zero without an offset is not counted in the database
  counted : (∀ f ∈ spec.filters, source.takes database f) → (∀ o ∈ spec.order, source.covers o) →
    spec.limit = some 0 → truthy spec.offset ∨ ∀ row ∈ table, ¬ source.Kept database spec row

/-- The same items in the same order, with the same total, or an exception both times. -/
def Same (first second : Except Error (ListResult φ ν)) : Prop :=
  first.toOption.map (fun result => (result.data, result.total)) =
    second.toOption.map fun result => (result.data, result.total)

section Parts

omit [DecidableEq φ] in
theorem getOperator_of_sql {database : Database ν} {containers : Containers ν} {f : Filter φ ν}
    {operator : Option ν → Option Bool} (known : f.getOperatorSql database = .ok operator) :
    ∃ operator, f.getOperator containers = .ok operator := by
  unfold Filter.getOperatorSql at known
  unfold Filter.getOperator
  split at known
  · exact ⟨_, rfl⟩
  · cases op : f.op <;> simp [op, plural_operators_sql] at known
    all_goals exact ⟨_, rfl⟩

omit [DecidableEq φ] in
theorem operators_eq_ok {containers : Containers ν} {filters : List (Filter φ ν)} :
    operators containers filters = .ok () ↔ ∀ f ∈ filters, ∃ operator, f.getOperator containers = .ok operator := by
  induction filters with
  | nil => simp [operators]
  | cons f rest ih =>
    rw [operators]
    cases known : f.getOperator containers with
    | error error => simp [known, bind, Except.bind]
    | ok operator => simpa [known, bind, Except.bind] using ih

variable {source : Source φ χ ν ρ} {database : Database ν} {containers : Containers ν} {self : ResultSpec φ ν}
  {table : List ρ}

/-- The operators that Python needs for all filters are there if those for the unmatched ones are. -/
theorem operators_unmatched :
    operators containers (source.unmatched_filters database self) = .ok () ↔
      operators containers self.filters = .ok () := by
  rw [operators_eq_ok, operators_eq_ok]
  refine ⟨fun all f member => ?_, fun all f member => all f (List.mem_of_mem_filter member)⟩
  by_cases taken : source.takes database f
  · unfold takes criterion at taken
    cases column : source.findColumn f.field with
    | error error => simp [column, bind, Except.bind, Except.toOption] at taken
    | ok col =>
      cases known : f.getOperatorSql database with
      | error error => simp [column, known, bind, Except.bind, Except.toOption] at taken
      | ok operator => exact getOperator_of_sql known
  · exact all f (List.mem_filter.mpr ⟨member, by simpa using taken⟩)

omit [LinearOrder ν] in
theorem lookup_includeFields {fields : List φ} {d : Item φ ν} {field : φ} (kept : fields = [] ∨ field ∈ fields) :
    (includeFields fields d).lookup field = d.lookup field := by
  unfold includeFields
  split
  · rfl
  · rename_i some
    have member := kept.resolve_left some
    induction d with
    | nil => rfl
    | cons entry rest ih =>
      obtain ⟨key, value⟩ := entry
      by_cases included : key ∈ fields
      · by_cases same : field = key
        · simp [included, same]
        · have other : (field == key) = false := by simpa using same
          simp only [included, decide_true, List.filter_cons_of_pos, List.lookup_cons, other]
          exact ih
      · have other : (field == key) = false := by
          simp only [beq_eq_false_iff_ne]
          rintro rfl
          exact included member
        simp only [included, decide_false, Bool.false_eq_true, not_false_eq_true, List.filter_cons_of_neg,
          List.lookup_cons, other]
        exact ih

/-- The rows that all the filters keep in Python. -/
def keptRows (source : Source φ χ ν ρ) (containers : Containers ν) (self : ResultSpec φ ν) (table : List ρ) : List ρ :=
  table.filter fun row => decided (passes containers self.filters) (source.item self row) = some true

theorem Agrees.selected (agrees : source.Agrees database containers self table) :
    (source.selected (source.queryOf database self) table).filter
        (fun row => decided (passes containers (source.unmatched_filters database self)) (source.item self row) = some true) =
      (keptRows source containers self table).insertionSort
        (Ordered source.column (source.queryOf database self).order_by) := by
  unfold Source.selected keptRows
  rw [StableSort.filter_insertionSort, List.filter_filter]
  congr 1
  refine List.filter_congr fun row member => ?_
  rw [agrees.rows row member]
  by_cases kept : source.Kept database self row
  · have all : ((source.queryOf database self).where_.all fun criterion =>
        criterion.2 (source.column row criterion.1) = some true) = true := by simpa [Kept] using kept
    simp [kept, all]
  · have all : ((source.queryOf database self).where_.all fun criterion =>
        criterion.2 (source.column row criterion.1) = some true) = false := by
      rw [Bool.eq_false_iff]
      intro all
      exact kept (by simpa [Kept] using all)
    simp [kept, all]

omit [LinearOrder ν] in
theorem columnKey_ok {o : Key φ} {key : Key χ} (column : source.columnKey o = .ok key) :
    key.reverse = o.reverse ∧ source.fieldMapping o.field = some key.field := by
  unfold columnKey at column
  cases found : source.findColumn o.field with
  | error error => simp [found, bind, Except.bind] at column
  | ok col =>
    obtain rfl : ⟨col, o.reverse⟩ = key := by simpa [found, bind, Except.bind, pure, Except.pure] using column
    unfold findColumn at found
    split at found
    · simp at found
    · rename_i mapped mapping
      split at found
      · exact ⟨rfl, mapping.trans (congrArg some (Except.ok.inj found))⟩
      · simp at found

/-- The columns that the query is ordered by hold the values of the keys. -/
theorem Agrees.ordered_columns (agrees : source.Agrees database containers self table) (first second : ρ) :
    Ordered source.column (source.queryOf database self).order_by first second ↔
      Ordered valueOf (self.order.filter source.covers) (source.item self first) (source.item self second) := by
  have same {order : List (Key φ)}
      (kept : ∀ o ∈ order, source.covers o → self.fields = [] ∨ o.field ∈ self.fields) :
      keyLt source.column (order.filterMap fun o => (source.columnKey o).toOption) second first =
        keyLt valueOf (order.filter source.covers) (source.item self second) (source.item self first) := by
    induction order with
    | nil => rfl
    | cons o rest ih =>
      have later := ih fun other member => kept other (List.mem_cons_of_mem o member)
      cases column : source.columnKey o with
      | error error =>
        have nothing : (source.columnKey o).toOption = none := by rw [column]; rfl
        have uncovered : ¬ source.covers o := by simp [covers, nothing]
        rw [List.filter_cons_of_neg uncovered]
        simpa only [List.filterMap_cons, nothing] using later
      | ok key =>
        have found : (source.columnKey o).toOption = some key := by rw [column]; rfl
        have covered : source.covers o := by simp [covers, found]
        obtain ⟨reversed, mapped⟩ := columnKey_ok column
        have here (row : ρ) : valueOf (source.item self row) o.field = source.column row key.field := by
          unfold valueOf item
          rw [lookup_includeFields (kept o List.mem_cons_self covered), source.carries row o.field key.field mapped]
          rfl
        rw [List.filter_cons_of_pos covered]
        simp only [List.filterMap_cons, found, keyLt, here, reversed, later]
  unfold Ordered
  rw [← same agrees.keys]
  rfl

theorem filter_split {α : Type} {p : α → Bool} {l : List α} (last : l.Pairwise fun a b => p a → p b) :
    l.filter (fun a => !p a) ++ l.filter p = l := by
  induction l with
  | nil => rfl
  | cons a rest ih =>
    obtain ⟨first, later⟩ := List.pairwise_cons.mp last
    by_cases now : p a
    · have all : ∀ b ∈ rest, p b = true := fun b member => first b member now
      have none : rest.filter (fun b => !p b) = [] := List.filter_eq_nil_iff.mpr fun b member => by simp [all b member]
      simp [now, none, List.filter_eq_self.mpr all]
    · simp [now, ih later]

/-- Sorted by the database and then by Python, as Python alone sorts it. -/
theorem Agrees.sorted (agrees : source.Agrees database containers self table) (rows : List ρ) :
    ((rows.insertionSort (Ordered source.column (source.queryOf database self).order_by)).map (source.item self)
      |>.insertionSort (Ordered valueOf (source.unmatched_order self))) =
      (rows.map (source.item self)).insertionSort (Ordered valueOf self.order) := by
  rw [List.map_insertionSort _ _ (source.item self) rows fun a _ b _ => agrees.ordered_columns a b,
    insertionSort_append]
  have whole : source.unmatched_order self ++ self.order.filter source.covers = self.order := filter_split agrees.order
  rw [whole]

/-- A key in the query is in every item, so Python misses only the others. -/
theorem Agrees.present (agrees : source.Agrees database containers self table) (row : ρ) :
    (self.order.all fun o => ((source.item self row).lookup o.field).isSome) =
      (source.unmatched_order self).all fun o => ((source.item self row).lookup o.field).isSome := by
  rw [Bool.eq_iff_iff, List.all_eq_true, List.all_eq_true]
  refine ⟨fun all o member => all o (List.mem_of_mem_filter member), fun all o member => ?_⟩
  by_cases covered : source.covers o
  · cases column : source.columnKey o with
    | error error => simp [covers, column, Except.toOption] at covered
    | ok key =>
      unfold item
      rw [lookup_includeFields (agrees.keys o member covered),
        source.carries row o.field key.field (columnKey_ok column).2]
      rfl
  · exact all o (List.mem_filter.mpr ⟨member, by simpa using covered⟩)

theorem Agrees.sort (agrees : source.Agrees database containers self table) (rows : List ρ) :
    Data.sort (source.unmatched_order self)
        ((rows.insertionSort (Ordered source.column (source.queryOf database self).order_by)).map (source.item self)) =
      Data.sort self.order (rows.map (source.item self)) := by
  unfold Data.sort
  rw [agrees.sorted]
  have same : (((rows.insertionSort (Ordered source.column (source.queryOf database self).order_by)).map
        (source.item self)).all fun d => (source.unmatched_order self).all fun o => (d.lookup o.field).isSome) =
      ((rows.map (source.item self)).all fun d => self.order.all fun o => (d.lookup o.field).isSome) := by
    rw [Bool.eq_iff_iff, List.all_map, List.all_map, List.all_eq_true, List.all_eq_true]
    simp only [List.mem_insertionSort, Function.comp, agrees.present]
  rw [same]

theorem pipeline_of_missing {filters : List (Filter φ ν)} (missing : operators containers filters ≠ .ok ())
    (fields : List φ) (order : List (Key φ)) (data : List (Item φ ν)) :
    (pipeline containers filters fields order data).toOption = none := by
  unfold pipeline
  cases known : operators containers filters with
  | ok _ => exact absurd known missing
  | error error => rfl

theorem pipeline_of_raises {filters : List (Filter φ ν)} {fields : List φ} {data : List (Item φ ν)} {d : Item φ ν}
    (member : d ∈ data.map (includeFields fields)) (raises : decided (passes containers filters) d = none)
    (order : List (Key φ)) : (pipeline containers filters fields order data).toOption = none := by
  have fails := select_of_raises member raises
  unfold pipeline
  cases operators containers filters with
  | error error => rfl
  | ok _ =>
    cases selected : select (passes containers filters) (data.map (includeFields fields)) with
    | ok data => simp [selected, Except.toOption] at fails
    | error error => rfl

theorem pipeline_of_decided {filters : List (Filter φ ν)} {fields : List φ} {data : List (Item φ ν)}
    (known : operators containers filters = .ok ())
    (all : ∀ d ∈ data.map (includeFields fields), decided (passes containers filters) d ≠ none) (order : List (Key φ)) :
    pipeline containers filters fields order data =
      (Data.sort order ((data.map (includeFields fields)).filter fun d =>
        decided (passes containers filters) d = some true)).map fun ordered =>
          (((data.map (includeFields fields)).filter fun d => decided (passes containers filters) d = some true).length,
            ordered) := by
  unfold pipeline
  rw [known, select_of_decided all]
  rfl

/-- The rest of the spec on what the database selects gives what the spec gives on all rows. -/
theorem Agrees.pipeline (agrees : source.Agrees database containers self table) :
    (Data.pipeline containers (source.unmatched_filters database self) self.fields (source.unmatched_order self)
        ((source.selected (source.queryOf database self) table).map source.dictFromRow)).toOption =
      (Data.pipeline containers self.filters self.fields self.order (table.map source.dictFromRow)).toOption := by
  have listed {row : ρ} : row ∈ source.selected (source.queryOf database self) table ↔
      row ∈ table ∧ source.Kept database self row := by
    simp [Source.selected, Kept]
  by_cases known : operators containers self.filters = .ok ()
  swap
  · rw [pipeline_of_missing known, pipeline_of_missing fun ok => known (operators_unmatched.mp ok)]
  by_cases all : ∀ row ∈ table, decided (passes containers self.filters) (source.item self row) ≠ none
  · have python : ∀ d ∈ (table.map source.dictFromRow).map (includeFields self.fields),
        decided (passes containers self.filters) d ≠ none := by
      rw [List.map_map]
      exact List.forall_mem_map.mpr all
    have sql : ∀ d ∈ ((source.selected (source.queryOf database self) table).map source.dictFromRow).map
        (includeFields self.fields), decided (passes containers (source.unmatched_filters database self)) d ≠ none := by
      rw [List.map_map]
      refine List.forall_mem_map.mpr fun row member => ?_
      obtain ⟨present, kept⟩ := listed.mp member
      have agreed := agrees.rows row present
      rw [if_pos kept] at agreed
      exact agreed ▸ all row present
    rw [pipeline_of_decided known python, pipeline_of_decided (operators_unmatched.mpr known) sql]
    simp only [List.map_map]
    have items (rows : List ρ) (test : Item φ ν → Bool) : (rows.map (includeFields self.fields ∘ source.dictFromRow)).filter
        test = (rows.filter fun row => test (source.item self row)).map (source.item self) := List.filter_map
    rw [items, items, agrees.selected]
    change (Except.map _ (Data.sort _ ((List.insertionSort _ (keptRows source containers self table)).map _))).toOption =
      (Except.map _ (Data.sort _ ((keptRows source containers self table).map _))).toOption
    rw [agrees.sort]
    simp only [List.length_map, List.length_insertionSort]
    rfl
  · -- Python raises on a row that the query lets through
    simp only [not_forall] at all
    obtain ⟨row, member, raises⟩ := all
    have raises : decided (passes containers self.filters) (source.item self row) = none := by simpa using raises
    have agreed := agrees.rows row member
    have kept : source.Kept database self row := by
      by_contra dropped
      rw [if_neg dropped, raises] at agreed
      exact absurd agreed (by simp)
    rw [if_pos kept, raises] at agreed
    have present := listed.mpr ⟨member, kept⟩
    rw [pipeline_of_raises (List.mem_map_of_mem (List.mem_map_of_mem present)) agreed.symm,
      pipeline_of_raises (List.mem_map_of_mem (List.mem_map_of_mem member)) raises]

omit [DecidableEq φ] [LinearOrder ν] in
/-- What `slice` takes with bounds that are not negative. -/
theorem slice_eq {α : Type} {offset limit : Option Int} (start : ∀ n ∈ offset, 0 ≤ n) (count : ∀ n ∈ limit, 0 ≤ n)
    (l : List α) : slice offset (limit.map fun limit => offset.getD 0 + limit) l =
      match limit with
      | none => l.drop (offset.getD 0).toNat
      | some n => (l.drop (offset.getD 0).toNat).take n.toNat := by
  have first : (offset.map fun i => if i < 0 then (i + (l.length : Int)).toNat else i.toNat).getD 0 =
      (offset.getD 0).toNat := by
    cases offset with
    | none => rfl
    | some n =>
      have nonneg := start n rfl
      simp [Int.not_lt.mpr nonneg]
  unfold slice
  simp only [first]
  cases limit with
  | none => simp
  | some n =>
    have nonneg := count n rfl
    have begin_ : 0 ≤ offset.getD 0 := by
      cases offset with
      | none => exact Int.le_refl 0
      | some m => exact start m rfl
    have sum : ¬ offset.getD 0 + n < 0 := by omega
    simp only [Option.map_some, sum, if_false, Option.getD_some]
    rw [List.drop_take]
    congr 1
    omega

omit [DecidableEq χ] in
/-- The database slices what it selects as Python does. -/
theorem fetchall_eq {offset limit : Option Int} (start : ∀ n ∈ offset, 0 ≤ n) (count : ∀ n ∈ limit, 0 ≤ n)
    (query : Query χ ν) (table : List ρ) :
    source.fetchall database { query with offset := offset, limit := limit } table =
      slice offset (limit.map fun limit => offset.getD 0 + limit) (source.selected query table) := by
  have skipped : (offset.map database.skipped).getD 0 = (offset.getD 0).toNat := by
    cases offset with
    | none => rfl
    | some n => exact database.skipped_nonneg n (start n rfl)
  rw [slice_eq start count]
  unfold fetchall
  simp only [skipped]
  cases limit with
  | none => rfl
  | some n => simp only [Option.bind_some, database.taken_nonneg n (count n rfl)]; rfl

omit [LinearOrder ν] in
theorem map_slice {α β : Type} (f : α → β) (start stop : Option Int) (l : List α) :
    (slice start stop l).map f = slice start stop (l.map f) := by
  simp [slice, List.map_take, List.map_drop]

/-- Nothing is left to do in Python. -/
theorem pipeline_nothing (fields : List φ) (data : List (Item φ ν)) :
    Data.pipeline containers [] fields [] data = .ok (data.length, data.map (includeFields fields)) := by
  have kept : (data.map (includeFields fields)).filter (fun d => decided (passes containers []) d = some true) =
      data.map (includeFields fields) := List.filter_eq_self.mpr fun d _ => by simp [decided, passes, Except.toOption]
  rw [pipeline_of_decided rfl fun d _ => by simp [decided, passes, Except.toOption], kept]
  simp [Data.sort, insertionSort_nil_order, Except.map]

theorem apply_paginated (result : ListResult φ ν) :
    (⟨[], [], [], none, none⟩ : ResultSpec φ ν).apply containers (.paginated result) = .ok result := by
  have kept : result.data.map (includeFields ([] : List φ)) = result.data := by
    have same : includeFields ([] : List φ) = (id : Item φ ν → Item φ ν) := rfl
    rw [same, List.map_id]
  have all : select (passes containers []) result.data =
      .ok (result.data.filter fun d => decided (passes containers []) d = some true) :=
    select_of_decided fun d _ => by simp [decided, passes, Except.toOption]
  have every : result.data.filter (fun d => decided (passes containers []) d = some true) = result.data :=
    List.filter_eq_self.mpr fun d _ => by simp [decided, passes, Except.toOption]
  rw [every] at all
  simp [ResultSpec.apply, operators, kept, all, Data.sort, insertionSort_nil_order, bind, Except.bind, pure, Except.pure]

omit [DecidableEq φ] [LinearOrder ν] in
theorem paginate_data (offset limit : Option Int) (total : Nat) (data : List (Item φ ν)) :
    (paginate offset limit total data).data = slice offset (limit.map fun limit => offset.getD 0 + limit) data := by
  unfold paginate
  split
  · rfl
  · rename_i neither
    have both : offset = none ∧ limit = none := by simpa using neither
    simp [both, slice]

omit [DecidableEq φ] [LinearOrder ν] in
theorem paginate_total (offset limit : Option Int) (total : Nat) (data : List (Item φ ν)) :
    (paginate offset limit total data).total = total := by
  unfold paginate
  split <;> rfl

omit [DecidableEq φ] [LinearOrder ν] in
/-- An offset and a limit that are not true take everything, or nothing of nothing. -/
theorem slice_untruthy {α : Type} {offset limit : Option Int} (neither : ¬ (truthy offset ∨ truthy limit)) {l : List α}
    (empty : limit = some 0 → l = []) : slice offset (limit.map fun limit => offset.getD 0 + limit) l = l := by
  have zero {bound : Option Int} (falsy : ¬ truthy bound) : bound = none ∨ bound = some 0 := by
    cases bound with
    | none => exact .inl rfl
    | some n => exact .inr (by simpa [truthy] using falsy)
  obtain ⟨first, second⟩ := not_or.mp neither
  rcases zero second with rfl | rfl
  · rcases zero first with rfl | rfl <;> simp [slice]
  · rw [empty rfl]
    simp [slice]

end Parts

section Filters

variable {source : Source φ χ ν ρ} {database : Database ν} {containers : Containers ν}

/-- One filter on one element. -/
def holds (containers : Containers ν) (f : Filter φ ν) (d : Item φ ν) : Except Error Bool := do
  let operator ← f.getOperator containers
  let value ← data_getter d f.field
  operator value

theorem decided_passes_cons (f : Filter φ ν) (rest : List (Filter φ ν)) (d : Item φ ν) {keep : Bool}
    (verdict : holds containers f d = .ok keep) : decided (passes containers (f :: rest)) d =
      if keep then decided (passes containers rest) d else some false := by
  have step : passes containers (f :: rest) d = if keep then passes containers rest d else .ok false := by
    unfold holds at verdict
    rw [passes]
    cases known : f.getOperator containers with
    | error error => simp [known, bind, Except.bind] at verdict
    | ok operator =>
      cases value : data_getter d f.field with
      | error error => simp [known, value, bind, Except.bind] at verdict
      | ok got =>
        have here : operator got = .ok keep := by simpa [known, value, bind, Except.bind] using verdict
        simp [bind, Except.bind, here, pure, Except.pure]
  unfold decided
  rw [step]
  cases keep <;> rfl

/-- Filters whose criteria in the query decide on a row as their Python operators do, none of which raises, decide
together as they all do in Python. -/
theorem decided_rows {self : ResultSpec φ ν} {row : ρ}
    (agree : ∀ f ∈ self.filters, ∃ keep, holds containers f (source.item self row) = .ok keep ∧
      ∀ criterion, source.criterion database f = .ok criterion →
        (criterion.2 (source.column row criterion.1) = some true ↔ keep = true)) :
    decided (passes containers self.filters) (source.item self row) =
      if source.Kept database self row then
        decided (passes containers (source.unmatched_filters database self)) (source.item self row)
      else some false := by
  have all {filters : List (Filter φ ν)} (agree : ∀ f ∈ filters, ∃ keep,
      holds containers f (source.item self row) = .ok keep ∧ ∀ criterion, source.criterion database f = .ok criterion →
        (criterion.2 (source.column row criterion.1) = some true ↔ keep = true)) :
      decided (passes containers filters) (source.item self row) =
        if ∀ criterion ∈ filters.filterMap fun f => (source.criterion database f).toOption,
          criterion.2 (source.column row criterion.1) = some true then
          decided (passes containers (filters.filter fun f => !source.takes database f)) (source.item self row)
        else some false := by
    induction filters with
    | nil => simp
    | cons f rest ih =>
      have later := ih fun other member => agree other (List.mem_cons_of_mem f member)
      obtain ⟨keep, verdict, same⟩ := agree f List.mem_cons_self
      rw [decided_passes_cons f rest _ verdict, later]
      cases becomes : source.criterion database f with
      | error error =>
        -- the filter is left to Python, which comes to it after the query
        have nothing : (source.criterion database f).toOption = none := by rw [becomes]; rfl
        have python : source.takes database f = false := by simp [takes, nothing]
        simp only [List.filterMap_cons, nothing, List.filter_cons, python, Bool.not_false, if_true,
          decided_passes_cons f _ _ verdict]
        cases keep <;> simp
      | ok criterion =>
        have found : (source.criterion database f).toOption = some criterion := by rw [becomes]; rfl
        have sql : source.takes database f = true := by simp [takes, found]
        simp only [List.filterMap_cons, found, List.filter_cons, sql, Bool.not_true, Bool.false_eq_true, if_false,
          List.forall_mem_cons, same criterion becomes]
        by_cases others : ∀ criterion ∈ rest.filterMap fun f => (source.criterion database f).toOption,
          criterion.2 (source.column row criterion.1) = some true
        · rw [if_pos others]
          cases keep
          · rw [if_neg (by simp), if_neg (by simp)]
          · rw [if_pos rfl, if_pos ⟨rfl, others⟩]
        · have neither : ¬ (keep = true ∧ ∀ criterion ∈ rest.filterMap fun f => (source.criterion database f).toOption,
              criterion.2 (source.column row criterion.1) = some true) := fun both => others both.2
          rw [if_neg others, if_neg neither, ite_self]
  exact all agree

omit [DecidableEq φ] in
/-- On a value that is not `NULL`, with values that are not, every operator but `contains` agrees with its twin. -/
theorem operators_agree {f : Filter φ ν} (kind : f.op ≠ .contains) (known : none ∉ f.values)
    {criterion : Option ν → Option Bool} (sql : f.getOperatorSql database = .ok criterion) (d : ν) :
    ∃ operator keep, f.getOperator containers = .ok operator ∧ operator (some d) = .ok keep ∧
      (criterion (some d) = some true ↔ keep = true) := by
  have member (v : List (Option ν)) (present : none ∉ v) : in_ v (some d) = some (decide (some d ∈ v)) := by
    unfold in_
    by_cases empty : v = []
    · simp [empty]
    · by_cases found : some d ∈ v <;> simp [empty, found, present]
  unfold Filter.getOperatorSql at sql
  unfold Filter.getOperator
  split at sql
  · rename_i v single
    rw [single] at known
    obtain ⟨v, rfl⟩ := Option.ne_none_iff_exists'.mp fun absent => known (absent ▸ List.mem_cons_self)
    cases op : f.op <;> simp [op, singular_operators_sql, compareSql] at sql kind
    all_goals
      subst sql
      refine ⟨_, _, rfl, rfl, ?_⟩
      simp [notin_, member [some v] (by simp)]
  · rename_i several
    cases op : f.op <;> simp [op, plural_operators_sql] at sql kind
    all_goals
      subst sql
      refine ⟨_, _, rfl, rfl, ?_⟩
      simp [notin_, member f.values known]

end Filters

/-! ## Runs on fixed inputs -/

/-- Rows of two columns, of which the field mapping covers the first. -/
def builds : Source String String Nat (Option Nat × Option Nat) where
  fieldMapping field := if field = "complete_at" then some "builds.complete_at" else none
  inner_columns := ["builds.complete_at", "builds.results"]
  column row _ := row.1
  dictFromRow row := [("complete_at", row.1), ("results", row.2)]
  carries row field col mapped := by
    split at mapped
    · rename_i same
      simp [same]
    · simp at mapped

def sqlite : Database Nat where
  like := fun _ _ => false
  skipped := Int.toNat
  taken limit := if limit < 0 then none else some limit.toNat
  skipped_nonneg _ _ := rfl
  taken_nonneg limit nonneg := by simp [Int.not_lt.mpr nonneg]

def numbers : Containers Nat where
  contains _ _ := none
  iterate _ := none

instance (first second : Except Error (ListResult String Nat)) : Decidable (Same first second) :=
  inferInstanceAs (Decidable (_ = _))

/-- Both paths, for a spec on the rows of `builds`. -/
def SameForBuilds (self : ResultSpec String Nat) (table : List (Option Nat × Option Nat)) : Prop :=
  Same (builds.executeAndApply sqlite numbers self table) (self.apply numbers (.list (table.map builds.dictFromRow)))

instance (self : ResultSpec String Nat) (table : List (Option Nat × Option Nat)) : Decidable (SameForBuilds self table) :=
  inferInstanceAs (Decidable (Same _ _))

/-- The completed builds with a result other than 2, by the result and then the latest first: two at most. -/
def latest : ResultSpec String Nat where
  filters := [⟨"complete_at", .gt, [some 0]⟩, ⟨"results", .ne, [some 2]⟩]
  fields := []
  order := [⟨"results", false⟩, ⟨"complete_at", true⟩]
  limit := some 2
  offset := some 0

end Source

end Umbilical.Data
