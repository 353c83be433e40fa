import Umbilical.Data.Collections
import Umbilical.Data.Equivalence
import Umbilical.Shared.JoinedRows

set_option autoImplicit false

/-!
# Pages of a collection

Between the query and what `apply` does in Python the list of rows is changed once more.
A spec that goes to the database as a whole has been paginated by then, so its page is
right only where there is nothing to cut off.
-/

namespace Umbilical.Data

open JoinedRows Dictionary

variable {φ χ ν ρ : Type} [DecidableEq φ] [LinearOrder ν]

/-- The same items in the same order with the same total, or an exception both times. -/
def Answered (answer : Except Failure (ListResult φ ν)) (expected : Except Error (ListResult φ ν)) : Prop :=
  answer.toOption.map (fun result => (result.data, result.total)) =
    expected.toOption.map fun result => (result.data, result.total)

instance [DecidableEq ν] (answer : Except Failure (ListResult φ ν)) (expected : Except Error (ListResult φ ν)) :
    Decidable (Answered answer expected) := inferInstanceAs (Decidable (_ = _))

/-- Nothing is skipped, and so many are not too many. -/
def Whole (offset limit : Option Int) (count : Nat) : Prop := offset.getD 0 = 0 ∧ ∀ n ∈ limit, (count : Int) ≤ n

section Slices

variable {offset limit : Option Int}

omit [DecidableEq φ] [LinearOrder ν] in
theorem slice_nil {α : Type} : slice offset (limit.map fun limit => offset.getD 0 + limit) ([] : List α) = [] := by
  simp [slice]

/-- A slice is everything when nothing is cut off. -/
theorem length_slice {α : Type} (start : ∀ n ∈ offset, 0 ≤ n) (count : ∀ n ∈ limit, 0 ≤ n) {l : List α} (some_ : l ≠ []) :
    (slice offset (limit.map fun limit => offset.getD 0 + limit) l).length = l.length ↔ Whole offset limit l.length := by
  have positive : 0 < l.length := List.length_pos_iff.mpr some_
  have begin_ : 0 ≤ offset.getD 0 := by
    cases offset with
    | none => exact Int.le_refl 0
    | some m => exact start m rfl
  rw [Source.slice_eq start count, Whole]
  cases limit with
  | none =>
    simp only [List.length_drop, Option.mem_def, reduceCtorEq, false_implies, implies_true, and_true]
    omega
  | some n =>
    have nonneg := count n rfl
    simp only [List.length_take, List.length_drop, Option.mem_def, Option.some.injEq, forall_eq']
    omega

theorem slice_whole {α : Type} (start : ∀ n ∈ offset, 0 ≤ n) (count : ∀ n ∈ limit, 0 ≤ n) {l : List α}
    (whole : Whole offset limit l.length) : slice offset (limit.map fun limit => offset.getD 0 + limit) l = l := by
  rw [Source.slice_eq start count]
  cases limit with
  | none => simp [whole.1]
  | some n =>
    have enough := whole.2 n rfl
    have all : l.length ≤ n.toNat := by omega
    simp [whole.1, List.take_of_length_le all]

/-- The page of rows has all records once, and all that the page of records has, when it reaches the last one. -/
theorem page_of_repeated {α β κ : Type} [DecidableEq κ] {key : α → κ} {copies : α → Nat} {item : α → β}
    (start : ∀ n ∈ offset, 0 ≤ n) (count : ∀ n ∈ limit, 0 ≤ n) {records : List α}
    (distinct : Keyed.Distinct key records) (some_ : ∀ record ∈ records, copies record ≠ 0)
    (injective : ∀ a b, item a = item b → key a = key b) {page : List α}
    (cut : page = dictOf key (slice offset (limit.map fun limit => offset.getD 0 + limit) (repeated copies records))) :
    (page.map item = slice offset (limit.map fun limit => offset.getD 0 + limit) (records.map item) ∧
        page.length = records.length) ↔
      records = [] ∨ Whole offset limit (reach copies records) := by
  have within : ∀ record ∈ page, record ∈ records := by
    intro record member
    rw [cut] at member
    have row : record ∈ repeated copies records := by
      have sliced := mem_dictOf member
      unfold slice at sliced
      exact List.mem_of_mem_take (List.mem_of_mem_drop sliced)
    exact (mem_repeated.mp row).1
  constructor
  · rintro ⟨items, total⟩
    by_cases empty : records = []
    · exact .inl empty
    · right
      have mapped : records.map item ≠ [] := by simpa using empty
      have whole : Whole offset limit records.length := by
        have sliced := (length_slice start count mapped).mp (by rw [← items, List.length_map, total, List.length_map])
        rwa [List.length_map] at sliced
      refine ⟨whole.1, fun n given => ?_⟩
      rw [slice_whole start count (by rwa [List.length_map])] at items
      obtain ⟨front, last, rfl⟩ := (List.eq_nil_or_concat records).resolve_left empty
      simp only [List.concat_eq_append] at distinct within items cut ⊢
      -- the last record has a row on the page
      have present : last ∈ page := by
        have listed : item last ∈ page.map item := by
          rw [items]
          simp
        obtain ⟨other, member, same⟩ := List.mem_map.mp listed
        rwa [← distinct.eq_of_key (within other member) (by simp) (injective _ _ same)]
      obtain rfl : limit = some n := given
      rw [cut, Source.slice_eq start count, whole.1] at present
      have row := mem_dictOf present
      have fresh : last ∉ front := by
        unfold Keyed.Distinct at distinct
        rw [List.map_append, List.nodup_append] at distinct
        exact fun again => distinct.2.2 _ (List.mem_map_of_mem again) _ (by simp) rfl
      have reached := reach_le fresh row
      have nonneg := count n rfl
      omega
  · intro whole
    have all : page = records := by
      rw [cut]
      rcases whole with rfl | whole
      · simp [slice, dictOf]
      · rw [Source.slice_eq start count, whole.1]
        cases limit with
        | none => exact dictOf_repeated distinct some_
        | some n =>
          have enough := whole.2 n rfl
          exact dictOf_take distinct some_ (.inr (by omega))
    rw [all]
    refine ⟨?_, rfl⟩
    rcases whole with rfl | ⟨first, reached⟩
    · simp [slice]
    · -- what reaches the last record is no less than the number of records
      have less := length_le_reach some_
      refine (slice_whole start count ⟨first, fun n given => ?_⟩).symm
      have enough := reached n given
      rw [List.length_map]
      omega

end Slices

/-! ## The rows that the filters keep -/

section Rows

variable {containers : Containers ν} {filters remaining : List (Filter φ ν)} {item : ρ → Item φ ν} {rows : List ρ}

omit [LinearOrder ν] in
theorem map_includeFields_nil (data : List (Item φ ν)) : data.map (includeFields []) = data := by
  have same : includeFields ([] : List φ) = (id : Item φ ν → Item φ ν) := rfl
  rw [same, List.map_id]

/-- Rows that are dropped before may be left out of what Python decides. -/
theorem pipeline_of_rows {keep : ρ → Bool}
    (known : operators containers remaining = .ok () ↔ operators containers filters = .ok ())
    (agree : ∀ row ∈ rows, decided (passes containers filters) (item row) =
      if keep row then decided (passes containers remaining) (item row) else some false) (order : List (Key φ)) :
    (pipeline containers filters [] order (rows.map item)).toOption =
      (pipeline containers remaining [] order ((rows.filter keep).map item)).toOption := by
  by_cases defined : operators containers filters = .ok ()
  swap
  · rw [Source.pipeline_of_missing defined, Source.pipeline_of_missing fun ok => defined (known.mp ok)]
  by_cases all : ∀ row ∈ rows, decided (passes containers filters) (item row) ≠ none
  · have before : ∀ d ∈ (rows.map item).map (includeFields []), decided (passes containers filters) d ≠ none := by
      rw [map_includeFields_nil]
      exact List.forall_mem_map.mpr all
    have after : ∀ d ∈ ((rows.filter keep).map item).map (includeFields []),
        decided (passes containers remaining) d ≠ none := by
      rw [map_includeFields_nil]
      refine List.forall_mem_map.mpr fun row member => ?_
      obtain ⟨present, kept⟩ := List.mem_filter.mp member
      have agreed := agree row present
      rw [if_pos kept] at agreed
      exact agreed ▸ all row present
    rw [Source.pipeline_of_decided defined before, Source.pipeline_of_decided (known.mpr defined) after]
    have same : (rows.map item).filter (fun d => decided (passes containers filters) d = some true) =
        ((rows.filter keep).map item).filter fun d => decided (passes containers remaining) d = some true := by
      rw [List.filter_map, List.filter_map, List.filter_filter]
      congr 1
      refine List.filter_congr fun row member => ?_
      have agreed := agree row member
      by_cases kept : keep row <;> simp [Function.comp, agreed, kept]
    simp only [map_includeFields_nil, same]
  · -- Python raises on a row that is not dropped
    simp only [not_forall] at all
    obtain ⟨row, member, raises⟩ := all
    have raises : decided (passes containers filters) (item row) = none := by simpa using raises
    have agreed := agree row member
    have kept : keep row = true := by
      by_contra dropped
      rw [if_neg dropped, raises] at agreed
      exact absurd agreed (by simp)
    rw [if_pos kept, raises] at agreed
    have inside : item row ∈ ((rows.filter keep).map item).map (includeFields []) := by
      rw [map_includeFields_nil]
      exact List.mem_map_of_mem (List.mem_filter.mpr ⟨member, kept⟩)
    have outside : item row ∈ (rows.map item).map (includeFields []) := by
      rw [map_includeFields_nil]
      exact List.mem_map_of_mem member
    rw [Source.pipeline_of_raises inside agreed.symm, Source.pipeline_of_raises outside raises]

/-- Two lists of the same items, of which the filters keep lists that sort alike. -/
theorem pipeline_congr {first second : List (Item φ ν)} {order order' : List (Key φ)}
    (members : ∀ d, d ∈ first ↔ d ∈ second)
    (total : (first.filter fun d => decided (passes containers filters) d = some true).length =
      (second.filter fun d => decided (passes containers filters) d = some true).length)
    (sorted : sort order (first.filter fun d => decided (passes containers filters) d = some true) =
      sort order' (second.filter fun d => decided (passes containers filters) d = some true)) :
    (pipeline containers filters [] order first).toOption = (pipeline containers filters [] order' second).toOption := by
  by_cases defined : operators containers filters = .ok ()
  swap
  · rw [Source.pipeline_of_missing defined, Source.pipeline_of_missing defined]
  by_cases all : ∀ d ∈ first, decided (passes containers filters) d ≠ none
  · have here : ∀ d ∈ first.map (includeFields []), decided (passes containers filters) d ≠ none := by
      rwa [map_includeFields_nil]
    have there : ∀ d ∈ second.map (includeFields []), decided (passes containers filters) d ≠ none := by
      rw [map_includeFields_nil]
      exact fun d member => all d ((members d).mpr member)
    rw [Source.pipeline_of_decided defined here, Source.pipeline_of_decided defined there]
    simp only [map_includeFields_nil, sorted, total]
  · simp only [not_forall] at all
    obtain ⟨d, member, raises⟩ := all
    have raises : decided (passes containers filters) d = none := by simpa using raises
    have here : d ∈ first.map (includeFields []) := by rwa [map_includeFields_nil]
    have there : d ∈ second.map (includeFields []) := by rwa [map_includeFields_nil, ← members]
    rw [Source.pipeline_of_raises here raises, Source.pipeline_of_raises there raises]

end Rows

/-! ## What the database has sorted -/

namespace Source

variable [DecidableEq χ] (source : Source φ χ ν ρ) (database : Database ν) (containers : Containers ν)

/-- The spec goes to the database as a whole. -/
def Mapped (spec : ResultSpec φ ν) : Prop :=
  (∀ f ∈ spec.filters, source.takes database f) ∧ ∀ o ∈ spec.order, source.covers o

instance (spec : ResultSpec φ ν) : Decidable (source.Mapped database spec) := inferInstanceAs (Decidable (_ ∧ _))

theorem mapped_iff {spec : ResultSpec φ ν} : source.Mapped database spec ↔
    (source.unmatched_filters database spec).isEmpty ∧ (source.unmatched_order spec).isEmpty := by
  simp [Mapped, unmatched_filters, unmatched_order, List.filter_eq_nil_iff]

/-- The rows' items after an endpoint has converted them, which keeps some of the fields. -/
def converted (convert : Item φ ν → Item φ ν) (keeps : φ → Bool)
    (same : ∀ row field, keeps field → (convert (source.dictFromRow row)).lookup field = (source.dictFromRow row).lookup field) :
    Source φ χ ν ρ where
  fieldMapping field := if keeps field then source.fieldMapping field else none
  inner_columns := source.inner_columns
  column := source.column
  dictFromRow row := convert (source.dictFromRow row)
  carries row field col mapped := by
    by_cases kept : keeps field
    · rw [if_pos kept] at mapped
      rw [same row field kept]
      exact source.carries row field col mapped
    · rw [if_neg kept] at mapped
      exact absurd mapped (by simp)

variable {source database containers}

section Converted

variable {convert : Item φ ν → Item φ ν} {keeps : φ → Bool}
  {same : ∀ row field, keeps field → (convert (source.dictFromRow row)).lookup field = (source.dictFromRow row).lookup field}

omit [LinearOrder ν] in
theorem converted_findColumn (field : φ) : (source.converted convert keeps same).findColumn field =
    if keeps field then source.findColumn field else .error .KeyError := by
  by_cases kept : keeps field
  · rw [if_pos kept]
    simp only [findColumn, converted, if_pos kept]
    rfl
  · simp [findColumn, converted, kept]

theorem converted_criterion (f : Filter φ ν) : (source.converted convert keeps same).criterion database f =
    if keeps f.field then source.criterion database f else .error .KeyError := by
  unfold criterion
  rw [converted_findColumn]
  by_cases kept : keeps f.field
  · simp only [if_pos kept]
  · simp only [if_neg kept]
    rfl

omit [LinearOrder ν] in
theorem converted_columnKey {o : Key φ} (kept : source.covers o → keeps o.field) :
    ((source.converted convert keeps same).columnKey o).toOption = (source.columnKey o).toOption := by
  unfold columnKey
  rw [converted_findColumn]
  by_cases field : keeps o.field
  · rw [if_pos field]
  · -- neither query is ordered by the key
    rw [if_neg field]
    have uncovered : (source.columnKey o).toOption = none := by
      simpa [covers] using fun covered : source.covers o => field (kept covered)
    unfold columnKey at uncovered
    exact uncovered.symm

/-- The spec that is left of one, as long as the keys are not taken from it. -/
def unfinished (source : Source φ χ ν ρ) (database : Database ν) (spec : ResultSpec φ ν) : ResultSpec φ ν :=
  ⟨source.unmatched_filters database spec, [], spec.order, none, none⟩

section Unfinished

variable {spec : ResultSpec φ ν} (kept : ∀ o ∈ spec.order, source.covers o → keeps o.field)
include kept

omit [LinearOrder ν] in
theorem converted_covers : ∀ o ∈ spec.order, (source.converted convert keeps same).covers o = source.covers o := by
  intro o member
  simp only [Source.covers, converted_columnKey (kept o member)]

theorem converted_order_by : ((source.converted convert keeps same).queryOf database (unfinished source database spec)).order_by =
    (source.queryOf database spec).order_by :=
  List.filterMap_congr fun o member => converted_columnKey (kept o member)

omit kept in
theorem converted_where : ((source.converted convert keeps same).queryOf database (unfinished source database spec)).where_ = [] := by
  refine List.filterMap_eq_nil_iff.mpr fun f member => ?_
  have left : ¬ source.takes database f := by simpa using (List.mem_filter.mp member).2
  simp only [converted_criterion]
  split
  · simpa [takes] using left
  · rfl

omit kept in
theorem converted_unmatched : (source.converted convert keeps same).unmatched_filters database (unfinished source database spec) =
    source.unmatched_filters database spec := by
  refine List.filter_eq_self.mpr fun f member => ?_
  have nothing : ((source.converted convert keeps same).queryOf database (unfinished source database spec)).where_ = [] :=
    converted_where
  have none_ := List.filterMap_eq_nil_iff.mp nothing f member
  simp [takes, none_]

theorem converted_agrees (builds : ∀ f ∈ spec.filters, source.criterion database f ≠ .error .ArgumentError)
    (last : spec.order.Pairwise fun earlier later => source.covers earlier → source.covers later) (rows : List ρ) :
    (source.converted convert keeps same).Agrees database containers (unfinished source database spec) rows := by
  refine ⟨?_, ?_, fun _ _ _ => .inl rfl, ?_, fun _ _ => ⟨by simp [unfinished], by simp [unfinished]⟩,
    fun _ _ _ => rfl, ?_⟩
  · intro f member
    rw [converted_criterion]
    split
    · exact builds f (List.mem_of_mem_filter member)
    · simp
  · intro row _
    rw [converted_unmatched, if_pos]
    · rfl
    · unfold Kept
      simp [converted_where]
  · refine last.imp_of_mem fun first second implies => ?_
    rwa [converted_covers kept _ first, converted_covers kept _ second]
  · intro _ _ zero
    exact absurd zero (by simp [unfinished])

/-- The rest of the sorting is left to Python, which then has sorted as if it had done all of it. -/
theorem pipeline_sorted (same : ∀ row field, keeps field →
      (convert (source.dictFromRow row)).lookup field = (source.dictFromRow row).lookup field)
    (builds : ∀ f ∈ spec.filters, source.criterion database f ≠ .error .ArgumentError)
    (last : spec.order.Pairwise fun earlier later => source.covers earlier → source.covers later) (rows : List ρ) :
    (pipeline containers (source.unmatched_filters database spec) [] (source.unmatched_order spec)
        ((rows.insertionSort (Ordered source.column (source.queryOf database spec).order_by)).map fun row =>
          convert (source.dictFromRow row))).toOption =
      (pipeline containers (source.unmatched_filters database spec) [] spec.order
        (rows.map fun row => convert (source.dictFromRow row))).toOption := by
  let served := source.converted convert keeps same
  have agrees : served.Agrees database containers (unfinished source database spec) rows :=
    converted_agrees kept builds last rows
  have python := agrees.pipeline
  have order : served.unmatched_order (unfinished source database spec) = source.unmatched_order spec :=
    List.filter_congr fun o member => by rw [converted_covers kept o member]
  have selected : served.selected (served.queryOf database (unfinished source database spec)) rows =
      rows.insertionSort (Ordered source.column (source.queryOf database spec).order_by) := by
    unfold Source.selected
    rw [converted_where, converted_order_by kept]
    simp only [List.all_nil, List.filter_true]
    rfl
  rw [converted_unmatched, order, selected] at python
  exact python

/-- The columns that the query is ordered by hold the values of the keys. -/
theorem converted_ordered (same : ∀ row field, keeps field →
      (convert (source.dictFromRow row)).lookup field = (source.dictFromRow row).lookup field)
    (builds : ∀ f ∈ spec.filters, source.criterion database f ≠ .error .ArgumentError)
    (last : spec.order.Pairwise fun earlier later => source.covers earlier → source.covers later) (first second : ρ) :
    Ordered source.column (source.queryOf database spec).order_by first second ↔
      Ordered valueOf (spec.order.filter source.covers) (convert (source.dictFromRow first))
        (convert (source.dictFromRow second)) := by
  let served := source.converted convert keeps same
  have agrees : served.Agrees database ⟨fun _ _ => none, fun _ => none⟩ (unfinished source database spec) [] :=
    converted_agrees kept builds last []
  have ordered := agrees.ordered_columns first second
  rw [converted_order_by kept] at ordered
  have covered : spec.order.filter served.covers = spec.order.filter source.covers :=
    List.filter_congr fun o member => converted_covers kept o member
  have keys : (unfinished source database spec).order = spec.order := rfl
  rw [keys, covered] at ordered
  exact ordered

end Unfinished

end Converted

/-! ## What the database returns -/

/-- The where clauses of the endpoint, the criteria in the query and the filters that are left to Python decide on
every row as all the filters of the spec do in Python. -/
structure Plain (source : Source φ χ ν ρ) (database : Database ν) (containers : Containers ν)
    (spec left : ResultSpec φ ν) (item : ρ → Item φ ν) (where_ : ρ → Bool) (table : List ρ) : Prop where
  -- the query can be built
  builds : ∀ f ∈ left.filters, source.criterion database f ≠ .error .ArgumentError
  rows : ∀ row ∈ table, decided (passes containers spec.filters) (item row) =
    if where_ row ∧ source.Kept database left row then
      decided (passes containers (source.unmatched_filters database left)) (item row)
    else some false
  -- the database slices by numbers that are not negative
  nonnegative : source.Mapped database left → (∀ n ∈ spec.offset, 0 ≤ n) ∧ ∀ n ∈ spec.limit, 0 ≤ n

/-- The rows that the endpoint's clauses and the query keep. -/
def matching (source : Source φ χ ν ρ) (database : Database ν) (left : ResultSpec φ ν) (where_ : ρ → Bool)
    (table : List ρ) : List ρ := table.filter fun row => where_ row ∧ source.Kept database left row

theorem thd_execute_mapped {spec : ResultSpec φ ν}
    (builds : ∀ f ∈ spec.filters, source.criterion database f ≠ .error .ArgumentError)
    (mapped : source.Mapped database spec) (start : ∀ n ∈ spec.offset, 0 ≤ n) (count : ∀ n ∈ spec.limit, 0 ≤ n)
    (table : List ρ) : ∃ res, source.thd_execute database spec table =
        .ok ({ spec with filters := [], order := [], offset := none, limit := none }, res) ∧
      res.items = (slice spec.offset (spec.limit.map fun limit => spec.offset.getD 0 + limit)
        (source.selected (source.queryOf database spec) table)).map source.dictFromRow := by
  unfold thd_execute
  rw [source.applyToSQLQuery_eq database builds, if_pos ((source.mapped_iff database).mp mapped), ← fetchall_eq start count]
  simp only [bind, Except.bind, pure, Except.pure]
  split
  · exact ⟨_, rfl, rfl⟩
  · exact ⟨_, rfl, rfl⟩

theorem thd_execute_unmapped {spec : ResultSpec φ ν}
    (builds : ∀ f ∈ spec.filters, source.criterion database f ≠ .error .ArgumentError)
    (unmapped : ¬ source.Mapped database spec) (table : List ρ) : ∃ res, source.thd_execute database spec table =
        .ok ({ spec with filters := source.unmatched_filters database spec, order := source.unmatched_order spec }, res) ∧
      res.items = (source.selected (source.queryOf database spec) table).map source.dictFromRow := by
  unfold thd_execute
  rw [source.applyToSQLQuery_eq database builds,
    if_neg fun both => unmapped ((source.mapped_iff database).mpr both)]
  exact ⟨_, rfl, rfl⟩

theorem selected_eq (spec : ResultSpec φ ν) (where_ : ρ → Bool) (table : List ρ) :
    source.selected (source.queryOf database spec) (table.filter where_) =
      (source.matching database spec where_ table).insertionSort
        (Ordered source.column (source.queryOf database spec).order_by) := by
  unfold selected matching
  rw [List.filter_filter]
  congr 1
  refine List.filter_congr fun row _ => ?_
  rw [Bool.eq_iff_iff, decide_eq_true_iff, and_comm, Bool.and_eq_true, List.all_eq_true]
  simp only [Kept, decide_eq_true_eq]

/-- The rows that match every filter in Python. -/
def matched (containers : Containers ν) (spec : ResultSpec φ ν) (item : ρ → Item φ ν) (table : List ρ) : List ρ :=
  table.filter fun row => decided (passes containers spec.filters) (item row) = some true

section Plain

variable {spec left : ResultSpec φ ν} {item : ρ → Item φ ν} {where_ : ρ → Bool} {table : List ρ}

theorem Plain.matched_eq (plain : source.Plain database containers spec left item where_ table) :
    matched containers spec item table =
      (source.matching database left where_ table).filter fun row =>
        decided (passes containers (source.unmatched_filters database left)) (item row) = some true := by
  unfold matched matching
  rw [List.filter_filter]
  refine List.filter_congr fun row member => ?_
  rw [plain.rows row member]
  by_cases kept : where_ row = true ∧ source.Kept database left row <;> simp [kept]

theorem Plain.matched_of_mapped (plain : source.Plain database containers spec left item where_ table)
    (mapped : source.Mapped database left) :
    matched containers spec item table = source.matching database left where_ table := by
  have none_ : source.unmatched_filters database left = [] := by
    simpa using ((source.mapped_iff database).mp mapped).1
  rw [plain.matched_eq, none_]
  exact List.filter_eq_self.mpr fun row _ => by simp [decided, passes, Except.toOption]

theorem Plain.pipeline (plain : source.Plain database containers spec left item where_ table)
    (known : operators containers left.filters = .ok () ↔ operators containers spec.filters = .ok ())
    (order : List (Key φ)) :
    (Data.pipeline containers spec.filters [] order (table.map item)).toOption =
      (Data.pipeline containers (source.unmatched_filters database left) [] order
        ((source.matching database left where_ table).map item)).toOption := by
  refine pipeline_of_rows (operators_unmatched.trans known) (fun row member => ?_) order
  rw [plain.rows row member]
  simp

/-- The answer that the spec asks for, from the rows as the database sorts them. -/
theorem Plain.expected {convert : Item φ ν → Item φ ν} {keeps : φ → Bool}
    (same : ∀ row field, keeps field →
      (convert (source.dictFromRow row)).lookup field = (source.dictFromRow row).lookup field)
    (plain : source.Plain database containers spec left (fun row => convert (source.dictFromRow row)) where_ table)
    (known : operators containers left.filters = .ok () ↔ operators containers spec.filters = .ok ())
    (fields : spec.fields = []) (order : left.order = spec.order)
    (kept : ∀ o ∈ left.order, source.covers o → keeps o.field)
    (last : left.order.Pairwise fun earlier later => source.covers earlier → source.covers later) :
    (spec.apply containers (.list (table.map fun row => convert (source.dictFromRow row)))).toOption.map
        (fun result => (result.data, result.total)) =
      (Data.pipeline containers (source.unmatched_filters database left) [] (source.unmatched_order left)
        (((source.matching database left where_ table).insertionSort
          (Ordered source.column (source.queryOf database left).order_by)).map fun row =>
            convert (source.dictFromRow row))).toOption.map
        fun result => (slice spec.offset (spec.limit.map fun limit => spec.offset.getD 0 + limit) result.2, result.1) := by
  rw [pipeline_sorted kept same plain.builds last, order, ← plain.pipeline known, apply_list, fields]
  cases Data.pipeline containers spec.filters [] spec.order (table.map fun row => convert (source.dictFromRow row)) with
  | error error => rfl
  | ok result => simp [Except.map, Except.toOption, paginate_data, paginate_total]

end Plain

omit [DecidableEq φ] [LinearOrder ν] in
/-- Two outcomes of `apply` in what counts of them. -/
theorem answered_raised {answer expected : Except Error (ListResult φ ν)} :
    Answered (raised answer) expected ↔
      answer.toOption.map (fun result => (result.data, result.total)) =
        expected.toOption.map fun result => (result.data, result.total) := by
  unfold Answered
  cases answer <;> rfl

/-- What `apply` makes of a list when nothing is left to do. -/
theorem apply_nothing (data : List (Item φ ν)) :
    ((⟨[], [], [], none, none⟩ : ResultSpec φ ν).apply containers (.list data)).toOption.map
      (fun result => (result.data, result.total)) = some (data, data.length) := by
  rw [apply_list, pipeline_nothing]
  simp [Except.map, Except.toOption, paginate, map_includeFields_nil]

end Source

/-! ## The page of build requests -/

namespace BuildRequests

theorem popFilter_mem {ν : Type} {field : String} {op : Op} {filters : List (Filter String ν)} {f : Filter String ν} :
    (f ∈ (popFilter field op filters).2 → f ∈ filters) ∧
      (f ∈ filters → f ∈ (popFilter field op filters).2 ∨ f.op = op) := by
  refine ⟨fun member => List.mem_of_mem_eraseP member, fun member => ?_⟩
  by_cases popped : f.field = field ∧ f.op = op
  · exact .inr popped.2
  · exact .inl ((List.mem_eraseP_of_neg (by simpa using popped)).mpr member)

/-- What an endpoint takes out of a spec are filters whose operators exist for any number of values. -/
def Popped {ν : Type} (before after : List (Filter String ν)) : Prop :=
  (∀ f ∈ after, f ∈ before) ∧ ∀ f ∈ before, f ∈ after ∨ f.op = .eq ∨ f.op = .ne

theorem Popped.refl {ν : Type} (filters : List (Filter String ν)) : Popped filters filters :=
  ⟨fun _ member => member, fun _ member => .inl member⟩

theorem Popped.trans {ν : Type} {first second third : List (Filter String ν)} (before : Popped first second)
    (after : Popped second third) : Popped first third := by
  refine ⟨fun f member => before.1 f (after.1 f member), fun f member => ?_⟩
  rcases before.2 f member with kept | popped
  · exact after.2 f kept
  · exact .inr popped

theorem popped_popFilter {ν : Type} (field : String) {op : Op} (kind : op = .eq ∨ op = .ne)
    (filters : List (Filter String ν)) : Popped filters (popFilter field op filters).2 := by
  refine ⟨fun f member => popFilter_mem.1 member, fun f member => ?_⟩
  refine (popFilter_mem.2 member).imp_right fun same => ?_
  rwa [same]

theorem popped_popBooleanFilter (read : Option Int → FilterValue) (field : String) (filters : List (Filter String Int)) :
    Popped filters (popBooleanFilter read field filters).2 := by
  have first := popped_popFilter field (.inl rfl) filters
  have second := first.trans (popped_popFilter field (.inr rfl) _)
  unfold popBooleanFilter
  split
  · rename_i same
    simpa [same] using first
  · rename_i same
    rw [same] at second
    split
    · rename_i again
      simpa [again] using second
    · rename_i again
      simpa [again] using second

theorem Popped.operators {containers : Containers Int} {before after : List (Filter String Int)}
    (popped : Popped before after) : operators containers after = .ok () ↔ operators containers before = .ok () := by
  rw [Source.operators_eq_ok, Source.operators_eq_ok]
  refine ⟨fun all f member => ?_, fun all f member => all f (popped.1 f member)⟩
  rcases popped.2 f member with kept | equal | unequal
  · exact all f kept
  · unfold Filter.getOperator
    split
    · exact ⟨_, rfl⟩
    · simp [equal, plural_operators]
  · unfold Filter.getOperator
    split
    · exact ⟨_, rfl⟩
    · simp [unequal, plural_operators]

theorem pops_ok {builderid : Option Int} {spec left : ResultSpec String Int} {arguments : Arguments}
    (pops_ : pops builderid spec = .ok (arguments, left)) :
    left = { spec with filters := left.filters } ∧ Popped spec.filters left.filters := by
  unfold pops at pops_
  rcases byComplete : popBooleanFilter asBoolean "complete" spec.filters with ⟨complete, first⟩
  have one := popped_popBooleanFilter asBoolean "complete" spec.filters
  rw [byComplete] at pops_ one
  dsimp only at pops_
  rcases byMaster : popBooleanFilter asInteger "claimed_by_masterid" first with ⟨masterid, second⟩
  have two := one.trans (popped_popBooleanFilter asInteger "claimed_by_masterid" first)
  rw [byMaster] at pops_ two
  dsimp only at pops_
  rcases byClaim : (if masterid.truthy then (masterid, second) else popBooleanFilter asBoolean "claimed" second) with
    ⟨claimed, third⟩
  have three : Popped spec.filters third := by
    by_cases given : masterid.truthy
    · rw [if_pos given] at byClaim
      exact (Prod.mk.inj byClaim).2 ▸ two
    · rw [if_neg given] at byClaim
      have claim := two.trans (popped_popBooleanFilter asBoolean "claimed" second)
      rwa [byClaim] at claim
  rw [byClaim] at pops_
  dsimp only at pops_
  have four := three.trans (popped_popFilter "buildsetid" (.inl rfl) third)
  unfold popOneFilter at pops_
  rcases byBuildset : popFilter "buildsetid" .eq third with ⟨values, fourth⟩
  rw [byBuildset] at pops_ four
  rcases values with _ | values
  · obtain ⟨-, rfl⟩ := Prod.mk.inj (Except.ok.inj pops_)
    exact ⟨rfl, four⟩
  · cases values with
    | nil => exact absurd pops_ (by simp [bind, Except.bind])
    | cons v rest =>
      obtain ⟨-, rfl⟩ := Prod.mk.inj (Except.ok.inj pops_)
      exact ⟨rfl, four⟩

variable (database : Database Int) (containers : Containers Int) (tables : Tables)

/-- How often the query returns a request. -/
def copies (row : Row) : Nat := (tables.sourcestamps row).length

def item (row : Row) : Item String Int := db2data row.modelFromRow

/-- The where clauses and the inner joins. -/
def joined (arguments : Arguments) (row : Row) : Bool := arguments.where_ row && copies tables row ≠ 0

/-- The matching requests, in the order of the query. -/
def ordered (spec left : ResultSpec String Int) : List Row :=
  (Source.matched containers spec item tables.rows).insertionSort
    (Ordered source.column (source.queryOf database left).order_by)

theorem rows_distinct : Keyed.Distinct (fun row : Row => row.request.id) tables.rows := by
  have distinct := tables.keyed
  unfold Keyed.Distinct at distinct ⊢
  rw [Tables.rows, List.map_map]
  exact distinct

variable {database containers tables}

theorem ordered_distinct (spec left : ResultSpec String Int) :
    Keyed.Distinct (fun row : Row => row.request.id) (ordered database containers tables spec left) := by
  have sorted := List.perm_insertionSort (Ordered source.column (source.queryOf database left).order_by)
    (Source.matched containers spec item tables.rows)
  have some_ : Keyed.Distinct (fun row : Row => row.request.id) (Source.matched containers spec item tables.rows) :=
    (rows_distinct tables).sublist (List.filter_sublist.map _)
  exact ((sorted.map _).nodup_iff).mpr some_

theorem selected_joined (left : ResultSpec String Int) (arguments : Arguments) :
    source.selected (source.queryOf database left) (tables.saSelectQuery.filter arguments.where_) =
      repeated (copies tables) ((source.matching database left (joined tables arguments) tables.rows).insertionSort
        (Ordered source.column (source.queryOf database left).order_by)) := by
  have join : tables.saSelectQuery = repeated (copies tables) tables.rows := flatMap_const tables.sourcestamps tables.rows
  rw [Source.selected_eq, ← insertionSort_repeated, join]
  congr 1
  unfold Source.matching
  rw [filter_repeated, ← repeated_filter_ne_zero, List.filter_filter]
  congr 1
  refine List.filter_congr fun row _ => ?_
  rw [Bool.eq_iff_iff]
  simp [joined, and_comm, and_left_comm]

theorem deduplicateBrdict_map (rows : List Row) : deduplicateBrdict (rows.map Row.modelFromRow) =
    (dictOf (fun row : Row => row.request.id) rows).map Row.modelFromRow :=
  dictOf_map (fun b => valueOf b "buildrequestid") Row.modelFromRow (Option.some_injective Int) (fun _ => rfl) rows

theorem db2data_lookup (row : Row) (field : String) (mapped : (buildrequests_field_mapping.lookup field).isSome) :
    (db2data (source.dictFromRow row)).lookup field = (source.dictFromRow row).lookup field := by
  obtain ⟨col, found⟩ := Option.isSome_iff_exists.mp mapped
  rw [db2data, List.lookup_append, source.carries row field col found]
  rfl

theorem covers_mapped {o : Key String} (covered : source.covers o) : (buildrequests_field_mapping.lookup o.field).isSome := by
  cases column : source.columnKey o with
  | error error => simp [Source.covers, column, Except.toOption] at covered
  | ok key => exact Option.isSome_iff_exists.mpr ⟨_, (Source.columnKey_ok column).2⟩

theorem item_injective {first second : Row} (same : item first = item second) : first.request.id = second.request.id := by
  have value : valueOf (item first) "buildrequestid" = valueOf (item second) "buildrequestid" := by rw [same]
  exact Option.some.inj value

/-- When the page of build requests is right: a page that the database has made leaves nothing out, and otherwise
the keys in the query are the last ones. -/
def Fits (database : Database Int) (containers : Containers Int) (tables : Tables) (spec left : ResultSpec String Int) :
    Prop :=
  if source.Mapped database left then
    ordered database containers tables spec left = [] ∨
      Whole spec.offset spec.limit (reach (copies tables) (ordered database containers tables spec left))
  else spec.order.Pairwise fun earlier later => source.covers earlier → source.covers later

instance (database : Database Int) (containers : Containers Int) (tables : Tables) (spec left : ResultSpec String Int) :
    Decidable (Fits database containers tables spec left) := by
  unfold Fits Whole
  infer_instance

section Page

variable {spec left : ResultSpec String Int} {arguments : Arguments}

/-- The filters decide as in Python, except that times are compared with numbers in the query only. -/
structure Plain (database : Database Int) (containers : Containers Int) (tables : Tables)
    (spec left : ResultSpec String Int) (arguments : Arguments) : Prop where
  pops : pops none spec = .ok (arguments, left)
  fields : spec.fields = []
  times : ∀ f ∈ spec.filters, f.field ∉ ["submitted_at", "complete_at", "claimed_at"]
  filters : source.Plain database containers spec left item (joined tables arguments) tables.rows

theorem get_with_resultspec_eq (pops_ : pops none spec = .ok (arguments, left)) {rest : ResultSpec String Int}
    {res : Collection String Int} (executed : source.thd_execute database left
      (tables.saSelectQuery.filter arguments.where_) = .ok (rest, res)) :
    get_with_resultspec database containers tables spec =
      raised (rest.apply containers (.list ((deduplicateBrdict res.items).map db2data))) := by
  unfold get_with_resultspec get getBuildRequests
  simp only [pops_, executed, bind, Except.bind, pure, Except.pure, raised]

/-- The page that the database has made of the joined rows, without the duplicates. -/
theorem Plain.mapped_page (plain : Plain database containers tables spec left arguments)
    (mapped : source.Mapped database left) :
    Answered (get_with_resultspec database containers tables spec)
        (spec.apply containers (.list (complete tables))) ↔
      ordered database containers tables spec left = [] ∨
        Whole spec.offset spec.limit (reach (copies tables) (ordered database containers tables spec left)) := by
  obtain ⟨shape, popped⟩ := pops_ok plain.pops
  obtain ⟨start, count⟩ := plain.filters.nonnegative mapped
  have limits : left.offset = spec.offset ∧ left.limit = spec.limit ∧ left.order = spec.order ∧ left.fields = [] := by
    rw [shape]
    exact ⟨rfl, rfl, rfl, plain.fields⟩
  obtain ⟨offset, limit, order, fields⟩ := limits
  obtain ⟨res, executed, items⟩ := Source.thd_execute_mapped plain.filters.builds mapped (offset ▸ start) (limit ▸ count)
    (tables.saSelectQuery.filter arguments.where_)
  have rows : ordered database containers tables spec left =
      (source.matching database left (joined tables arguments) tables.rows).insertionSort
        (Ordered source.column (source.queryOf database left).order_by) := by
    rw [ordered, plain.filters.matched_of_mapped mapped]
  have some_ : ∀ row ∈ ordered database containers tables spec left, copies tables row ≠ 0 := by
    intro row member
    rw [rows, List.mem_insertionSort] at member
    have kept := (List.mem_filter.mp member).2
    simp only [joined, Bool.and_eq_true, decide_eq_true_eq] at kept
    exact kept.1.2
  have last : left.order.Pairwise fun earlier later => source.covers earlier → source.covers later :=
    List.pairwise_of_forall_mem_list fun _ _ later member _ => mapped.2 later member
  have expected := plain.filters.expected db2data_lookup popped.operators plain.fields order
    (fun _ _ => covers_mapped) last
  have done := (source.mapped_iff database).mp mapped
  rw [List.isEmpty_iff, List.isEmpty_iff] at done
  rw [done.1, done.2, Source.pipeline_nothing, ← rows, map_includeFields_nil] at expected
  rw [get_with_resultspec_eq plain.pops executed, Source.answered_raised, fields, Source.apply_nothing]
  have whole : complete tables = tables.rows.map fun row => db2data (source.dictFromRow row) := rfl
  rw [whole, expected, items, selected_joined, ← rows, offset, limit]
  have page := deduplicateBrdict_map (slice spec.offset (spec.limit.map fun limit => spec.offset.getD 0 + limit)
    (repeated (copies tables) (ordered database containers tables spec left)))
  have cut := page_of_repeated start count (ordered_distinct spec left) some_ (fun _ _ => item_injective) rfl
  rw [← cut]
  have dict : source.dictFromRow = Row.modelFromRow := rfl
  rw [dict, page, List.map_map, List.length_map]
  have represent : db2data ∘ Row.modelFromRow = item := rfl
  have again : (fun row : Row => db2data row.modelFromRow) = item := rfl
  simp only [represent, again, Except.toOption, Option.map_some, Option.some.injEq, Prod.mk.injEq, List.length_map]

theorem Plain.unmapped_page (plain : Plain database containers tables spec left arguments)
    (unmapped : ¬ source.Mapped database left)
    (last : spec.order.Pairwise fun earlier later => source.covers earlier → source.covers later) :
    Answered (get_with_resultspec database containers tables spec) (spec.apply containers (.list (complete tables))) := by
  obtain ⟨shape, popped⟩ := pops_ok plain.pops
  have limits : left.offset = spec.offset ∧ left.limit = spec.limit ∧ left.order = spec.order ∧ left.fields = [] := by
    rw [shape]
    exact ⟨rfl, rfl, rfl, plain.fields⟩
  obtain ⟨offset, limit, order, fields⟩ := limits
  obtain ⟨res, executed, items⟩ := Source.thd_execute_unmapped plain.filters.builds unmapped
    (tables.saSelectQuery.filter arguments.where_)
  have distinct : Keyed.Distinct (fun row : Row => row.request.id)
      ((source.matching database left (joined tables arguments) tables.rows).insertionSort
        (Ordered source.column (source.queryOf database left).order_by)) := by
    have some_ : Keyed.Distinct (fun row : Row => row.request.id)
        (source.matching database left (joined tables arguments) tables.rows) :=
      (rows_distinct tables).sublist (List.filter_sublist.map _)
    exact (((List.perm_insertionSort _ _).map _).nodup_iff).mpr some_
  have copied : ∀ row ∈ (source.matching database left (joined tables arguments) tables.rows).insertionSort
      (Ordered source.column (source.queryOf database left).order_by), copies tables row ≠ 0 := by
    intro row member
    rw [List.mem_insertionSort] at member
    have kept := (List.mem_filter.mp member).2
    simp only [joined, Bool.and_eq_true, decide_eq_true_eq] at kept
    exact kept.1.2
  have expected := plain.filters.expected db2data_lookup popped.operators plain.fields order
    (fun _ _ => covers_mapped) (order ▸ last)
  have whole : complete tables = tables.rows.map fun row => db2data (source.dictFromRow row) := rfl
  have dict : source.dictFromRow = Row.modelFromRow := rfl
  rw [get_with_resultspec_eq plain.pops executed, Source.answered_raised, whole, expected, items, selected_joined, dict,
    deduplicateBrdict_map, dictOf_repeated distinct copied, apply_list, List.map_map, fields, offset, limit]
  have represent : db2data ∘ Row.modelFromRow = fun row => db2data row.modelFromRow := rfl
  rw [represent]
  cases pipeline containers (source.unmatched_filters database left) [] (source.unmatched_order left) _ with
  | error error => rfl
  | ok result =>
    simp [Except.map, Except.toOption, Source.paginate_data, Source.paginate_total]

end Page

end BuildRequests

/-! ## The page of changes -/

namespace Changes

variable {ν : Type} [LinearOrder ν]

def item (row : Change ν) : Item String ν := fixChange (getChange row)

omit [LinearOrder ν] in
theorem fixChange_lookup (row : Change ν) (field : String) (kept : decide (field ≠ "sourcestampid")) :
    (fixChange (source.dictFromRow row)).lookup field = (source.dictFromRow row).lookup field := by
  have other : field ≠ "sourcestampid" := by simpa using kept
  unfold fixChange
  induction source.dictFromRow row with
  | nil => rfl
  | cons entry rest ih =>
    obtain ⟨key, value⟩ := entry
    by_cases lost : key = "sourcestampid"
    · have apart : (field == key) = false := by simpa [lost] using other
      rw [List.filter_cons_of_neg (by simpa using lost), List.lookup_cons, apart]
      exact ih
    · rw [List.filter_cons_of_pos (by simpa using lost), List.lookup_cons, List.lookup_cons, ih]

omit [LinearOrder ν] in
theorem item_sourcestampid (row : Change ν) : (item row).lookup "sourcestampid" = none := by
  unfold item fixChange
  induction getChange row with
  | nil => rfl
  | cons entry rest ih =>
    obtain ⟨key, value⟩ := entry
    by_cases lost : key = "sourcestampid"
    · rw [List.filter_cons_of_neg (by simpa using lost)]
      exact ih
    · have apart : ("sourcestampid" == key) = false := by simpa using Ne.symm lost
      rw [List.filter_cons_of_pos (by simpa using lost), List.lookup_cons, apart]
      exact ih

/-- The mapped keys do not tell the changes apart, and the data have them. -/
def Tied (spec : ResultSpec String ν) (changes : List (Change ν)) : Prop :=
  ∀ a ∈ changes, ∀ b ∈ changes, ∀ o ∈ spec.order, source.covers (ρ := Change ν) o →
    o.field ≠ "sourcestampid" ∧ valueOf (item a) o.field = valueOf (item b) o.field

/-- When the page of changes is right: nothing is left out of a page that the database has made, and the order that
the database has made is none, as it gets reversed. -/
def Fits (database : Database ν) (containers : Containers ν) (changes : List (Change ν)) (spec : ResultSpec String ν) :
    Prop :=
  let found := Source.matched containers spec item changes
  Tied spec found ∧
    (source.Mapped database spec → found = [] ∨ Whole spec.offset spec.limit found.length)

section Page

variable {database : Database ν} {containers : Containers ν} {changes : List (Change ν)} {spec : ResultSpec String ν}

structure Plain (database : Database ν) (containers : Containers ν) (changes : List (Change ν))
    (spec : ResultSpec String ν) : Prop where
  fields : spec.fields = []
  filters : source.Plain database containers spec spec item (fun _ => true) changes

/-- The changes in the order in which they are returned without a spec. -/
theorem Plain.reversed (plain : Plain database containers changes spec) :
    source.Plain database containers spec spec item (fun _ => true) changes.reverse where
  builds := plain.filters.builds
  rows row member := plain.filters.rows row (List.mem_reverse.mp member)
  nonnegative := plain.filters.nonnegative

omit [LinearOrder ν] in
theorem covered_key {o : Key String} (covered : (source (ν := ν)).covers o) (kept : o.field ≠ "sourcestampid")
    (row : Change ν) : ((item row).lookup o.field).isSome := by
  cases column : (source (ν := ν)).columnKey o with
  | error error => simp [Source.covers, column, Except.toOption] at covered
  | ok key =>
    have same : (item row).lookup o.field = (source.dictFromRow row).lookup o.field :=
      fixChange_lookup row o.field (by simpa using kept)
    rw [same, source.carries row o.field key.field (Source.columnKey_ok column).2]
    rfl

variable {rows : List (Change ν)}

omit [LinearOrder ν] in
theorem item_column {o : Key String} {key : Key String} (column : (source (ν := ν)).columnKey o = .ok key)
    (kept : o.field ≠ "sourcestampid") (row : Change ν) :
    valueOf (item row) o.field = source.column row key.field := by
  have same : (item row).lookup o.field = (source.dictFromRow row).lookup o.field :=
    fixChange_lookup row o.field (by simpa using kept)
  rw [valueOf, same, source.carries row o.field key.field (Source.columnKey_ok column).2]
  rfl

/-- The query has nothing to sort. -/
theorem Tied.sorted (tied : Tied spec rows) :
    rows.insertionSort (Ordered source.column (source.queryOf database spec).order_by) = rows := by
  refine List.Pairwise.insertionSort_eq (List.pairwise_of_forall_mem_list fun a left b right => ?_)
  refine ordered_of_tied _ fun key member => ?_
  obtain ⟨o, listed, some_⟩ := List.mem_filterMap.mp member
  cases column : (source (ν := ν)).columnKey o with
  | error error => simp [column, Except.toOption] at some_
  | ok other =>
    obtain rfl : other = key := by simpa [column, Except.toOption] using some_
    have covered : (source (ν := ν)).covers o := by simp [Source.covers, column, Except.toOption]
    obtain ⟨kept, same⟩ := tied a left b right o listed covered
    rwa [item_column column kept, item_column column kept] at same

/-- Keys that do not tell the changes apart may as well be left out. -/
theorem Tied.sort (tied : Tied spec rows) :
    Data.sort (source.unmatched_order (ρ := Change ν) spec) (rows.map item) = Data.sort spec.order (rows.map item) := by
  have present : ((rows.map item).all fun d => (source.unmatched_order (ρ := Change ν) spec).all fun k => (d.lookup k.field).isSome) =
      (rows.map item).all fun d => spec.order.all fun k => (d.lookup k.field).isSome := by
    rw [Bool.eq_iff_iff, List.all_map, List.all_map, List.all_eq_true, List.all_eq_true]
    simp only [Function.comp, List.all_eq_true]
    refine ⟨fun all row member o key => ?_, fun all row member o key => all row member o (List.mem_of_mem_filter key)⟩
    by_cases covered : (source (ν := ν)).covers o
    · exact covered_key covered (tied row member row member o key covered).1 row
    · exact all row member o (List.mem_filter.mpr ⟨key, by simpa using covered⟩)
  have ordered : (rows.map item).insertionSort (Ordered valueOf (source.unmatched_order (ρ := Change ν) spec)) =
      (rows.map item).insertionSort (Ordered valueOf spec.order) := by
    refine StableSort.insertionSort_congr _ _ fun first here second there => ?_
    obtain ⟨a, left, rfl⟩ := List.mem_map.mp here
    obtain ⟨b, right, rfl⟩ := List.mem_map.mp there
    have same := keyLt_filter valueOf fun o key covered => (tied b right a left o key covered).2
    unfold Ordered
    rw [same]
    rfl
  unfold Data.sort
  rw [present, ordered]

theorem get_with_resultspec_eq {rest : ResultSpec String ν} {res : Collection String ν}
    (executed : source.thd_execute database spec changes = .ok (rest, res)) :
    get_with_resultspec database containers changes spec =
      raised (rest.apply containers (.list (res.items.reverse.map fixChange))) := by
  unfold get_with_resultspec get getChanges
  simp only [executed, bind, Except.bind, pure, Except.pure, raised]

/-- The changes that the query keeps. -/
def found (database : Database ν) (spec : ResultSpec String ν) (changes : List (Change ν)) : List (Change ν) :=
  source.matching database spec (fun _ => true) changes

theorem selected_matching : source.selected (source.queryOf database spec) changes =
    (found database spec changes).insertionSort (Ordered source.column (source.queryOf database spec).order_by) := by
  have all : changes.filter (fun _ => true) = changes := List.filter_eq_self.mpr fun _ _ => rfl
  have selected : source.selected (source.queryOf database spec) (changes.filter fun _ => true) = _ :=
    Source.selected_eq spec (fun _ => true) changes
  rwa [all] at selected

theorem matching_reverse : source.matching database spec (fun _ => true) changes.reverse =
    (found database spec changes).reverse := by
  simp [Source.matching, found, List.filter_reverse]

theorem Plain.unmapped_page (plain : Plain database containers changes spec) (unmapped : ¬ source.Mapped database spec)
    (tied : Tied spec (Source.matched containers spec item changes)) :
    Answered (get_with_resultspec database containers changes spec) (spec.apply containers (.list (complete changes))) := by
  obtain ⟨res, executed, items⟩ := Source.thd_execute_unmapped plain.filters.builds unmapped changes
  rw [selected_matching] at items
  have python := plain.reversed.pipeline Iff.rfl spec.order
  rw [matching_reverse] at python
  have whole : complete changes = changes.reverse.map item := rfl
  have represent : fixChange ∘ source.dictFromRow = (item : Change ν → Item String ν) := rfl
  -- what Python keeps is the same on both sides, and it sorts alike
  have kept : (found database spec changes).filter (fun row =>
      decided (passes containers (source.unmatched_filters database spec)) (item row) = some true) =
        Source.matched containers spec item changes := plain.filters.matched_eq.symm
  have sorted : ((found database spec changes).insertionSort
      (Ordered source.column (source.queryOf database spec).order_by)).filter (fun row =>
        decided (passes containers (source.unmatched_filters database spec)) (item row) = some true) =
          Source.matched containers spec item changes := by
    rw [StableSort.filter_insertionSort, kept, tied.sorted]
  have reversed : Tied spec (Source.matched containers spec item changes).reverse :=
    fun a left b right => tied a (List.mem_reverse.mp left) b (List.mem_reverse.mp right)
  have same : (pipeline containers (source.unmatched_filters database spec) [] (source.unmatched_order (ρ := Change ν) spec)
      (((found database spec changes).insertionSort
        (Ordered source.column (source.queryOf database spec).order_by)).reverse.map item)).toOption =
      (pipeline containers (source.unmatched_filters database spec) [] spec.order
        ((found database spec changes).reverse.map item)).toOption := by
    apply pipeline_congr
    · intro d
      simp
    · simp only [List.filter_map, List.filter_reverse, List.length_map, List.length_reverse]
      exact congrArg List.length (sorted.trans kept.symm)
    · simp only [List.filter_map, List.filter_reverse]
      have first : List.filter ((fun d => decide (decided (passes containers (source.unmatched_filters database spec)) d =
          some true)) ∘ item) ((found database spec changes).insertionSort
            (Ordered source.column (source.queryOf database spec).order_by)) = _ := sorted
      have second : List.filter ((fun d => decide (decided (passes containers (source.unmatched_filters database spec)) d =
          some true)) ∘ item) (found database spec changes) = _ := kept
      rw [first, second]
      exact reversed.sort
  rw [get_with_resultspec_eq executed, Source.answered_raised, items, ← List.map_reverse, List.map_map, represent, whole,
    apply_list, apply_list, plain.fields]
  have outcome (result : Except Error (Nat × List (Item String ν))) :
      (result.map fun result => paginate spec.offset spec.limit result.1 result.2).toOption =
        result.toOption.map fun result => paginate spec.offset spec.limit result.1 result.2 := by
    cases result <;> rfl
  dsimp only
  rw [outcome, outcome, same, python]

/-- Python needs a key that the data of a change do not have. -/
theorem Plain.expected_of_lost (plain : Plain database containers changes spec) (mapped : source.Mapped database spec)
    (some_ : found database spec changes ≠ []) {o : Key String} (key : o ∈ spec.order)
    (lost : o.field = "sourcestampid") : (spec.apply containers (.list (complete changes))).toOption = none := by
  have done := (source.mapped_iff database).mp mapped
  rw [List.isEmpty_iff, List.isEmpty_iff] at done
  have python := plain.reversed.pipeline Iff.rfl spec.order
  rw [matching_reverse, done.1] at python
  have every : ∀ d ∈ ((found database spec changes).reverse.map item).map (includeFields []),
      decided (passes containers []) d ≠ none := fun d _ => by simp [decided, passes, Except.toOption]
  obtain ⟨row, member⟩ := List.exists_mem_of_ne_nil _ some_
  have missing : sort spec.order ((((found database spec changes).reverse.map item).map (includeFields [])).filter fun d =>
      decided (passes containers []) d = some true) = .error .KeyError := by
    rw [map_includeFields_nil]
    refine if_neg fun all => ?_
    rw [List.all_eq_true] at all
    have present := List.all_eq_true.mp (all (item row) (List.mem_filter.mpr ⟨by simpa using ⟨row, member, rfl⟩,
      by simp [decided, passes, Except.toOption]⟩)) o key
    rw [lost, item_sourcestampid] at present
    exact absurd present (by simp)
  rw [Source.pipeline_of_decided rfl every, missing] at python
  have whole : complete changes = changes.reverse.map item := rfl
  rw [apply_list, plain.fields, whole]
  cases result : pipeline containers spec.filters [] spec.order (changes.reverse.map item) with
  | error error => rfl
  | ok counted =>
    rw [result] at python
    exact absurd python (by simp [Except.toOption, Except.map])

/-- Python sorts the changes in the order in which they are returned without a spec. -/
theorem Plain.expected_of_kept (plain : Plain database containers changes spec) (mapped : source.Mapped database spec)
    (kept : ∀ o ∈ spec.order, o.field ≠ "sourcestampid") :
    (spec.apply containers (.list (complete changes))).toOption.map (fun result => (result.data, result.total)) =
      some (slice spec.offset (spec.limit.map fun limit => spec.offset.getD 0 + limit)
        (((found database spec changes).reverse.insertionSort
          (Ordered source.column (source.queryOf database spec).order_by)).map item), (found database spec changes).length) := by
  have last : spec.order.Pairwise fun earlier later =>
      (source (ν := ν)).covers earlier → (source (ν := ν)).covers later :=
    List.pairwise_of_forall_mem_list fun _ _ later member _ => mapped.2 later member
  have expected := plain.reversed.expected fixChange_lookup Iff.rfl plain.fields rfl
    (fun o member _ => by simpa using kept o member) last
  have done := (source.mapped_iff database).mp mapped
  rw [List.isEmpty_iff, List.isEmpty_iff] at done
  rw [done.1, done.2, Source.pipeline_nothing, map_includeFields_nil, matching_reverse, List.length_map,
    List.length_insertionSort, List.length_reverse] at expected
  exact expected

/-- A list of changes that is sorted in both directions. -/
theorem tied_of_reverse (mapped : source.Mapped database spec) (builds : ∀ f ∈ spec.filters,
      (source (ν := ν)).criterion database f ≠ .error .ArgumentError) (kept : ∀ o ∈ spec.order, o.field ≠ "sourcestampid")
    (same : ((rows.insertionSort (Ordered source.column (source.queryOf database spec).order_by)).reverse.map item) =
      (rows.reverse.insertionSort (Ordered source.column (source.queryOf database spec).order_by)).map item) :
    Tied spec rows := by
  have last : spec.order.Pairwise fun earlier later =>
      (source (ν := ν)).covers earlier → (source (ν := ν)).covers later :=
    List.pairwise_of_forall_mem_list fun _ _ later member _ => mapped.2 later member
  have every : spec.order.filter (source (ν := ν)).covers = spec.order := List.filter_eq_self.mpr mapped.2
  have sorted (l : List (Change ν)) : ((l.insertionSort (Ordered source.column
      (source.queryOf database spec).order_by)).map item).Pairwise (Ordered valueOf spec.order) := by
    rw [List.pairwise_map]
    refine (List.pairwise_insertionSort _ l).imp fun {a b} before => ?_
    have ordered := Source.converted_ordered (fun o member _ => by simpa using kept o member) fixChange_lookup builds last a b
    rw [every] at ordered
    exact ordered.mp before
  have backward := sorted rows.reverse
  rw [← same, List.map_reverse, List.pairwise_reverse] at backward
  have all := List.Pairwise.forall_of_forall_of_flip (fun d _ => ordered_of_tied valueOf fun _ _ => rfl) (sorted rows)
    backward
  intro a left b right o key _
  have here (row : Change ν) (member : row ∈ rows) : item row ∈ (rows.insertionSort (Ordered source.column
      (source.queryOf database spec).order_by)).map item := List.mem_map_of_mem ((List.mem_insertionSort _).mpr member)
  have first := all (here a left) (here b right)
  have second := all (here b right) (here a left)
  exact ⟨kept o key, tied_of_ordered valueOf first second o key⟩

/-- The page that the database has made, in the reversed order. -/
theorem Plain.mapped_page (plain : Plain database containers changes spec) (mapped : source.Mapped database spec) :
    Answered (get_with_resultspec database containers changes spec) (spec.apply containers (.list (complete changes))) ↔
      Tied spec (Source.matched containers spec item changes) ∧
        (Source.matched containers spec item changes = [] ∨
          Whole spec.offset spec.limit (Source.matched containers spec item changes).length) := by
  obtain ⟨start, count⟩ := plain.filters.nonnegative mapped
  obtain ⟨res, executed, items⟩ := Source.thd_execute_mapped plain.filters.builds mapped start count changes
  rw [selected_matching] at items
  have matched : Source.matched containers spec item changes = found database spec changes :=
    plain.filters.matched_of_mapped mapped
  have whole : complete changes = changes.reverse.map item := rfl
  have represent : fixChange ∘ source.dictFromRow = (item : Change ν → Item String ν) := rfl
  have done := (source.mapped_iff database).mp mapped
  rw [List.isEmpty_iff, List.isEmpty_iff] at done
  rw [matched, get_with_resultspec_eq executed, Source.answered_raised, plain.fields, Source.apply_nothing, items,
    ← List.map_reverse, List.map_map, represent, List.length_map, List.length_reverse]
  have listed (l : List (Change ν)) : (slice spec.offset (spec.limit.map fun limit => spec.offset.getD 0 + limit) l).map item =
      slice spec.offset (spec.limit.map fun limit => spec.offset.getD 0 + limit) (l.map item) := Source.map_slice _ _ _ _
  by_cases empty : found database spec changes = []
  · have python := plain.reversed.pipeline Iff.rfl spec.order
    rw [matching_reverse, done.1, empty] at python
    have nothing : pipeline containers [] [] spec.order ([] : List (Item String ν)) = .ok (0, []) := rfl
    rw [List.reverse_nil, List.map_nil, nothing] at python
    have whole : complete changes = changes.reverse.map item := rfl
    rw [apply_list, plain.fields, whole, empty]
    cases result : pipeline containers spec.filters [] spec.order (changes.reverse.map item) with
    | error error =>
      rw [result] at python
      exact absurd python (by simp [Except.toOption])
    | ok counted =>
      obtain rfl : counted = (0, []) := by
        rw [result] at python
        simpa [Except.toOption] using python
      simp [Except.map, Except.toOption, Source.paginate_data, Source.paginate_total, slice, Tied]
  by_cases lost : ∃ o ∈ spec.order, o.field = "sourcestampid"
  · obtain ⟨o, key, lost⟩ := lost
    rw [plain.expected_of_lost mapped empty key lost]
    obtain ⟨row, member⟩ := List.exists_mem_of_ne_nil _ empty
    refine ⟨fun never => absurd never (by simp), fun right => ?_⟩
    exact absurd lost (right.1 row member row member o key (mapped.2 o key)).1
  · have kept : ∀ o ∈ spec.order, o.field ≠ "sourcestampid" := fun o key same => lost ⟨o, key, same⟩
    rw [plain.expected_of_kept mapped kept]
    have some_ : (found database spec changes).insertionSort
        (Ordered source.column (source.queryOf database spec).order_by) ≠ [] := by
      intro nothing
      have length := congrArg List.length nothing
      rw [List.length_insertionSort] at length
      exact empty (List.length_eq_zero_iff.mp length)
    have cut := length_slice start count some_
    rw [List.length_insertionSort] at cut
    simp only [Option.some.injEq, Prod.mk.injEq, empty, false_or]
    constructor
    · rintro ⟨items, total⟩
      have whole := cut.mp total
      rw [slice_whole start count (by rwa [List.length_insertionSort]),
        slice_whole start count (by rwa [List.length_map, List.length_insertionSort, List.length_reverse])] at items
      exact ⟨tied_of_reverse mapped plain.filters.builds kept items, whole⟩
    · rintro ⟨tied, whole⟩
      have reversed : Tied spec (found database spec changes).reverse :=
        fun a left b right => tied a (List.mem_reverse.mp left) b (List.mem_reverse.mp right)
      rw [tied.sorted, reversed.sorted, slice_whole start count whole,
        slice_whole start count (by rwa [List.length_map, List.length_reverse])]
      exact ⟨rfl, rfl⟩

end Page

end Changes

/-! ## Both collections -/

def sqlite : Database Int where
  like := fun _ _ => false
  skipped := Int.toNat
  taken limit := if limit < 0 then none else some limit.toNat
  skipped_nonneg := Source.sqlite.skipped_nonneg
  taken_nonneg := Source.sqlite.taken_nonneg

def numbers : Containers Int := ⟨fun _ _ => none, fun _ => none⟩

/-- Two requests, of buildsets with two source stamps and with one. -/
def twoRequests : BuildRequests.Tables where
  buildrequests := [⟨1, 10, 7, 0, false, none, 100, none, false⟩, ⟨2, 20, 7, 5, true, some 0, 100, some 200, false⟩]
  buildrequest_claims := [⟨2, 1, 150⟩]
  buildset_sourcestamps := [(10, 1), (10, 2), (20, 1)]
  keyed := by decide

def numbered (changeid : Int) : Changes.Change Int where
  columns col := if col = "changes.changeid" then some changeid else none
  parent_changeids := 0
  files := 0
  sourcestamp := 0
  properties := 0

/-- The requests of builder 7 that are complete, three rows at most. -/
def completed : ResultSpec String Int := ⟨[⟨"complete", .eq, [some 1]⟩, ⟨"builderid", .eq, [some 7]⟩], [], [⟨"priority", true⟩], some 3, some 0⟩

def completedLeft : ResultSpec String Int := { completed with filters := [⟨"builderid", .eq, [some 7]⟩] }

/-- The changes below a number, in no order. -/
def early : ResultSpec String Int := ⟨[⟨"changeid", .lt, [some 3]⟩], [], [], some 2, none⟩

end Umbilical.Data
