import Umbilical.Data.QueryArguments
import Umbilical.Shared.Refusals
import Mathlib.Tactic.SplitIfs

set_option autoImplicit false

/-!
# What becomes of the arguments of a query

Every argument is to take effect or to be refused.
-/

namespace Umbilical.Data

open Python Refusals

abbrev Argument := Arg × List Arg

def QueryError.Documented : QueryError → Prop
  | .InvalidQueryParameter _ => True
  | .IndexError | .UnicodeDecodeError => False

def reserved : List Text :=
  ["order".toList, "field".toList, "limit".toList, "offset".toList, "property".toList]

section Heeded

variable (interpreter : Interpreter) (entityType : EntityType)

def Filtered (spec : QuerySpec) (values : List Arg) (field : Text) (op : Op) (fieldType : FieldType) : Prop :=
  ∃ converted, values.mapM (fieldType.valueFromString interpreter ·) = some converted ∧
    ⟨field, op, converted.map some⟩ ∈ spec.filters

/-- The argument of this name has taken effect. -/
structure Heeded (spec : QuerySpec) (argument : Argument) (name : Text) : Prop where
  order : name = "order".toList → ∃ order, argument.2.mapM Arg.text? = some order ∧ spec.order = some order
  field : name = "field".toList → ∃ fields, argument.2.mapM Arg.text? = some fields ∧ spec.fields = some fields
  limit : name = "limit".toList →
    ∀ value ∈ argument.2, ∃ limit, int interpreter value = some limit ∧ spec.limit = some limit
  offset : name = "offset".toList →
    ∀ value ∈ argument.2, ∃ offset, int interpreter value = some offset ∧ spec.offset = some offset
  property : name = "property".toList →
    ∃ values, argument.2.mapM Arg.text? = some values ∧ ⟨argument.1, values⟩ ∈ spec.properties
  filter : ∀ fieldType, entityType.lookup name = some fieldType → Filtered interpreter spec argument.2 name .eq fieldType
  operator : name ∉ reserved → entityType.lookup name = none → ∃ field op fieldType,
    rsplit name = some (field, op.name) ∧ entityType.lookup field = some fieldType ∧
      Filtered interpreter spec argument.2 field op fieldType

/-- The operator of the filter is one for its number of values. -/
def Filter.Known (filter : Filter Text Value) : Prop :=
  ∀ [LinearOrder Value] (containers : Containers Value), ∃ operator, filter.getOperator containers = .ok operator

/-- All the arguments have taken effect, or they are refused with the error that says so. -/
def Honoured (arguments : List Argument) : Except QueryError QuerySpec → Prop
  | .ok spec =>
    (∀ argument ∈ arguments, ∃ name, argument.1.text? = some name ∧ Heeded interpreter entityType spec argument name) ∧
      ∀ filter ∈ spec.filters, filter.Known
  | .error error => error.Documented

end Heeded

/-! ## What the arguments say -/

/-- A name that is not a text, or an empty one -/
def Unreadable (name : Arg) : Prop := name.text? = none ∨ name.text? = some []

section Meaning

variable (interpreter : Interpreter) (entityType : EntityType)

def Unknown (negOk : Bool) (name : Arg) : Prop := ∃ first rest,
  name.text? = some (first :: rest) ∧ (if first = '-' ∧ negOk then rest else first :: rest) ∉ entityType.fieldNames

namespace Argument

variable (argument : Argument)

def kind : Option Kind := argument.1.text?.map fun name => kindOf entityType name argument.2.length

/-- A name of the argument, or of a field in it, is not a text or is empty, and no unknown field comes before. -/
def Broken : Prop :=
  match argument.kind entityType with
  | none => True
  | some .order => (∃ value ∈ argument.2, value.text? = none) ∨ Unguarded Unreadable (Unknown entityType true) argument.2
  | some .field => Unguarded Unreadable (Unknown entityType false) argument.2
  | some _ => False

/-- The argument is unknown, names an unknown field or has a value that cannot be read. -/
def Refused : Prop :=
  match argument.kind entityType with
  | some .order => ¬ argument.Broken entityType ∧ ∃ value ∈ argument.2, Unknown entityType true value
  | some .field => ¬ argument.Broken entityType ∧ ∃ value ∈ argument.2, Unknown entityType false value
  | some .limit | some .offset => argument.2.head?.bind (int interpreter) = none
  | some .property => ∃ value ∈ argument.2, value.text? = none
  | some (.filter _ _ fieldType) => ∃ value ∈ argument.2, fieldType.valueFromString interpreter value = none
  | some .unrecognized => True
  | some .unknownFilter | none => False

def order : Option (List Text) :=
  match argument.kind entityType with
  | some .order => argument.2.mapM Arg.text?
  | _ => none

def fields : Option (List Text) :=
  match argument.kind entityType with
  | some .field => argument.2.mapM Arg.text?
  | _ => none

def limit : Option Int :=
  match argument.kind entityType with
  | some .limit => argument.2.head?.bind (int interpreter)
  | _ => none

def offset : Option Int :=
  match argument.kind entityType with
  | some .offset => argument.2.head?.bind (int interpreter)
  | _ => none

def properties : List Property :=
  match argument.kind entityType with
  | some .property => ((argument.2.mapM Arg.text?).map (⟨argument.1, ·⟩)).toList
  | _ => []

def filters : List (Filter Text Value) :=
  match argument.kind entityType with
  | some (.filter field op fieldType) =>
    ((argument.2.mapM (fieldType.valueFromString interpreter ·)).map (⟨field, op, ·.map some⟩)).toList
  | _ => []

end Argument

/-- What comes last counts. -/
def lastSome {α β : Type} (f : α → Option β) (elements : List α) : Option β :=
  elements.foldl (fun last element => (f element).or last) none

/-- The spec with an argument more -/
def QuerySpec.after (spec : QuerySpec) (argument : Argument) : QuerySpec where
  filters := spec.filters ++ argument.filters interpreter entityType
  properties := spec.properties ++ argument.properties entityType
  fields := (argument.fields entityType).or spec.fields
  order := (argument.order entityType).or spec.order
  limit := (argument.limit interpreter entityType).or spec.limit
  offset := (argument.offset interpreter entityType).or spec.offset

/-- The spec that the arguments say together -/
def specOf (arguments : List Argument) : QuerySpec :=
  arguments.foldl (fun spec argument => spec.after interpreter entityType argument) QuerySpec.start

section Condition

variable (isCollection : Bool) (arguments : List Argument)

/-- Fields are selected, and not one to order or to filter by; or there is a filter, and no collection. -/
def RefusedTogether : Prop :=
  let selected := (lastSome (Argument.fields entityType) arguments).getD []
  let filters := arguments.flatMap (Argument.filters interpreter entityType)
  selected ≠ [] ∧ (∃ name ∈ (lastSome (Argument.order entityType) arguments).getD [], lstrip name ∉ selected) ∨
    selected ≠ [] ∧ (∃ filter ∈ filters, filter.field ∉ selected) ∨
    isCollection = false ∧ filters ≠ []

/-- The argument is not a name with an operator where there is no such field or operator, and a field whose name is
reserved is filtered by its name with an operator as well. -/
def Applied (argument : Argument) : Prop :=
  (∀ kind, argument.kind entityType = some kind → kind ≠ .unknownFilter) ∧
    ∀ name ∈ reserved, argument.1.text? = some name → ∀ fieldType, entityType.lookup name = some fieldType →
      ∃ converted, argument.2.mapM (fieldType.valueFromString interpreter ·) = some converted ∧
        ⟨name, .eq, converted.map some⟩ ∈ arguments.flatMap (Argument.filters interpreter entityType)

/-- Arguments of one name say the same, and so do the values of a limit or an offset. -/
structure Agreeing : Prop where
  order : ∀ argument ∈ arguments, ∀ other ∈ arguments,
    argument.kind entityType = some .order → other.kind entityType = some .order →
      argument.2.mapM Arg.text? = other.2.mapM Arg.text?
  field : ∀ argument ∈ arguments, ∀ other ∈ arguments,
    argument.kind entityType = some .field → other.kind entityType = some .field →
      argument.2.mapM Arg.text? = other.2.mapM Arg.text?
  limit : ∀ argument ∈ arguments, ∀ other ∈ arguments,
    argument.kind entityType = some .limit → other.kind entityType = some .limit →
      ∀ value ∈ argument.2, ∀ value' ∈ other.2, int interpreter value = int interpreter value'
  offset : ∀ argument ∈ arguments, ∀ other ∈ arguments,
    argument.kind entityType = some .offset → other.kind entityType = some .offset →
      ∀ value ∈ argument.2, ∀ value' ∈ other.2, int interpreter value = int interpreter value'

end Condition

end Meaning

section Reading

variable {interpreter : Interpreter} {entityType : EntityType} {argument : Argument} {negOk : Bool} {name : Arg}

theorem bytes2unicode_eq_ok {text : Text} : bytes2unicode name = .ok text ↔ name.text? = some text := by
  unfold bytes2unicode
  cases name.text? with
  | none => exact ⟨fun same => (by cases same), fun same => (by cases same)⟩
  | some text => exact ⟨fun same => congrArg some (Except.ok.inj same), fun same => congrArg Except.ok (Option.some.inj same)⟩

theorem breaks_bytes2unicode : Breaks QueryError.Documented (bytes2unicode name) ↔ name.text? = none := by
  unfold bytes2unicode
  cases name.text? with
  | none => exact iff_of_true id rfl
  | some text => exact iff_of_false id (Option.some_ne_none _)

theorem not_refuses_bytes2unicode : ¬ Refuses QueryError.Documented (bytes2unicode name) := by
  unfold bytes2unicode
  cases name.text? with
  | none => exact id
  | some text => exact id

theorem breaks_checkField : Breaks QueryError.Documented (checkField entityType negOk name) ↔ Unreadable name := by
  unfold checkField Unreadable
  rw [breaks_bind, breaks_bytes2unicode]
  refine or_congr_right ?_
  constructor
  · rintro ⟨text, read, broken⟩
    rw [← bytes2unicode_eq_ok, read]
    cases text with
    | nil => rfl
    | cons first rest =>
      dsimp only at broken
      by_cases unknown : (if first = '-' ∧ negOk then rest else first :: rest) ∉ entityType.fieldNames
      · rw [if_pos unknown] at broken
        exact absurd trivial broken
      · rw [if_neg unknown] at broken
        cases broken
  · exact fun read => ⟨[], bytes2unicode_eq_ok.mpr read, id⟩

theorem refuses_checkField :
    Refuses QueryError.Documented (checkField entityType negOk name) ↔ Unknown entityType negOk name := by
  unfold checkField Unknown
  rw [refuses_bind]
  constructor
  · rintro (refused | ⟨text, read, refused⟩)
    · exact absurd refused not_refuses_bytes2unicode
    · cases text with
      | nil => cases refused
      | cons first rest =>
        refine ⟨first, rest, bytes2unicode_eq_ok.mp read, ?_⟩
        dsimp only at refused
        by_contra known
        rw [if_neg (not_not.mpr known)] at refused
        cases refused
  · rintro ⟨first, rest, read, unknown⟩
    refine .inr ⟨first :: rest, bytes2unicode_eq_ok.mpr read, ?_⟩
    dsimp only
    rw [if_pos unknown]
    trivial

theorem breaks_checkFields {names : List Arg} : Breaks QueryError.Documented (checkFields entityType negOk names) ↔
    Unguarded Unreadable (Unknown entityType negOk) names := by
  have each := @breaks_mapM _ _ _ QueryError.Documented names (checkField entityType negOk)
  simp only [breaks_checkField, refuses_checkField] at each
  unfold checkFields
  rw [breaks_bind, each]
  exact ⟨fun either => either.elim id fun ⟨_, _, broken⟩ => broken.elim, .inl⟩

theorem refuses_checkFields {names : List Arg} : Refuses QueryError.Documented (checkFields entityType negOk names) ↔
    ¬ Unguarded Unreadable (Unknown entityType negOk) names ∧ ∃ name ∈ names, Unknown entityType negOk name := by
  have each := @breaks_mapM _ _ _ QueryError.Documented names (checkField entityType negOk)
  have all := @refuses_mapM _ _ _ QueryError.Documented names (checkField entityType negOk)
  simp only [each, breaks_checkField, refuses_checkField] at all
  unfold checkFields
  rw [refuses_bind, all]
  exact ⟨fun either => either.elim id fun ⟨_, _, refused⟩ => refused.elim, .inl⟩

/-- Only the texts of the names count. -/
theorem unguarded_of_texts {names others : List Arg} (same : names.map Arg.text? = others.map Arg.text?) :
    (Unguarded Unreadable (Unknown entityType negOk) names ↔ Unguarded Unreadable (Unknown entityType negOk) others) ∧
      ((∃ name ∈ names, Unknown entityType negOk name) ↔ ∃ name ∈ others, Unknown entityType negOk name) := by
  have texts (names : List Arg) := @unguarded_map (Option Text) (fun text => text = none ∨ text = some [])
    (fun text => ∃ first rest, text = some (first :: rest) ∧
      (if first = '-' ∧ negOk then rest else first :: rest) ∉ entityType.fieldNames) Arg Arg.text? names
  constructor
  · exact (texts names).symm.trans (same ▸ texts others)
  · unfold Unknown
    have found (names : List Arg) := @exists_mem_map (Option Text) (fun text => ∃ first rest, text = some (first :: rest) ∧
      (if first = '-' ∧ negOk then rest else first :: rest) ∉ entityType.fieldNames) Arg Arg.text? names
    exact (found names).symm.trans (same ▸ found others)

theorem mapM_bytes2unicode {values : List Arg} {texts : List Text} :
    values.mapM bytes2unicode = .ok texts ↔ values.mapM Arg.text? = some texts := by
  rw [mapM_eq_ok, mapM_eq_some]
  constructor
  · intro same
    have read := congrArg (List.map Except.toOption) same
    rw [List.map_map, List.map_map] at read
    refine Eq.trans (List.map_congr_left fun value _ => ?_) read
    unfold Function.comp bytes2unicode
    cases value.text? with
    | none => rfl
    | some text => rfl
  · intro same
    have read := congrArg (List.map fun text : Option Text => text.elim (Except.error QueryError.UnicodeDecodeError) Except.ok) same
    rw [List.map_map, List.map_map] at read
    refine Eq.trans (List.map_congr_left fun value _ => ?_) read
    unfold Function.comp bytes2unicode
    cases value.text? with
    | none => rfl
    | some text => rfl

theorem mapM_bytes2unicode_spec {values : List Arg} :
    (Breaks QueryError.Documented (values.mapM bytes2unicode) ↔ ∃ value ∈ values, value.text? = none) ∧
      ¬ Refuses QueryError.Documented (values.mapM bytes2unicode) := by
  constructor
  · rw [breaks_mapM, unguarded_iff_exists fun _ _ => not_refuses_bytes2unicode]
    simp only [breaks_bytes2unicode]
  · rw [refuses_mapM]
    exact fun ⟨_, _, _, refused⟩ => not_refuses_bytes2unicode refused

/-- The names of an order are read first and checked then. -/
theorem breaks_readOrder {values : List Arg} :
    (Breaks QueryError.Documented (do
      let order ← values.mapM bytes2unicode
      checkFields entityType true (order.map .str)) ↔
    (∃ value ∈ values, value.text? = none) ∨ Unguarded Unreadable (Unknown entityType true) values) ∧
    (Refuses QueryError.Documented (do
      let order ← values.mapM bytes2unicode
      checkFields entityType true (order.map .str)) ↔
    ¬ ((∃ value ∈ values, value.text? = none) ∨ Unguarded Unreadable (Unknown entityType true) values) ∧
      ∃ value ∈ values, Unknown entityType true value) := by
  obtain ⟨unread, unrefused⟩ := @mapM_bytes2unicode_spec values
  rw [breaks_bind, refuses_bind, unread]
  cases read : values.mapM Arg.text? with
  | none =>
    have bad := mapM_eq_none.mp read
    refine ⟨iff_of_true (.inl bad) (.inl bad), iff_of_false ?_ fun both => both.1 (.inl bad)⟩
    rintro (refused | ⟨order, found, -⟩)
    · exact unrefused refused
    · rw [mapM_bytes2unicode, read] at found
      cases found
  | some order =>
    have good : ¬ ∃ value ∈ values, value.text? = none := by
      rw [← mapM_eq_none, read]
      exact Option.some_ne_none _
    have found := mapM_bytes2unicode.mpr read
    -- Decoded, they are the same names.
    have same : (order.map Arg.str).map Arg.text? = values.map Arg.text? := by
      rw [List.map_map, mapM_eq_some.mp read]
      rfl
    obtain ⟨unguarded, unknown⟩ := @unguarded_of_texts entityType true _ _ same
    constructor
    · constructor
      · rintro (bad | ⟨other, again, broken⟩)
        · exact .inl bad
        · cases found.symm.trans again
          exact .inr (unguarded.mp (breaks_checkFields.mp broken))
      · rintro (bad | broken)
        · exact .inl bad
        · exact .inr ⟨order, found, breaks_checkFields.mpr (unguarded.mpr broken)⟩
    · constructor
      · rintro (refused | ⟨other, again, refused⟩)
        · exact absurd refused unrefused
        · cases found.symm.trans again
          obtain ⟨guarded, some⟩ := refuses_checkFields.mp refused
          exact ⟨not_or.mpr ⟨good, mt unguarded.mpr guarded⟩, unknown.mp some⟩
      · rintro ⟨whole, some⟩
        exact .inr ⟨order, found,
          refuses_checkFields.mpr ⟨mt unguarded.mp (not_or.mp whole).2, unknown.mpr some⟩⟩

/-- Fields that were checked are texts. -/
theorem text_of_checkFields {names : List Arg} {nothing : Unit}
    (checked : checkFields entityType negOk names = .ok nothing) : ¬ ∃ name ∈ names, name.text? = none := by
  have whole := (exists_ok_iff QueryError.Documented (checkFields entityType negOk names)).mp ⟨_, checked⟩
  rw [breaks_checkFields, refuses_checkFields] at whole
  have known : ∀ name ∈ names, ¬ Unknown entityType negOk name := fun name member unknown =>
    whole.2 ⟨whole.1, name, member, unknown⟩
  rintro ⟨name, member, unread⟩
  exact whole.1 ((unguarded_iff_exists known).mpr ⟨name, member, .inl unread⟩)

/-- What a value is missing for is refused. -/
theorem orRefused_spec {α β : Type} (found : Option α) (message : Text) (make : α → β) :
    ¬ Breaks QueryError.Documented (do return make (← orRefused found message)) ∧
      (Refuses QueryError.Documented (do return make (← orRefused found message)) ↔ found = none) ∧
      ∀ made, (do return make (← orRefused found message)) = .ok made → ∃ value, found = some value ∧ made = make value := by
  cases found with
  | none => exact ⟨fun broken => broken trivial, iff_of_true trivial rfl, fun _ same => by cases same⟩
  | some value =>
    exact ⟨id, iff_of_false id (Option.some_ne_none _), fun _ same => ⟨value, rfl, (Except.ok.inj same).symm⟩⟩

/-- What the arguments of each kind do -/
theorem readKind_spec {key : Arg} {values : List Arg} {argStr : Text} {kind : Kind}
    (of : Argument.kind entityType (key, values) = some kind) :
    (Breaks QueryError.Documented (readKind interpreter entityType key argStr values kind) ↔
      Argument.Broken entityType (key, values)) ∧
    (Refuses QueryError.Documented (readKind interpreter entityType key argStr values kind) ↔
      Argument.Refused interpreter entityType (key, values)) ∧
    (∀ change, readKind interpreter entityType key argStr values kind = .ok change →
      change = fun spec => spec.after interpreter entityType (key, values)) := by
  unfold Argument.Refused QuerySpec.after Argument.filters Argument.properties Argument.fields Argument.order
    Argument.limit Argument.offset readKind
  rw [of]
  cases kind with
  | order =>
    rw [Argument.Broken, of]
    have checked (order : List Text) := @bind_pure_spec _ _ _ QueryError.Documented
      (checkFields entityType true (order.map .str)) fun _ (spec : QuerySpec) => { spec with order := some order }
    refine ⟨?_, ?_, fun change found => ?_⟩
    · rw [← (@breaks_readOrder entityType values).1, breaks_bind, breaks_bind]
      exact or_congr_right (exists_congr fun order => and_congr_right fun _ => (checked order).1)
    · refine Iff.trans ?_ (@breaks_readOrder entityType values).2
      rw [refuses_bind, refuses_bind]
      exact or_congr_right (exists_congr fun order => and_congr_right fun _ => (checked order).2.1)
    · cases read : values.mapM bytes2unicode with
      | error error =>
        rw [read] at found
        cases found
      | ok order =>
        rw [read] at found
        obtain ⟨_, -, rfl⟩ := (checked order).2.2 change found
        funext spec
        simp [mapM_bytes2unicode.mp read]
  | field =>
    rw [Argument.Broken, of]
    obtain ⟨unread, unrefused⟩ := @mapM_bytes2unicode_spec values
    obtain ⟨same, alike, made⟩ := @bind_pure_spec _ _ _ QueryError.Documented (values.mapM bytes2unicode)
      fun fields (spec : QuerySpec) => { spec with fields := some fields }
    refine ⟨?_, ?_, fun change found => ?_⟩
    · rw [breaks_bind, breaks_checkFields]
      refine ⟨fun either => either.elim id ?_, .inl⟩
      rintro ⟨_, checked, broken⟩
      exact absurd (unread.mp (same.mp broken)) (text_of_checkFields checked)
    · rw [refuses_bind, refuses_checkFields]
      refine ⟨fun either => either.elim id ?_, .inl⟩
      rintro ⟨_, checked, refused⟩
      exact absurd (alike.mp refused) unrefused
    · cases checked : checkFields entityType false values with
      | error error =>
        rw [checked] at found
        cases found
      | ok nothing =>
        rw [checked] at found
        obtain ⟨fields, read, rfl⟩ := made change found
        funext spec
        simp [mapM_bytes2unicode.mp read]
  | limit =>
    obtain ⟨whole, refused, made⟩ := orRefused_spec (values.head?.bind (int interpreter)) "invalid limit".toList
      fun limit (spec : QuerySpec) => { spec with limit := some limit }
    rw [Argument.Broken, of]
    refine ⟨iff_of_false whole id, refused, fun change found => ?_⟩
    obtain ⟨limit, same, rfl⟩ := made change found
    funext spec
    simp [same]
  | offset =>
    obtain ⟨whole, refused, made⟩ := orRefused_spec (values.head?.bind (int interpreter)) "invalid offset".toList
      fun offset (spec : QuerySpec) => { spec with offset := some offset }
    rw [Argument.Broken, of]
    refine ⟨iff_of_false whole id, refused, fun change found => ?_⟩
    obtain ⟨offset, same, rfl⟩ := made change found
    funext spec
    simp [same]
  | property =>
    obtain ⟨whole, refused, made⟩ := orRefused_spec (values.mapM Arg.text?) ("invalid property value for ".toList ++ key.format)
      fun props (spec : QuerySpec) => { spec with properties := spec.properties ++ [Property.mk key props] }
    rw [Argument.Broken, of]
    refine ⟨iff_of_false whole id, refused.trans mapM_eq_none, fun change found => ?_⟩
    obtain ⟨props, same, rfl⟩ := made change found
    funext spec
    simp [same]
  | filter field op fieldType =>
    obtain ⟨whole, refused, made⟩ := orRefused_spec (values.mapM (fieldType.valueFromString interpreter ·)) ("invalid filter value for ".toList ++ argStr)
      fun values (spec : QuerySpec) => { spec with filters := spec.filters ++ [Filter.mk field op (values.map some)] }
    rw [Argument.Broken, of]
    refine ⟨iff_of_false whole id, refused.trans mapM_eq_none, fun change found => ?_⟩
    obtain ⟨converted, same, rfl⟩ := made change found
    funext spec
    simp [same]
  | unknownFilter =>
    rw [Argument.Broken, of]
    refine ⟨Iff.rfl, Iff.rfl, fun change found => ?_⟩
    cases found
    funext spec
    simp
  | unrecognized =>
    rw [Argument.Broken, of]
    exact ⟨iff_of_false (fun broken => broken trivial) id, Iff.rfl, fun change found => by cases found⟩

/-- An argument breaks the reading, is refused or changes the spec by what it says. -/
theorem readArgument_spec :
    (Breaks QueryError.Documented (readArgument interpreter entityType argument.1 argument.2) ↔
      argument.Broken entityType) ∧
    (Refuses QueryError.Documented (readArgument interpreter entityType argument.1 argument.2) ↔
      argument.Refused interpreter entityType) ∧
    (∀ change, readArgument interpreter entityType argument.1 argument.2 = .ok change →
      change = fun spec => spec.after interpreter entityType argument) := by
  obtain ⟨key, values⟩ := argument
  unfold readArgument
  cases read : key.text? with
  | none =>
    have kind : Argument.kind entityType (key, values) = none := by
      rw [Argument.kind, read]
      rfl
    have unread : bytes2unicode key = .error .UnicodeDecodeError := by rw [bytes2unicode, read]
    rw [unread, Argument.Broken, Argument.Refused, kind]
    exact ⟨iff_of_true id trivial, iff_of_false id id, fun _ same => by cases same⟩
  | some argStr =>
    rw [bytes2unicode_eq_ok.mpr read]
    refine readKind_spec ?_
    rw [Argument.kind, read]
    rfl

end Reading

section LastSome

variable {α β : Type} {f : α → Option β} {elements : List α}

theorem foldl_or (last : Option β) :
    elements.foldl (fun last element => (f element).or last) last = (lastSome f elements).or last := by
  unfold lastSome
  induction elements generalizing last with
  | nil => rfl
  | cons element elements ih => rw [List.foldl_cons, List.foldl_cons, ih, ih ((f element).or none), Option.or_none, Option.or_assoc]

theorem lastSome_cons {element : α} : lastSome f (element :: elements) = (lastSome f elements).or (f element) := by
  rw [lastSome, List.foldl_cons, Option.or_none, foldl_or]

theorem said_of_lastSome {value : β} (last : lastSome f elements = some value) : ∃ element ∈ elements, f element = some value := by
  induction elements with
  | nil => cases last
  | cons first elements ih =>
    rw [lastSome_cons] at last
    rcases Option.or_eq_some_iff.mp last with later | ⟨-, said⟩
    · obtain ⟨element, member, said⟩ := ih later
      exact ⟨element, List.mem_cons_of_mem _ member, said⟩
    · exact ⟨first, List.mem_cons_self, said⟩

/-- What one of them says is what the last one says, if all that say something say the same. -/
theorem lastSome_eq {element : α} {value : β} (member : element ∈ elements) (said : f element = some value)
    (same : ∀ other ∈ elements, ∀ value', f other = some value' → value' = value) : lastSome f elements = some value := by
  have spoken : lastSome f elements ≠ none := by
    clear same
    induction elements with
    | nil => cases member
    | cons first elements ih =>
      rw [lastSome_cons]
      rcases List.mem_cons.mp member with rfl | member
      · rw [said]
        cases lastSome f elements with
        | none => exact Option.some_ne_none _
        | some value' => exact Option.some_ne_none _
      · obtain ⟨value', later⟩ := Option.ne_none_iff_exists'.mp (ih member)
        rw [later]
        exact Option.some_ne_none _
  obtain ⟨value', last⟩ := Option.ne_none_iff_exists'.mp spoken
  obtain ⟨other, among, said⟩ := said_of_lastSome last
  rw [last, same other among value' said]

end LastSome

section Request

variable {interpreter : Interpreter} {entityType : EntityType} {arguments : List Argument}

theorem foldl_after (spec : QuerySpec) :
    arguments.foldl (fun spec argument => spec.after interpreter entityType argument) spec =
      { filters := spec.filters ++ arguments.flatMap (Argument.filters interpreter entityType)
        properties := spec.properties ++ arguments.flatMap (Argument.properties entityType)
        fields := (lastSome (Argument.fields entityType) arguments).or spec.fields
        order := (lastSome (Argument.order entityType) arguments).or spec.order
        limit := (lastSome (Argument.limit interpreter entityType) arguments).or spec.limit
        offset := (lastSome (Argument.offset interpreter entityType) arguments).or spec.offset } := by
  induction arguments generalizing spec with
  | nil => simp [lastSome]
  | cons argument arguments ih =>
    rw [List.foldl_cons, ih]
    simp only [QuerySpec.after, lastSome_cons, List.flatMap_cons, List.append_assoc, Option.or_assoc]

/-- How the reading of a request ends -/
theorem resultspec_from_jsonapi_spec (isCollection : Bool) :
    let result := resultspec_from_jsonapi interpreter entityType arguments isCollection
    (Unguarded (Argument.Broken entityType) (Argument.Refused interpreter entityType) arguments →
      Breaks QueryError.Documented result) ∧
    (¬ Unguarded (Argument.Broken entityType) (Argument.Refused interpreter entityType) arguments →
      (∃ argument ∈ arguments, argument.Refused interpreter entityType) → Refuses QueryError.Documented result) ∧
    ((∀ argument ∈ arguments, ¬ argument.Broken entityType ∧ ¬ argument.Refused interpreter entityType) →
      result = checkSpec isCollection (specOf interpreter entityType arguments)) := by
  intro result
  have broken := @breaks_mapM _ _ _ QueryError.Documented arguments
    fun argument => readArgument interpreter entityType argument.1 argument.2
  have refused := @refuses_mapM _ _ _ QueryError.Documented arguments
    fun argument => readArgument interpreter entityType argument.1 argument.2
  simp only [readArgument_spec.1, readArgument_spec.2.1] at broken refused
  have run : result = (do
      let spec ← (arguments.mapM fun argument => readArgument interpreter entityType argument.1 argument.2).map
        fun changes => changes.foldl (fun spec change => change spec) QuerySpec.start
      checkSpec isCollection spec) := congrArg (· >>= checkSpec isCollection) (foldlM_changes _)
  refine ⟨fun unguarded => ?_, fun guarded some => ?_, fun fine => ?_⟩
  · have breaks := broken.mpr unguarded
    rw [run]
    cases read : arguments.mapM fun argument => readArgument interpreter entityType argument.1 argument.2 with
    | ok changes =>
      rw [read] at breaks
      exact breaks.elim
    | error error =>
      rw [read] at breaks
      exact breaks
  · have refuses := refused.mpr ⟨mt broken.mp guarded, some⟩
    rw [run]
    cases read : arguments.mapM fun argument => readArgument interpreter entityType argument.1 argument.2 with
    | ok changes =>
      rw [read] at refuses
      exact refuses.elim
    | error error =>
      rw [read] at refuses
      exact refuses
  · have each : ∀ argument ∈ arguments, readArgument interpreter entityType argument.1 argument.2 =
        .ok fun spec => spec.after interpreter entityType argument := by
      intro argument member
      have whole := fine argument member
      rw [← readArgument_spec.1, ← readArgument_spec.2.1, ← exists_ok_iff] at whole
      obtain ⟨change, read⟩ := whole
      rw [read, readArgument_spec.2.2 change read]
    rw [run, mapM_eq_map each]
    exact congrArg (checkSpec isCollection) List.foldl_map

theorem specOf_eq : specOf interpreter entityType arguments =
    { filters := arguments.flatMap (Argument.filters interpreter entityType)
      properties := arguments.flatMap (Argument.properties entityType)
      fields := lastSome (Argument.fields entityType) arguments
      order := lastSome (Argument.order entityType) arguments
      limit := lastSome (Argument.limit interpreter entityType) arguments
      offset := lastSome (Argument.offset interpreter entityType) arguments } := by
  rw [specOf, foldl_after]
  simp only [QuerySpec.start, Option.or_none, List.nil_append]

theorem checkSpec_specOf (isCollection : Bool) :
    (RefusedTogether interpreter entityType isCollection arguments →
      Refuses QueryError.Documented (checkSpec isCollection (specOf interpreter entityType arguments))) ∧
    (¬ RefusedTogether interpreter entityType isCollection arguments →
      checkSpec isCollection (specOf interpreter entityType arguments) = .ok (specOf interpreter entityType arguments)) := by
  unfold RefusedTogether checkSpec
  rw [specOf_eq]
  dsimp only
  split
  · rename_i ordered
    exact ⟨fun _ => trivial, fun fine => absurd (.inl ordered) fine⟩
  · rename_i unordered
    split
    · rename_i filtered
      exact ⟨fun _ => trivial, fun fine => absurd (.inr (.inl filtered)) fine⟩
    · rename_i unfiltered
      split
      · rename_i single
        exact ⟨fun _ => trivial, fun fine => absurd (.inr (.inr single)) fine⟩
      · rename_i collection
        refine ⟨fun together => ?_, fun _ => rfl⟩
        rcases together with ordered | filtered | single
        · exact absurd ordered unordered
        · exact absurd filtered unfiltered
        · exact absurd single collection

end Request

section Kinds

variable {entityType : EntityType} {name : Text} {count : Nat}

/-- What a name with so many values is, by the order in which the names are looked for. -/
inductive Reads (entityType : EntityType) (name : Text) (count : Nat) : Kind → Prop
  | order (same : name = "order".toList) : Reads entityType name count .order
  | field (same : name = "field".toList) : Reads entityType name count .field
  | limit (same : name = "limit".toList) : Reads entityType name count .limit
  | offset (same : name = "offset".toList) : Reads entityType name count .offset
  | property (same : name = "property".toList) : Reads entityType name count .property
  | filter {fieldType : FieldType} (plain : name ∉ reserved) (typed : entityType.lookup name = some fieldType) :
      Reads entityType name count (.filter name .eq fieldType)
  | operator {field : Text} {op : Op} {fieldType : FieldType} (plain : name ∉ reserved)
      (unlisted : entityType.lookup name = none) (split : rsplit name = some (field, op.name))
      (known : op ∈ operatorsFor count) (typed : entityType.lookup field = some fieldType) :
      Reads entityType name count (.filter field op fieldType)
  | unknownFilter {field op : Text} (plain : name ∉ reserved) (unlisted : entityType.lookup name = none)
      (split : rsplit name = some (field, op))
      (unknown : ∀ operator ∈ operatorsFor count, operator.name = op → entityType.lookup field = none) :
      Reads entityType name count .unknownFilter
  | unrecognized (plain : name ∉ reserved) (unlisted : entityType.lookup name = none) (split : rsplit name = none) :
      Reads entityType name count .unrecognized

theorem kindOf_reads : Reads entityType name count (kindOf entityType name count) := by
  unfold kindOf
  split_ifs with order field limit offset property
  · exact .order order
  · exact .field field
  · exact .limit limit
  · exact .offset offset
  · exact .property property
  · have plain : name ∉ reserved := by
      simp only [reserved, List.mem_cons, List.not_mem_nil, or_false, not_or]
      exact ⟨order, field, limit, offset, property⟩
    cases typed : entityType.lookup name with
    | some fieldType => exact .filter plain typed
    | none =>
      cases split : rsplit name with
      | none => exact .unrecognized plain typed split
      | some parts =>
        obtain ⟨field, op⟩ := parts
        dsimp only
        cases found : (operatorsFor count).find? (·.name = op) with
        | none =>
          refine .unknownFilter plain typed split fun operator member same => ?_
          have unnamed := List.find?_eq_none.mp found operator member
          exact absurd (decide_eq_true same) unnamed
        | some operator =>
          cases fieldTyped : entityType.lookup field with
          | none => exact .unknownFilter plain typed split fun _ _ _ => fieldTyped
          | some fieldType =>
            have test := List.find?_some found
            have named : operator.name = op := of_decide_eq_true test
            exact .operator plain typed (named ▸ split) (List.mem_of_find?_eq_some found) fieldTyped

/-- An operator for that number of values is found. -/
theorem known_of_operatorsFor {filter : Filter Text Value} (known : filter.op ∈ operatorsFor filter.values.length) :
    filter.Known := by
  intro order containers
  unfold Filter.getOperator
  split
  · exact ⟨_, rfl⟩
  · rename_i values several
    have plural : filter.op ∈ [Op.eq, .ne, .contains, .in, .notin] := by
      unfold operatorsFor at known
      rwa [if_neg] at known
      exact fun single => (List.length_eq_one_iff.mp single).elim several
    simp only [List.mem_cons, List.not_mem_nil, or_false] at plural
    rcases plural with same | same | same | same | same
    all_goals
      rw [same]
      exact ⟨_, rfl⟩

variable {interpreter : Interpreter} {argument : Argument}

theorem filters_known {filter : Filter Text Value} (member : filter ∈ argument.filters interpreter entityType) :
    filter.op ∈ operatorsFor filter.values.length := by
  unfold Argument.filters at member
  split at member
  · rename_i field op fieldType kind
    obtain ⟨converted, read, rfl⟩ := Option.map_eq_some_iff.mp (Option.mem_toList.mp member)
    have length : (converted.map some).length = argument.2.length := by
      rw [← mapM_eq_some.mp read, List.length_map]
    dsimp only
    rw [length]
    obtain ⟨name, -, same⟩ := Option.map_eq_some_iff.mp kind
    have reads := @kindOf_reads entityType name argument.2.length
    rw [same] at reads
    cases reads with
    | filter =>
      unfold operatorsFor
      split
      · exact List.mem_cons_self
      · exact List.mem_cons_self
    | operator _ _ _ known => exact known
  · cases member

end Kinds

section Applied

variable {interpreter : Interpreter} {entityType : EntityType} {arguments : List Argument} {argument : Argument} {name : Text}

theorem kind_eq (named : argument.1.text? = some name) :
    argument.kind entityType = some (kindOf entityType name argument.2.length) := by
  rw [Argument.kind, named]
  rfl

/-- What has taken effect was not ignored. -/
theorem Heeded.applied (heeded : Heeded interpreter entityType (specOf interpreter entityType arguments) argument name)
    (named : argument.1.text? = some name) : Applied interpreter entityType arguments argument := by
  constructor
  · rintro kind same rfl
    rw [kind_eq named] at same
    have reads := @kindOf_reads entityType name argument.2.length
    rw [Option.some.inj same] at reads
    cases reads with
    | unknownFilter plain unlisted split unknown =>
      obtain ⟨field, op, fieldType, found, typed, converted, read, member⟩ := heeded.operator plain unlisted
      cases split.symm.trans found
      -- The filter is there, so its operator is one for as many values as it has.
      rw [specOf_eq] at member
      obtain ⟨other, -, among⟩ := List.mem_flatMap.mp member
      have known := filters_known among
      dsimp only at known
      have length : (converted.map some).length = argument.2.length := by
        rw [← mapM_eq_some.mp read, List.length_map]
      rw [length] at known
      rw [unknown op known rfl] at typed
      cases typed
  · intro other _ same fieldType typed
    cases named.symm.trans same
    obtain ⟨converted, read, member⟩ := heeded.filter fieldType typed
    rw [specOf_eq] at member
    exact ⟨converted, read, member⟩

def Kind.reservedName : Kind → Option Text
  | .order => some "order".toList
  | .field => some "field".toList
  | .limit => some "limit".toList
  | .offset => some "offset".toList
  | .property => some "property".toList
  | .filter .. | .unknownFilter | .unrecognized => none

theorem Reads.name_eq {count : Nat} {kind : Kind} {own : Text} (reads : Reads entityType name count kind)
    (is : kind.reservedName = some own) : name = own := by
  cases reads with
  | order same => exact same.trans (Option.some.inj is)
  | field same => exact same.trans (Option.some.inj is)
  | limit same => exact same.trans (Option.some.inj is)
  | offset same => exact same.trans (Option.some.inj is)
  | property same => exact same.trans (Option.some.inj is)
  | filter => cases is
  | operator => cases is
  | unknownFilter => cases is
  | unrecognized => cases is

theorem Reads.of_plain {count : Nat} {kind : Kind} (reads : Reads entityType name count kind) (plain : name ∉ reserved) :
    kind.reservedName = none := by
  by_contra own
  obtain ⟨own, is⟩ := Option.ne_none_iff_exists'.mp own
  have listed : own ∈ reserved := by
    cases kind with
    | order | field | limit | offset | property =>
      cases is
      decide
    | filter | unknownFilter | unrecognized => cases is
  exact plain (reads.name_eq is ▸ listed)

theorem agreeing_of_heeded (heeded : ∀ argument ∈ arguments, ∃ name, argument.1.text? = some name ∧
    Heeded interpreter entityType (specOf interpreter entityType arguments) argument name) :
    Agreeing interpreter entityType arguments := by
  have under (argument) (member : argument ∈ arguments) (kind) (same : Argument.kind entityType argument = some kind)
      (own) (is : kind.reservedName = some own) :
      Heeded interpreter entityType (specOf interpreter entityType arguments) argument own := by
    obtain ⟨name, named, heeds⟩ := heeded argument member
    cases Option.some.inj ((kind_eq named).symm.trans same)
    rwa [kindOf_reads.name_eq is] at heeds
  constructor
  · intro argument member other among same same'
    obtain ⟨_, read, said⟩ := (under argument member _ same _ rfl).order rfl
    obtain ⟨_, read', said'⟩ := (under other among _ same' _ rfl).order rfl
    rw [read, read', ← said, said']
  · intro argument member other among same same'
    obtain ⟨_, read, said⟩ := (under argument member _ same _ rfl).field rfl
    obtain ⟨_, read', said'⟩ := (under other among _ same' _ rfl).field rfl
    rw [read, read', ← said, said']
  · intro argument member other among same same' value found value' found'
    obtain ⟨_, read, said⟩ := (under argument member _ same _ rfl).limit rfl value found
    obtain ⟨_, read', said'⟩ := (under other among _ same' _ rfl).limit rfl value' found'
    rw [read, read', ← said, said']
  · intro argument member other among same same' value found value' found'
    obtain ⟨_, read, said⟩ := (under argument member _ same _ rfl).offset rfl value found
    obtain ⟨_, read', said'⟩ := (under other among _ same' _ rfl).offset rfl value' found'
    rw [read, read', ← said, said']

theorem order_eq_some {said : List Text} : argument.order entityType = some said ↔
    argument.kind entityType = some .order ∧ argument.2.mapM Arg.text? = some said := by
  unfold Argument.order
  constructor
  · intro found
    split at found
    · rename_i same
      exact ⟨same, found⟩
    · cases found
  · rintro ⟨same, found⟩
    rw [same]
    exact found

theorem fields_eq_some {said : List Text} : argument.fields entityType = some said ↔
    argument.kind entityType = some .field ∧ argument.2.mapM Arg.text? = some said := by
  unfold Argument.fields
  constructor
  · intro found
    split at found
    · rename_i same
      exact ⟨same, found⟩
    · cases found
  · rintro ⟨same, found⟩
    rw [same]
    exact found

theorem limit_eq_some {said : Int} : argument.limit interpreter entityType = some said ↔
    argument.kind entityType = some .limit ∧ argument.2.head?.bind (int interpreter) = some said := by
  unfold Argument.limit
  constructor
  · intro found
    split at found
    · rename_i same
      exact ⟨same, found⟩
    · cases found
  · rintro ⟨same, found⟩
    rw [same]
    exact found

theorem offset_eq_some {said : Int} : argument.offset interpreter entityType = some said ↔
    argument.kind entityType = some .offset ∧ argument.2.head?.bind (int interpreter) = some said := by
  unfold Argument.offset
  constructor
  · intro found
    split at found
    · rename_i same
      exact ⟨same, found⟩
    · cases found
  · rintro ⟨same, found⟩
    rw [same]
    exact found

/-- Texts count where no other argument of the kind brings others. -/
theorem heeded_texts {texts : Argument → Option (List Text)} {kind : Kind}
    (spoken : ∀ other said, texts other = some said ↔ other.kind entityType = some kind ∧ other.2.mapM Arg.text? = some said)
    (agree : ∀ argument ∈ arguments, ∀ other ∈ arguments, argument.kind entityType = some kind →
      other.kind entityType = some kind → argument.2.mapM Arg.text? = other.2.mapM Arg.text?)
    (member : argument ∈ arguments) (same : argument.kind entityType = some kind)
    (readable : ¬ ∃ value ∈ argument.2, value.text? = none) :
    ∃ names, argument.2.mapM Arg.text? = some names ∧ lastSome texts arguments = some names := by
  obtain ⟨names, read⟩ := Option.ne_none_iff_exists'.mp (mt mapM_eq_none.mp readable)
  refine ⟨names, read, lastSome_eq member ((spoken argument names).mpr ⟨same, read⟩) fun other among said found => ?_⟩
  obtain ⟨alike, readOther⟩ := (spoken other said).mp found
  rw [← agree argument member other among same alike, read] at readOther
  exact (Option.some.inj readOther).symm

/-- A number counts where no other value of the kind is another one. -/
theorem heeded_number {number : Argument → Option Int} {kind : Kind}
    (spoken : ∀ other said, number other = some said ↔
      other.kind entityType = some kind ∧ other.2.head?.bind (int interpreter) = some said)
    (agree : ∀ argument ∈ arguments, ∀ other ∈ arguments, argument.kind entityType = some kind →
      other.kind entityType = some kind →
        ∀ value ∈ argument.2, ∀ value' ∈ other.2, int interpreter value = int interpreter value')
    (member : argument ∈ arguments) (same : argument.kind entityType = some kind)
    (taken : argument.2.head?.bind (int interpreter) ≠ none) :
    ∀ value ∈ argument.2, ∃ found, int interpreter value = some found ∧ lastSome number arguments = some found := by
  intro value among
  obtain ⟨last, first⟩ := Option.ne_none_iff_exists'.mp taken
  obtain ⟨head, isHead, read⟩ := Option.bind_eq_some_iff.mp first
  have headMember := List.mem_of_mem_head? isHead
  refine ⟨last, (agree argument member argument member same same value among head headMember).trans read, ?_⟩
  refine lastSome_eq member ((spoken argument last).mpr ⟨same, first⟩) fun other amongOthers said found => ?_
  obtain ⟨alike, firstOther⟩ := (spoken other said).mp found
  obtain ⟨headOther, isHeadOther, readOther⟩ := Option.bind_eq_some_iff.mp firstOther
  have equal := agree argument member other amongOthers same alike head headMember headOther
    (List.mem_of_mem_head? isHeadOther)
  rw [read, readOther] at equal
  exact (Option.some.inj equal).symm

/-- An argument that is read, not ignored and not overridden takes effect. -/
theorem Applied.heeded (applied : Applied interpreter entityType arguments argument)
    (agreeing : Agreeing interpreter entityType arguments) (member : argument ∈ arguments)
    (fine : ¬ argument.Broken entityType ∧ ¬ argument.Refused interpreter entityType)
    (named : argument.1.text? = some name) :
    Heeded interpreter entityType (specOf interpreter entityType arguments) argument name := by
  obtain ⟨whole, taken⟩ := fine
  unfold Argument.Broken at whole
  unfold Argument.Refused at taken
  have kind := @kind_eq entityType _ _ named
  have filters {field : Text} {op : Op} {fieldType : FieldType}
      (same : argument.kind entityType = some (.filter field op fieldType)) :
      ∃ converted, argument.2.mapM (fieldType.valueFromString interpreter ·) = some converted ∧
        ⟨field, op, converted.map some⟩ ∈ arguments.flatMap (Argument.filters interpreter entityType) := by
    rw [same] at taken
    obtain ⟨converted, read⟩ := Option.ne_none_iff_exists'.mp (mt mapM_eq_none.mp taken)
    refine ⟨converted, read, List.mem_flatMap.mpr ⟨argument, member, ?_⟩⟩
    rw [Argument.filters, same]
    dsimp only
    rw [read]
    exact List.mem_singleton_self _
  rw [specOf_eq]
  constructor
  · rintro rfl
    have order : argument.kind entityType = some .order := kind.trans rfl
    rw [order] at whole
    exact heeded_texts (fun _ _ => order_eq_some) agreeing.order member order (not_or.mp whole).1
  · rintro rfl
    have field : argument.kind entityType = some .field := kind.trans rfl
    rw [field] at taken whole
    -- No field is unknown, so all of them can be read.
    have known : ∀ value ∈ argument.2, ¬ Unknown entityType false value := fun value among unknown =>
      taken ⟨by rw [Argument.Broken, field]; exact whole, value, among, unknown⟩
    rw [unguarded_iff_exists known] at whole
    exact heeded_texts (fun _ _ => fields_eq_some) agreeing.field member field fun ⟨value, among, unread⟩ =>
      whole ⟨value, among, .inl unread⟩
  · rintro rfl
    have limit : argument.kind entityType = some .limit := kind.trans rfl
    rw [limit] at taken
    exact heeded_number (fun _ _ => limit_eq_some) agreeing.limit member limit taken
  · rintro rfl
    have offset : argument.kind entityType = some .offset := kind.trans rfl
    rw [offset] at taken
    exact heeded_number (fun _ _ => offset_eq_some) agreeing.offset member offset taken
  · rintro rfl
    have property : argument.kind entityType = some .property := kind.trans rfl
    rw [property] at taken
    obtain ⟨values, read⟩ := Option.ne_none_iff_exists'.mp (mt mapM_eq_none.mp taken)
    refine ⟨values, read, List.mem_flatMap.mpr ⟨argument, member, ?_⟩⟩
    rw [Argument.properties, property]
    dsimp only
    rw [read]
    exact List.mem_singleton_self _
  · intro fieldType typed
    by_cases own : name ∈ reserved
    · exact applied.2 name own named fieldType typed
    · have reads := @kindOf_reads entityType name argument.2.length
      have none := reads.of_plain own
      rw [kind] at filters
      generalize kindOf entityType name argument.2.length = found at reads none filters
      cases reads with
      | filter _ typed' =>
        cases typed.symm.trans typed'
        exact filters rfl
      | operator _ unlisted | unknownFilter _ unlisted | unrecognized _ unlisted => cases typed.symm.trans unlisted
      | order | field | limit | offset | property => cases none
  · intro plain unlisted
    have reads := @kindOf_reads entityType name argument.2.length
    have none := reads.of_plain plain
    rw [kind] at filters taken
    generalize same : kindOf entityType name argument.2.length = found at reads none filters taken
    cases reads with
    | filter _ typed => cases typed.symm.trans unlisted
    | operator _ _ split known typed => exact ⟨_, _, _, split, typed, filters rfl⟩
    | unknownFilter => exact absurd rfl (applied.1 _ (kind.trans (congrArg some same)))
    | unrecognized => exact absurd trivial taken
    | order | field | limit | offset | property => cases none

end Applied

/-- Every argument takes effect or is refused exactly where no name breaks the reading before something is refused,
and something is refused or nothing is ignored or overridden. -/
theorem resultspec_honoured_iff (interpreter : Interpreter) (entityType : EntityType) (arguments : List Argument)
    (isCollection : Bool) :
    Honoured interpreter entityType arguments
        (resultspec_from_jsonapi interpreter entityType arguments isCollection) ↔
      ¬ Unguarded (Argument.Broken entityType) (Argument.Refused interpreter entityType) arguments ∧
      ((∃ argument ∈ arguments, argument.Refused interpreter entityType) ∨
        RefusedTogether interpreter entityType isCollection arguments ∨
        (∀ argument ∈ arguments, Applied interpreter entityType arguments argument) ∧
          Agreeing interpreter entityType arguments) := by
  obtain ⟨breaks, refuses, read⟩ := @resultspec_from_jsonapi_spec interpreter entityType arguments isCollection
  have honoured_of_refuses {result : Except QueryError QuerySpec} (refused : Refuses QueryError.Documented result) :
      Honoured interpreter entityType arguments result := by
    cases result with
    | ok => cases refused
    | error => exact refused
  by_cases unguarded : Unguarded (Argument.Broken entityType) (Argument.Refused interpreter entityType) arguments
  · refine iff_of_false ?_ fun both => both.1 unguarded
    intro honoured
    have broken := breaks unguarded
    cases ended : resultspec_from_jsonapi interpreter entityType arguments isCollection with
    | ok => exact (ended ▸ broken :)
    | error => exact (ended ▸ broken :) (ended ▸ honoured :)
  · rw [and_iff_right unguarded]
    by_cases some : ∃ argument ∈ arguments, argument.Refused interpreter entityType
    · exact iff_of_true (honoured_of_refuses (refuses unguarded some)) (.inl some)
    · have taken : ∀ argument ∈ arguments, ¬ argument.Refused interpreter entityType := fun argument member refused =>
        some ⟨argument, member, refused⟩
      have fine : ∀ argument ∈ arguments, ¬ argument.Broken entityType ∧ ¬ argument.Refused interpreter entityType :=
        fun argument member =>
          ⟨fun broken => unguarded ((unguarded_iff_exists taken).mpr ⟨argument, member, broken⟩), taken argument member⟩
      rw [read fine, or_iff_right some]
      obtain ⟨refusedTogether, kept⟩ := @checkSpec_specOf interpreter entityType arguments isCollection
      by_cases together : RefusedTogether interpreter entityType isCollection arguments
      · exact iff_of_true (honoured_of_refuses (refusedTogether together)) (.inl together)
      · rw [kept together, or_iff_right together]
        constructor
        · rintro ⟨heeded, -⟩
          refine ⟨fun argument member => ?_, agreeing_of_heeded heeded⟩
          obtain ⟨name, named, heeds⟩ := heeded argument member
          exact heeds.applied named
        · rintro ⟨applied, agreeing⟩
          refine ⟨fun argument member => ?_, fun filter member => ?_⟩
          · have whole := (fine argument member).1
            cases named : argument.1.text? with
            | none =>
              refine absurd ?_ whole
              rw [Argument.Broken, Argument.kind, named]
              trivial
            | some name => exact ⟨name, rfl, (applied argument member).heeded agreeing member (fine argument member) named⟩
          · rw [specOf_eq] at member
            obtain ⟨argument, -, among⟩ := List.mem_flatMap.mp member
            exact known_of_operatorsFor (filters_known among)

/-- An empty name to order by raises another exception, and two values for an operator that takes one are ignored. -/
theorem emptyOrder_and_ignoredFilter :
    let interpreter : Interpreter := ⟨fun _ => none, fun _ => false, 4300⟩
    let entityType : EntityType := [("name".toList, .string)]
    resultspec_from_jsonapi interpreter entityType [(.bytes (utf8 "order".toList), [.bytes (utf8 [])])] true =
        .error .IndexError ∧
      resultspec_from_jsonapi interpreter entityType
        [(.bytes (utf8 "name__lt".toList), [.bytes (utf8 "a".toList), .bytes (utf8 "b".toList)])] true =
        .ok QuerySpec.start ∧
      ¬ ∀ interpreter entityType arguments isCollection, Honoured interpreter entityType arguments
        (resultspec_from_jsonapi interpreter entityType arguments isCollection) := by
  intro interpreter entityType
  have crashes : resultspec_from_jsonapi interpreter entityType [(.bytes (utf8 "order".toList), [.bytes (utf8 [])])] true =
      .error .IndexError := by
    have key : bytes2unicode (.bytes (utf8 "order".toList)) = .ok "order".toList :=
      bytes2unicode_eq_ok.mpr (decodeUtf8_utf8 _)
    have value : bytes2unicode (.bytes (utf8 [])) = .ok [] := bytes2unicode_eq_ok.mpr (decodeUtf8_utf8 _)
    unfold resultspec_from_jsonapi readArgument
    rw [List.foldlM_cons, key]
    show (do
      let spec ← (do
        let spec ← (do
          let order ← [Arg.bytes (utf8 [])].mapM bytes2unicode
          checkFields entityType true (order.map .str)
          return fun spec : QuerySpec => { spec with order := some order })
        return spec QuerySpec.start)
      checkSpec true spec) = _
    rw [List.mapM_cons, value]
    rfl
  refine ⟨crashes, ?_, fun all => ?_⟩
  · have key : bytes2unicode (.bytes (utf8 "name__lt".toList)) = .ok "name__lt".toList :=
      bytes2unicode_eq_ok.mpr (decodeUtf8_utf8 _)
    unfold resultspec_from_jsonapi readArgument
    rw [List.foldlM_cons, key]
    rfl
  · have honoured := all interpreter entityType [(.bytes (utf8 "order".toList), [.bytes (utf8 [])])] true
    rw [crashes] at honoured
    exact honoured

end Umbilical.Data
