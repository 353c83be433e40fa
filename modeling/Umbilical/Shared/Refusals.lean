import Mathlib.Data.List.Basic

set_option autoImplicit false

/-!
# Results that are refused, and results that break

Some of the errors of a computation are refusals: they are what it is meant to answer. Any other error breaks it. A
loop over a list ends with the first error of either kind.
-/

namespace Umbilical.Refusals

variable {ε α β : Type} (refusal : ε → Prop)

def Refuses : Except ε α → Prop
  | .ok _ => False
  | .error error => refusal error

def Breaks : Except ε α → Prop
  | .ok _ => False
  | .error error => ¬ refusal error

/-- Something breaks before anything is refused. -/
def Unguarded (breaks refused : α → Prop) (elements : List α) : Prop :=
  ∃ front element back, elements = front ++ element :: back ∧ breaks element ∧ ∀ earlier ∈ front, ¬ refused earlier

variable {refusal} {breaks refused : α → Prop} {elements : List α}

theorem not_unguarded_nil : ¬ Unguarded breaks refused [] := by
  rintro ⟨front, element, back, same, -⟩
  cases front with
  | nil => cases same
  | cons => cases same

theorem unguarded_cons {element : α} :
    Unguarded breaks refused (element :: elements) ↔ breaks element ∨ ¬ refused element ∧ Unguarded breaks refused elements := by
  constructor
  · rintro ⟨front, other, back, same, broken, earlier⟩
    cases front with
    | nil =>
      cases same
      exact .inl broken
    | cons first front =>
      cases same
      exact .inr ⟨earlier _ List.mem_cons_self,
        front, other, back, rfl, broken, fun one member => earlier one (List.mem_cons_of_mem _ member)⟩
  · rintro (broken | ⟨taken, front, other, back, rfl, broken, earlier⟩)
    · exact ⟨[], element, elements, rfl, broken, fun _ member => absurd member List.not_mem_nil⟩
    · refine ⟨element :: front, other, back, rfl, broken, fun one member => ?_⟩
      rcases List.mem_cons.mp member with rfl | member
      · exact taken
      · exact earlier one member

theorem unguarded_map {γ : Type} {f : γ → α} {elements : List γ} : Unguarded breaks refused (elements.map f) ↔
    Unguarded (fun element => breaks (f element)) (fun element => refused (f element)) elements := by
  induction elements with
  | nil => exact ⟨fun some => absurd some not_unguarded_nil, fun some => absurd some not_unguarded_nil⟩
  | cons element elements ih => rw [List.map_cons, unguarded_cons, unguarded_cons, ih]

theorem exists_mem_map {γ : Type} {f : γ → α} {elements : List γ} :
    (∃ value ∈ elements.map f, refused value) ↔ ∃ element ∈ elements, refused (f element) := by
  constructor
  · rintro ⟨_, member, found⟩
    obtain ⟨element, among, rfl⟩ := List.mem_map.mp member
    exact ⟨element, among, found⟩
  · exact fun ⟨element, among, found⟩ => ⟨f element, List.mem_map_of_mem among, found⟩

/-- Where nothing is refused, one that breaks is enough. -/
theorem unguarded_iff_exists (none : ∀ element ∈ elements, ¬ refused element) :
    Unguarded breaks refused elements ↔ ∃ element ∈ elements, breaks element := by
  constructor
  · rintro ⟨front, element, back, rfl, broken, -⟩
    exact ⟨element, List.mem_append_right _ List.mem_cons_self, broken⟩
  · rintro ⟨element, member, broken⟩
    obtain ⟨front, back, rfl⟩ := List.append_of_mem member
    exact ⟨front, element, back, rfl, broken, fun earlier among => none earlier (List.mem_append_left _ among)⟩

/-- There is a value where nothing breaks and nothing is refused. -/
theorem exists_ok_iff (refusal : ε → Prop) (result : Except ε α) :
    (∃ value, result = .ok value) ↔ ¬ Breaks refusal result ∧ ¬ Refuses refusal result := by
  cases result with
  | ok value => exact ⟨fun _ => ⟨id, id⟩, fun _ => ⟨value, rfl⟩⟩
  | error error =>
    constructor
    · rintro ⟨_, same⟩
      cases same
    · exact fun both => absurd (not_not.mp both.1) both.2

theorem breaks_bind {first : Except ε α} {next : α → Except ε β} :
    Breaks refusal (first >>= next) ↔ Breaks refusal first ∨ ∃ value, first = .ok value ∧ Breaks refusal (next value) := by
  cases first with
  | ok value =>
    refine ⟨fun broken => .inr ⟨value, rfl, broken⟩, ?_⟩
    rintro (broken | ⟨_, same, broken⟩)
    · cases broken
    · cases same
      exact broken
  | error error =>
    refine ⟨fun broken => .inl broken, ?_⟩
    rintro (broken | ⟨_, same, -⟩)
    · exact broken
    · cases same

theorem refuses_bind {first : Except ε α} {next : α → Except ε β} :
    Refuses refusal (first >>= next) ↔ Refuses refusal first ∨ ∃ value, first = .ok value ∧ Refuses refusal (next value) := by
  cases first with
  | ok value =>
    refine ⟨fun refused => .inr ⟨value, rfl, refused⟩, ?_⟩
    rintro (refused | ⟨_, same, refused⟩)
    · cases refused
    · cases same
      exact refused
  | error error =>
    refine ⟨fun refused => .inl refused, ?_⟩
    rintro (refused | ⟨_, same, -⟩)
    · exact refused
    · cases same

/-- What is done with the value of a computation does not change how it ends. -/
theorem bind_pure_spec {first : Except ε α} {make : α → β} :
    (Breaks refusal (do return make (← first)) ↔ Breaks refusal first) ∧
      (Refuses refusal (do return make (← first)) ↔ Refuses refusal first) ∧
      ∀ made, (do return make (← first)) = (.ok made : Except ε β) → ∃ value, first = .ok value ∧ made = make value := by
  cases first with
  | ok value => exact ⟨Iff.rfl, Iff.rfl, fun _ same => ⟨value, rfl, (Except.ok.inj same).symm⟩⟩
  | error error => exact ⟨Iff.rfl, Iff.rfl, fun _ same => by cases same⟩

variable {read : α → Except ε β}

/-- A loop breaks where something breaks in it before anything is refused. -/
theorem breaks_mapM : Breaks refusal (elements.mapM read) ↔
    Unguarded (fun element => Breaks refusal (read element)) (fun element => Refuses refusal (read element)) elements := by
  induction elements with
  | nil => exact ⟨False.elim, fun broken => absurd broken not_unguarded_nil⟩
  | cons element elements ih =>
    rw [List.mapM_cons, unguarded_cons, ← ih]
    cases read element with
    | error error => exact ⟨.inl, fun broken => broken.elim id fun taken => not_not.mp fun refused => taken.1 (not_not.mp refused)⟩
    | ok value =>
      cases elements.mapM read with
      | error error => exact ⟨fun broken => .inr ⟨id, broken⟩, fun broken => broken.elim False.elim And.right⟩
      | ok values => exact ⟨False.elim, fun broken => broken.elim id And.right⟩

/-- It is refused where something is refused in it, unless it breaks. -/
theorem refuses_mapM : Refuses refusal (elements.mapM read) ↔
    ¬ Breaks refusal (elements.mapM read) ∧ ∃ element ∈ elements, Refuses refusal (read element) := by
  induction elements with
  | nil => exact ⟨False.elim, fun ⟨_, _, member, _⟩ => absurd member List.not_mem_nil⟩
  | cons element elements ih =>
    rw [List.mapM_cons]
    cases first : read element with
    | error error =>
      constructor
      · exact fun refused => ⟨fun broken => broken refused, element, List.mem_cons_self, first ▸ refused⟩
      · exact fun both => not_not.mp both.1
    | ok value =>
      have later : (∃ other ∈ element :: elements, Refuses refusal (read other)) ↔
          ∃ other ∈ elements, Refuses refusal (read other) := by
        rw [List.exists_mem_cons_iff, first]
        exact ⟨fun either => either.elim False.elim id, .inr⟩
      rw [later]
      cases rest : elements.mapM read with
      | error error =>
        rw [rest] at ih
        exact ih
      | ok values =>
        rw [rest] at ih
        exact ih

theorem mapM_eq_ok {values : List β} : elements.mapM read = .ok values ↔ elements.map read = values.map .ok := by
  induction elements generalizing values with
  | nil =>
    constructor
    · rintro ⟨⟩
      rfl
    · intro same
      rw [List.map_eq_nil_iff.mp same.symm]
      rfl
  | cons element elements ih =>
    rw [List.mapM_cons, List.map_cons]
    constructor
    · intro found
      cases first : read element with
      | error error =>
        rw [first] at found
        cases found
      | ok value =>
        cases rest : elements.mapM read with
        | error error =>
          rw [first, rest] at found
          cases found
        | ok later =>
          rw [first, rest] at found
          cases found
          rw [ih.mp rest]
          rfl
    · intro same
      cases values with
      | nil => cases same
      | cons value values =>
        obtain ⟨first, later⟩ := List.cons.inj same
        rw [first, ih.mpr later]
        rfl

theorem mapM_eq_map {value : α → β} (each : ∀ element ∈ elements, read element = .ok (value element)) :
    elements.mapM read = .ok (elements.map value) := by
  induction elements with
  | nil => rfl
  | cons element elements ih =>
    rw [List.mapM_cons, each element List.mem_cons_self, ih fun other member => each other (List.mem_cons_of_mem _ member)]
    rfl

section Within

/-- A refusal, or a value with a property. -/
def Within (refusal : ε → Prop) (post : α → Prop) : Except ε α → Prop
  | .ok value => post value
  | .error error => refusal error

variable {post : α → Prop}

@[simp]
theorem within_ok {value : α} : Within refusal post (.ok value) ↔ post value := Iff.rfl

@[simp]
theorem within_error {error : ε} : Within refusal post (.error error : Except ε α) ↔ refusal error := Iff.rfl

@[simp]
theorem within_pure {value : α} : Within refusal post (pure value : Except ε α) ↔ post value := Iff.rfl

theorem within_bind {post : β → Prop} {first : Except ε α} {next : α → Except ε β} :
    Within refusal post (first >>= next) ↔ Within refusal (fun value => Within refusal post (next value)) first := by
  cases first with
  | ok value => exact Iff.rfl
  | error error => exact Iff.rfl

theorem within_congr {post' : α → Prop} {result : Except ε α} (same : ∀ value, result = .ok value → (post value ↔ post' value)) :
    Within refusal post result ↔ Within refusal post' result := by
  cases result with
  | ok value => exact same value rfl
  | error error => exact Iff.rfl

end Within

section Option

variable {convert : α → Option β}

theorem mapM_eq_none : elements.mapM convert = none ↔ ∃ element ∈ elements, convert element = none := by
  induction elements with
  | nil =>
    constructor
    · rintro ⟨⟩
    · rintro ⟨_, member, -⟩
      cases member
  | cons element elements ih =>
    rw [List.mapM_cons, List.exists_mem_cons_iff, ← ih]
    generalize elements.mapM convert = rest
    cases convert element with
    | none => exact iff_of_true rfl (.inl rfl)
    | some value =>
      cases rest with
      | none => exact iff_of_true rfl (.inr rfl)
      | some values => exact iff_of_false (Option.some_ne_none _) (not_or.mpr ⟨Option.some_ne_none _, Option.some_ne_none _⟩)

theorem mapM_eq_some {values : List β} : elements.mapM convert = some values ↔ elements.map convert = values.map some := by
  induction elements generalizing values with
  | nil =>
    constructor
    · rintro ⟨⟩
      rfl
    · intro same
      rw [List.map_eq_nil_iff.mp same.symm]
      rfl
  | cons element elements ih =>
    rw [List.mapM_cons]
    constructor
    · intro read
      obtain ⟨value, first, read⟩ := Option.bind_eq_some_iff.mp read
      obtain ⟨rest, later, read⟩ := Option.bind_eq_some_iff.mp read
      cases read
      rw [List.map_cons, first, ih.mp later]
      rfl
    · intro same
      cases values with
      | nil => cases same
      | cons value values =>
        obtain ⟨first, later⟩ := List.cons.inj same
        rw [first, ih.mpr later]
        rfl

end Option

/-- To read the changes first and to make them then is the same. -/
theorem foldlM_changes {σ : Type} {change : α → Except ε (σ → σ)} (state : σ) :
    elements.foldlM (fun state element => do return (← change element) state) state =
      (elements.mapM change).map fun changes => changes.foldl (fun state change => change state) state := by
  induction elements generalizing state with
  | nil => rfl
  | cons element elements ih =>
    rw [List.foldlM_cons, List.mapM_cons]
    cases change element with
    | error error => rfl
    | ok made =>
      refine (ih (made state)).trans ?_
      cases elements.mapM change with
      | error error => rfl
      | ok changes => rfl

end Umbilical.Refusals
