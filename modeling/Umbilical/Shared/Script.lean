import Mathlib.Tactic.SplitIfs

set_option autoImplicit false

/-!
# Scripts of statements

A script is straight-line code over working data `σ` that talks to an engine one
statement at a time. The engine may refuse a statement because of the data, or
fail it on its own account; either way the code surfaces the error `ε` it has
for that place and goes no further. One induction over scripts settles what
failures can do: a run is cut short by one, or is the run without any.
-/

namespace Umbilical

/-- How the engine lets one statement end. `applied` is an error reported for a `COMMIT` that took
effect, `ignored` a report of success without the effect asked for, and `died` the end of the
process, before the statement took effect or after. -/
inductive Outcome where
  | done
  | failed
  | rolledBack
  | applied
  | ignored
  | died (applied : Bool)
  deriving DecidableEq

def Calm (outcomes : List Outcome) : Prop := ∀ outcome ∈ outcomes, outcome = .done

theorem Calm.nil : Calm [] := fun _ member => nomatch member

theorem Calm.headD {outcomes : List Outcome} (calm : Calm outcomes) : outcomes.headD .done = .done := by
  cases outcomes with
  | nil => rfl
  | cons outcome _ => exact calm outcome (by simp)

theorem Calm.tail {outcomes : List Outcome} (calm : Calm outcomes) : Calm outcomes.tail :=
  fun outcome member => calm outcome (List.mem_of_mem_tail member)

inductive Script (ε σ : Type) : Type → Type 1 where
  | pure {α : Type} (value : α) : Script ε σ α
  | raise {α : Type} (error : ε) : Script ε σ α
  | statement {α β : Type} (failure : ε) (effect : σ → Option (β × σ)) (next : β → Script ε σ α) :
      Script ε σ α

/-- The end of a run, with the working data at that point. -/
inductive Ending (ε σ α : Type) where
  | returned (value : α) (data : σ)
  | raised (error : ε) (data : σ)
  | failed (error : ε) (outcome : Outcome) (data : σ)

def Ending.ofResult {ε σ α : Type} : EStateM.Result ε σ α → Ending ε σ α
  | .ok value data => .returned value data
  | .error error data => .raised error data

/-- Every error a computation can end with satisfies `allowed`. -/
def FailsOnly {ε α : Type} (allowed : ε → Prop) (result : Except ε α) : Prop :=
  ∀ error, result = .error error → allowed error

theorem FailsOnly.bind {ε α β : Type} {allowed : ε → Prop} {result : Except ε α} {next : α → Except ε β}
    (first : FailsOnly allowed result) (rest : ∀ value, FailsOnly allowed (next value)) :
    FailsOnly allowed (result >>= next) := by
  intro error failed
  cases result with
  | ok value => exact rest value error failed
  | error other =>
    cases failed
    exact first _ rfl

theorem FailsOnly.pure {ε α : Type} {allowed : ε → Prop} (value : α) :
    FailsOnly allowed (Pure.pure value : Except ε α) := nofun

theorem FailsOnly.error {ε α : Type} {allowed : ε → Prop} {error : ε} (permitted : allowed error) :
    FailsOnly allowed (.error error : Except ε α) := by
  intro other failed
  cases failed
  exact permitted

theorem FailsOnly.ite {ε α : Type} {allowed : ε → Prop} {condition : Prop} [Decidable condition]
    {first second : Except ε α} (whenTrue : FailsOnly allowed first) (whenFalse : FailsOnly allowed second) :
    FailsOnly allowed (if condition then first else second) := by
  split_ifs
  · exact whenTrue
  · exact whenFalse

theorem FailsOnly.mono {ε α : Type} {allowed allowed' : ε → Prop} {result : Except ε α}
    (only : FailsOnly allowed result) (more : ∀ error, allowed error → allowed' error) :
    FailsOnly allowed' result := fun error failed => more error (only error failed)

namespace Script

variable {ε σ α β : Type}

def bind : Script ε σ α → (α → Script ε σ β) → Script ε σ β
  | .pure value, next => next value
  | .raise error, _ => .raise error
  | .statement failure effect following, next =>
      .statement failure effect fun answer => (following answer).bind next

instance : Monad (Script ε σ) where
  pure := .pure
  bind := .bind

/-- Code that runs no statement. -/
def lift : Except ε α → Script ε σ α
  | .ok value => .pure value
  | .error error => .raise error

def execute (failure : ε) (effect : σ → Option (α × σ)) : Script ε σ α :=
  .statement failure effect .pure

/-- A statement that only reads. -/
def query (failure : ε) (answer : σ → Option α) : Script ε σ α :=
  execute failure fun data => (answer data).map (·, data)

/-- `except` clauses that only translate errors. -/
def translate (clause : ε → ε) : Script ε σ α → Script ε σ α
  | .pure value => .pure value
  | .raise error => .raise (clause error)
  | .statement failure effect next =>
      .statement (clause failure) effect fun answer => (next answer).translate clause

def run : Script ε σ α → List Outcome → σ → Ending ε σ α × List Outcome
  | .pure value, outcomes, data => (.returned value data, outcomes)
  | .raise error, outcomes, data => (.raised error data, outcomes)
  | .statement failure effect next, outcomes, data =>
      match outcomes.headD .done with
      | .done =>
          match effect data with
          | some (answer, data) => (next answer).run outcomes.tail data
          | none => (.raised failure data, outcomes.tail)
      | outcome => (.failed failure outcome data, outcomes.tail)

/-- A run outside any transaction: every statement reads the data of its own moment. -/
def observe : Script ε σ α → List Outcome → List σ → σ → Ending ε σ α × List Outcome
  | .pure value, outcomes, _, data => (.returned value data, outcomes)
  | .raise error, outcomes, _, data => (.raised error data, outcomes)
  | .statement failure effect next, outcomes, views, data =>
      match outcomes.headD .done with
      | .done =>
          match effect (views.headD data) with
          | some (answer, _) => (next answer).observe outcomes.tail views.tail data
          | none => (.raised failure data, outcomes.tail)
      | outcome => (.failed failure outcome data, outcomes.tail)

/-- The run in which no statement fails. -/
def eval : Script ε σ α → σ → EStateM.Result ε σ α
  | .pure value, data => .ok value data
  | .raise error, data => .error error data
  | .statement failure effect next, data =>
      match effect data with
      | some (answer, data) => (next answer).eval data
      | none => .error failure data

/-- Failures only cut a run short. -/
theorem run_cases (script : Script ε σ α) (outcomes : List Outcome) (data : σ) :
    (∃ error outcome reached, outcome ≠ .done ∧
        (script.run outcomes data).1 = .failed error outcome reached) ∨
      (script.run outcomes data).1 = Ending.ofResult (script.eval data) := by
  induction script generalizing outcomes data with
  | pure value => exact .inr rfl
  | raise error => exact .inr rfl
  | statement failure effect next ih =>
    unfold run eval
    cases outcomes.headD .done with
    | done =>
      cases effect data with
      | some result => exact ih result.1 outcomes.tail result.2
      | none => exact .inr rfl
    | failed | rolledBack | applied | ignored | died => exact .inl ⟨failure, _, data, by simp, rfl⟩

theorem run_calm (script : Script ε σ α) (outcomes : List Outcome) (calm : Calm outcomes) (data : σ) :
    (script.run outcomes data).1 = Ending.ofResult (script.eval data) ∧
      Calm (script.run outcomes data).2 := by
  induction script generalizing outcomes data with
  | pure value => exact ⟨rfl, calm⟩
  | raise error => exact ⟨rfl, calm⟩
  | statement failure effect next ih =>
    unfold run eval
    rw [calm.headD]
    cases effect data with
    | some result => exact ih result.1 outcomes.tail calm.tail result.2
    | none => exact ⟨rfl, calm.tail⟩

@[simp] theorem eval_pure (value : α) (data : σ) :
    (Pure.pure value : Script ε σ α).eval data = .ok value data := rfl

@[simp] theorem eval_raise (error : ε) (data : σ) :
    (raise error : Script ε σ α).eval data = .error error data := rfl

@[simp] theorem eval_lift_ok (value : α) (data : σ) :
    (lift (.ok value) : Script ε σ α).eval data = .ok value data := rfl

@[simp] theorem eval_lift_error (error : ε) (data : σ) :
    (lift (.error error) : Script ε σ α).eval data = .error error data := rfl

theorem eval_execute (failure : ε) (effect : σ → Option (α × σ)) (data : σ) :
    (execute failure effect).eval data =
      match effect data with
      | some (answer, data) => .ok answer data
      | none => .error failure data := by
  unfold execute eval
  cases effect data <;> rfl

theorem eval_query (failure : ε) (answer : σ → Option α) (data : σ) :
    (query failure answer).eval data =
      match answer data with
      | some value => .ok value data
      | none => .error failure data := by
  rw [query, eval_execute]
  cases answer data <;> rfl

theorem eval_bind (script : Script ε σ α) (next : α → Script ε σ β) (data : σ) :
    (script >>= next).eval data =
      match script.eval data with
      | .ok value data => (next value).eval data
      | .error error data => .error error data := by
  change (script.bind next).eval data = _
  induction script generalizing data with
  | pure value => rfl
  | raise error => rfl
  | statement failure effect following ih =>
    simp only [bind, eval]
    cases effect data with
    | some result => exact ih result.1 result.2
    | none => rfl

theorem bind_assoc {γ : Type} (script : Script ε σ α) (next : α → Script ε σ β) (last : β → Script ε σ γ) :
    (script >>= next) >>= last = script >>= fun value => next value >>= last := by
  change (script.bind next).bind last = script.bind fun value => (next value).bind last
  induction script with
  | pure value => rfl
  | raise error => rfl
  | statement failure effect following ih =>
    simp only [bind]
    exact congrArg _ (funext ih)

theorem lift_bind (result : Except ε α) (next : α → Except ε β) :
    (lift (result >>= next) : Script ε σ β) = lift result >>= fun value => lift (next value) := by
  cases result <;> rfl

theorem eval_map (f : α → β) (script : Script ε σ α) (data : σ) :
    (f <$> script).eval data =
      match script.eval data with
      | .ok value data => .ok (f value) data
      | .error error data => .error error data := eval_bind script (fun value => .pure (f value)) data

theorem eval_translate (clause : ε → ε) (script : Script ε σ α) (data : σ) :
    (script.translate clause).eval data =
      match script.eval data with
      | .ok value data => .ok value data
      | .error error data => .error (clause error) data := by
  induction script generalizing data with
  | pure value => rfl
  | raise error => rfl
  | statement failure effect next ih =>
    unfold translate eval
    cases effect data with
    | some result => exact ih result.1 result.2
    | none => rfl

theorem bind_ok {script : Script ε σ α} {next : α → Script ε σ β} {data reached : σ} {value : β} :
    (script >>= next).eval data = .ok value reached ↔
      ∃ answer between, script.eval data = .ok answer between ∧
        (next answer).eval between = .ok value reached := by
  rw [eval_bind]
  cases script.eval data with
  | ok answer between =>
    constructor
    · exact fun returned => ⟨answer, between, rfl, returned⟩
    · rintro ⟨_, _, same, returned⟩
      cases same
      exact returned
  | error error between =>
    constructor
    · intro returned
      cases returned
    · rintro ⟨_, _, same, _⟩
      cases same

theorem pure_ok {data reached : σ} {value result : α} :
    (Pure.pure value : Script ε σ α).eval data = .ok result reached ↔ result = value ∧ reached = data := by
  simp [eq_comm]

theorem lift_ok {result : Except ε α} {data reached : σ} {value : α} :
    (lift result : Script ε σ α).eval data = .ok value reached ↔ result = .ok value ∧ reached = data := by
  cases result <;> simp [eq_comm]

theorem query_ok {failure : ε} {answer : σ → Option α} {data reached : σ} {value : α} :
    (query failure answer).eval data = .ok value reached ↔ answer data = some value ∧ reached = data := by
  rw [eval_query]
  cases answer data <;> simp [eq_comm]

theorem execute_ok {failure : ε} {effect : σ → Option (α × σ)} {data reached : σ} {value : α} :
    (execute failure effect).eval data = .ok value reached ↔ effect data = some (value, reached) := by
  rw [eval_execute]
  cases effect data <;> simp [Prod.ext_iff]

theorem translate_ok {clause : ε → ε} {script : Script ε σ α} {data reached : σ} {value : α} :
    (script.translate clause).eval data = .ok value reached ↔ script.eval data = .ok value reached := by
  rw [eval_translate]
  cases script.eval data <;> simp

/-- Every error the code raises itself satisfies `raised`, and every error a statement surfaces as,
`surfaced`. -/
def RaisesOnly (raised surfaced : ε → Prop) : Script ε σ α → Prop
  | .pure _ => True
  | .raise error => raised error
  | .statement failure _ next => surfaced failure ∧ ∀ answer, (next answer).RaisesOnly raised surfaced

variable {raised surfaced : ε → Prop}

@[simp] theorem RaisesOnly.pure (value : α) : (Pure.pure value : Script ε σ α).RaisesOnly raised surfaced := trivial

theorem RaisesOnly.mono {raised' surfaced' : ε → Prop} {script : Script ε σ α}
    (only : script.RaisesOnly raised surfaced) (more : ∀ error, raised error → raised' error)
    (also : ∀ error, surfaced error → surfaced' error) : script.RaisesOnly raised' surfaced' := by
  induction script with
  | pure value => trivial
  | raise error => exact more error only
  | statement failure effect next ih => exact ⟨also failure only.1, fun answer => ih answer (only.2 answer)⟩

theorem RaisesOnly.bind {script : Script ε σ α} {next : α → Script ε σ β}
    (first : script.RaisesOnly raised surfaced) (rest : ∀ value, (next value).RaisesOnly raised surfaced) :
    (script >>= next).RaisesOnly raised surfaced := by
  change (script.bind next).RaisesOnly raised surfaced
  induction script with
  | pure value => exact rest value
  | raise error => exact first
  | statement failure effect following ih => exact ⟨first.1, fun answer => ih answer (first.2 answer)⟩

theorem RaisesOnly.map {script : Script ε σ α} (f : α → β) (only : script.RaisesOnly raised surfaced) :
    (f <$> script).RaisesOnly raised surfaced := RaisesOnly.bind only fun _ => trivial

/-- What code between statements has returned can be used about the rest. -/
theorem RaisesOnly.lift_bind {result : Except ε α} {next : α → Script ε σ β} (only : FailsOnly raised result)
    (rest : ∀ value, result = .ok value → (next value).RaisesOnly raised surfaced) :
    (lift result >>= next).RaisesOnly raised surfaced := by
  cases result with
  | ok value => exact rest value rfl
  | error error => exact only error rfl

theorem RaisesOnly.lift {result : Except ε α} (only : FailsOnly raised result) :
    (lift result : Script ε σ α).RaisesOnly raised surfaced := by
  cases result with
  | ok value => trivial
  | error error => exact only error rfl

theorem RaisesOnly.execute {failure : ε} {effect : σ → Option (α × σ)} (surfaces : surfaced failure) :
    (execute failure effect).RaisesOnly raised surfaced := ⟨surfaces, fun _ => trivial⟩

theorem RaisesOnly.query {failure : ε} {answer : σ → Option α} (surfaces : surfaced failure) :
    (query failure answer).RaisesOnly raised surfaced := RaisesOnly.execute surfaces

theorem RaisesOnly.translate {clause : ε → ε} {script : Script ε σ α}
    (only : script.RaisesOnly (fun error => raised (clause error)) fun error => surfaced (clause error)) :
    (script.translate clause).RaisesOnly raised surfaced := by
  induction script with
  | pure value => trivial
  | raise error => exact only
  | statement failure effect next ih => exact ⟨only.1, fun answer => ih answer (only.2 answer)⟩

theorem RaisesOnly.eval {script : Script ε σ α} (only : script.RaisesOnly raised surfaced) {data reached : σ}
    {error : ε} (ended : script.eval data = .error error reached) : raised error ∨ surfaced error := by
  induction script generalizing data with
  | pure value => cases ended
  | raise other =>
    cases ended
    exact .inl only
  | statement failure effect next ih =>
    unfold Script.eval at ended
    cases answered : effect data with
    | some result =>
      rw [answered] at ended
      exact ih result.1 (only.2 result.1) ended
    | none =>
      rw [answered] at ended
      cases ended
      exact .inr only.1

theorem RaisesOnly.run {script : Script ε σ α} (only : script.RaisesOnly raised surfaced) {outcomes : List Outcome}
    {data reached : σ} {outcome : Outcome} {error : ε}
    (failed : (script.run outcomes data).1 = .failed error outcome reached) : surfaced error := by
  induction script generalizing outcomes data with
  | pure value => cases failed
  | raise other => cases failed
  | statement failure effect next ih =>
    unfold Script.run at failed
    split at failed
    · cases answered : effect data with
      | some result =>
        rw [answered] at failed
        exact ih result.1 (only.2 result.1) failed
      | none =>
        rw [answered] at failed
        cases failed
    · cases failed
      exact only.1

/-- Whatever data in `view` each statement sees, the script returns, with a `good` value. -/
def Succeeds (view : σ → Prop) (good : α → Prop) : Script ε σ α → Prop
  | .pure value => good value
  | .raise _ => False
  | .statement _ effect next => ∀ data, view data →
      ∃ answer reached, effect data = some (answer, reached) ∧ (next answer).Succeeds view good

section Views

variable {view : σ → Prop}

theorem Succeeds.bind (good : α → Prop) {good' : β → Prop} {script : Script ε σ α} {next : α → Script ε σ β}
    (first : script.Succeeds view good) (rest : ∀ value, good value → (next value).Succeeds view good') :
    (script >>= next).Succeeds view good' := by
  change (script.bind next).Succeeds view good'
  induction script with
  | pure value => exact rest value first
  | raise error => exact first.elim
  | statement failure effect following ih =>
    intro data among
    obtain ⟨answer, reached, answered, succeeds⟩ := first data among
    exact ⟨answer, reached, answered, ih answer succeeds⟩

theorem Succeeds.lift {good : α → Prop} {result : Except ε α} {value : α} (returned : result = .ok value)
    (holds : good value) : (lift result : Script ε σ α).Succeeds view good := by
  rw [returned]
  exact holds

theorem Succeeds.query {good : α → Prop} {failure : ε} {answer : σ → Option α}
    (answers : ∀ data, view data → ∃ value, answer data = some value ∧ good value) :
    (query failure answer).Succeeds view good := by
  intro data among
  obtain ⟨value, answered, holds⟩ := answers data among
  exact ⟨value, data, by simp [answered], holds⟩

theorem Succeeds.translate {good : α → Prop} {clause : ε → ε} {script : Script ε σ α}
    (succeeds : script.Succeeds view good) : (script.translate clause).Succeeds view good := by
  induction script with
  | pure value => exact succeeds
  | raise error => exact succeeds.elim
  | statement failure effect next ih =>
    intro data among
    obtain ⟨answer, reached, answered, rest⟩ := succeeds data among
    exact ⟨answer, reached, answered, ih answer rest⟩

theorem Succeeds.observe {good : α → Prop} {script : Script ε σ α} (succeeds : script.Succeeds view good)
    {outcomes : List Outcome} (calm : Calm outcomes) {views : List σ} (among : ∀ data ∈ views, view data)
    {data : σ} (last : view data) : ∃ value, good value ∧
      (script.observe outcomes views data).1 = .returned value data ∧ Calm (script.observe outcomes views data).2 := by
  induction script generalizing outcomes views with
  | pure value => exact ⟨value, succeeds, rfl, calm⟩
  | raise error => exact succeeds.elim
  | statement failure effect next ih =>
    have current : view (views.headD data) := by
      cases views with
      | nil => exact last
      | cons first rest => exact among first (by simp)
    obtain ⟨answer, reached, answered, rest⟩ := succeeds _ current
    simp only [Script.observe, calm.headD, answered]
    exact ih answer rest calm.tail fun data member => among data (List.mem_of_mem_tail member)

end Views

end Script

end Umbilical
