import Umbilical.Authority.Exactness
import Umbilical.Authority.Service

set_option autoImplicit false

/-!
# The operations serve the ledger

On a store that holds a ledger, the statements of every request come to the
service of that request: its answer, with the ledger after it in the tables, or
an error that leaves the tables alone and is no complaint about the store.
-/

namespace Umbilical.Authority

open Python

/-- An error about the request, not about the store. -/
def Refusal : PyError → Prop
  | .store kind _ => kind.isMalformed = false
  | .invalid _ _ | .unicodeEncodeError => True
  | _ => False

theorem Refusal.of_invalid {error : PyError} (invalid : error.Invalid) : Refusal error := by
  cases error with
  | invalid => trivial
  | _ => cases invalid

def Refuses {α : Type} (database : Database) (body : Statements α) : Prop :=
  ∃ error, body.eval database = .error error database ∧ Refusal error

/-- Statements that only look something up, or refuse. -/
def Checks {α : Type} (database : Database) (body : Statements α) : Option α → Prop
  | none => Refuses database body
  | some value => body.eval database = .ok value database

/-- Statements that come to a service, `respond` making the response of what they return. -/
def Serves {α : Type} (respond : α → Response) (database : Database) (body : Statements α) :
    Option (Response × Ledger) → Prop
  | none => Refuses database body
  | some (response, after) => ∃ value, respond value = response ∧ body.eval database = .ok value (database.store after)

section Rules

variable {α β : Type} {database : Database} {respond : β → Response} {body : Statements α} {next : α → Statements β}

theorem Refuses.bind (refuses : Refuses database body) : Refuses database (body >>= next) := by
  obtain ⟨error, evaluated, refusal⟩ := refuses
  exact ⟨error, by rw [Script.eval_bind, evaluated], refusal⟩

theorem Refuses.after {value : α} (evaluated : body.eval database = .ok value database)
    (refuses : Refuses database (next value)) : Refuses database (body >>= next) := by
  obtain ⟨error, refused, refusal⟩ := refuses
  exact ⟨error, by rw [Script.eval_bind, evaluated]; exact refused, refusal⟩

theorem Refuses.lift {result : Except PyError α} (only : FailsOnly Refusal result)
    (rest : ∀ value, result = .ok value → Refuses database (next value)) :
    Refuses database (Script.lift result >>= next) := by
  cases result with
  | error error => exact ⟨error, rfl, only error rfl⟩
  | ok value => exact .after rfl (rest value rfl)

theorem Refuses.argument {checked : Except PyError α} (invalid : FailsOnly PyError.Invalid checked)
    (rest : ∀ value, Refuses database (next value)) : Refuses database (Script.lift checked >>= next) :=
  .lift (invalid.mono fun _ => .of_invalid) fun value _ => rest value

theorem Refuses.raise {error : PyError} (refusal : Refusal error) :
    Refuses database (.raise error : Statements α) := ⟨error, rfl, refusal⟩

/-- A look-up and then a service that its refusal refuses. -/
theorem Checks.serves {answer : Option α} {service : Option (Response × Ledger)} (checks : Checks database body answer)
    (granted : ∀ value, answer = some value → Serves respond database (next value) service)
    (refused : answer = none → service = none) : Serves respond database (body >>= next) service := by
  cases answer with
  | none =>
    rw [refused rfl]
    exact Refuses.bind checks
  | some value =>
    have rest := granted value rfl
    cases service with
    | none => exact Refuses.after checks rest
    | some served =>
      obtain ⟨result, same, evaluated⟩ := rest
      exact ⟨result, same, by rw [Script.eval_bind, checks]; exact evaluated⟩

theorem Checks.refuses {answer : Option α} (checks : Checks database body answer)
    (rest : ∀ value, Refuses database (next value)) : Refuses database (body >>= next) := by
  cases answer with
  | none => exact .bind checks
  | some value => exact .after checks (rest value)

/-- Statements that the next look-up or service can be read after. -/
theorem Serves.after {value : α} {service : Option (Response × Ledger)}
    (evaluated : body.eval database = .ok value database) (serves : Serves respond database (next value) service) :
    Serves respond database (body >>= next) service :=
  @Checks.serves _ _ _ _ _ _ (some value) _ evaluated (by rintro _ ⟨⟩; exact serves) nofun

/-- A check that is passed, and one that is not. -/
theorem Serves.passed {service : Option (Response × Ledger)} {condition : Prop} [Decidable condition] {error : PyError}
    {rest : Unit → Statements β} (passes : ¬ condition) (serves : Serves respond database (rest ()) service) :
    Serves respond database (Script.lift (raiseIf condition error) >>= rest) service :=
  .after (Script.lift_ok.mpr ⟨raiseIf_ok.mpr passes, rfl⟩) serves

theorem Refuses.failed {condition : Prop} [Decidable condition] {error : PyError} {rest : Unit → Statements β}
    (fails : condition) (refusal : Refusal error) :
    Refuses database (Script.lift (raiseIf condition error) >>= rest) := by
  refine .bind ⟨error, ?_, refusal⟩
  rw [raiseIf, if_pos fails]
  rfl

end Rules

section Arguments

theorem named?_eq_some {checked : Except PyError Str} {name : Named} :
    named? checked = some name ↔ checked = .ok (Str.ofText name.val) := by
  cases checked with
  | error error => simp [named?]
  | ok str =>
    simp only [named?, Except.ok.injEq]
    cases decoded : Str.text? str with
    | none =>
      simp only [reduceCtorEq, false_iff]
      rintro rfl
      simp at decoded
    | some text =>
      obtain rfl := Str.ofText_of_text? decoded
      simp only [Str.ofText_injective.eq_iff, Option.dite_none_right_eq_some]
      constructor
      · rintro ⟨_, same⟩
        cases same
        rfl
      · rintro rfl
        exact ⟨name.property, rfl⟩

theorem Named.points_ne_nil (name : Named) : Str.ofText name.val ≠ [] := by
  intro empty
  exact name.property (List.map_eq_nil_iff.mp empty)

end Arguments

section Statements

variable {database : Database} {ledger : Ledger} (held : database.Holds 5 ledger)
include held

theorem validateStore_eval : validateStore.eval database = .ok () database := validateStore_ok.mpr ⟨⟨ledger, held⟩, rfl⟩

theorem select_eval (table : Table) (key : Text) :
    (Statements.select table (Str.ofText key)).eval database = .ok (database.find table (.text key)) database := by
  have present := held.contents table (by cases table <;> decide)
  simp only [Statements.select, Script.eval_bind, bindText_ofText, Script.eval_lift_ok, Statements.query,
    Script.eval_query, present, Option.map_some]

omit held in
theorem select_unencodable (table : Table) {key : Str} (unencodable : ¬ key.Encodable) :
    (Statements.select table key).eval database = .error .unicodeEncodeError database := by
  simp only [Statements.select, Script.eval_bind, bindText_eq_error.mpr ⟨unencodable, rfl⟩, Script.eval_lift_error]

omit held in
theorem select_refuses (table : Table) {key : Str} (unencodable : ¬ key.Encodable) :
    Refuses database (Statements.select table key) :=
  ⟨.unicodeEncodeError, select_unencodable table unencodable, trivial⟩

theorem insert_eval (after : Ledger) {table : Table} {row : Row}
    (rows : after.rows = Function.update ledger.rows table (ledger.rows table ++ [row])) :
    (Statements.insert table (.ok row)).eval database = .ok () (database.store after) := by
  have since : table.since ≤ 5 := by cases table <;> decide
  have appended : after.rows table = ledger.rows table ++ [row] := by rw [rows, Function.update_self]
  have fresh : database.find table row.key = none := by
    have distinct := after.rows_distinct table
    rw [appended, Keyed.distinct_append] at distinct
    rw [Database.find, held.rows since]
    exact distinct.2
  have admitted : table.admits row := after.rows_admitted table row (by simp [appended])
  have inserted : database.insert table row = some ((), database.store after) := by
    unfold Database.insert
    rw [if_pos ⟨by simp [held.contents table since], admitted, fresh⟩, held.rows since, held.write rows]
  simp only [Statements.insert, Script.eval_bind, Script.eval_lift_ok, Statements.execute, Script.eval_execute, inserted]

theorem update_eval (after : Ledger) {π : Type} {table : Table} {parameters : Except PyError π} {bound : π}
    {condition : π → Row → Bool} {change : π → Row → Row} {record : Row}
    (binds : parameters = .ok bound) (member : record ∈ ledger.rows table) (holds : condition bound record)
    (only : ∀ other, condition bound other → Row.key other = record.key)
    (rows : after.rows = Function.update ledger.rows table
      (Keyed.revise Row.key (change bound) record.key (ledger.rows table))) :
    (Statements.update table parameters condition change).eval database = .ok 1 (database.store after) := by
  have since : table.since ≤ 5 := by cases table <;> decide
  have distinct := ledger.rows_distinct table
  have revised : (database.rows table).map (fun row => if condition bound row then change bound row else row) =
      Keyed.revise Row.key (change bound) record.key (ledger.rows table) := by
    rw [held.rows since]
    exact Keyed.map_eq_revise distinct member holds only
  have admitted : ∀ row ∈ Keyed.revise Row.key (change bound) record.key (ledger.rows table), table.admits row := by
    have admits := after.rows_admitted table
    rwa [rows, Function.update_self] at admits
  have updated : database.update table (condition bound) (change bound) = some (1, database.store after) := by
    unfold Database.update
    rw [revised, if_pos ⟨by simp [held.contents table since], admitted⟩, held.write rows, held.rows since,
      Keyed.countP_eq_one distinct member holds only]
  simp only [Statements.update, Script.eval_bind, binds, Script.eval_lift_ok, Statements.execute,
    Script.eval_execute, updated]

end Statements

section Rows

variable {ledger : Ledger}

theorem rows_begin {scope : Text} (named : scope ≠ []) (fresh : ledger.generation scope = none) :
    (ledger.begin scope named fresh).rows = Function.update ledger.rows .controllerGenerations
      (ledger.rows .controllerGenerations ++ [[.text scope, .integer 1]]) := by
  funext table
  cases table <;> simp [Ledger.rows, Ledger.begin, Generation.row]

theorem rows_advance {generation : Generation} (found : ledger.generation generation.scope = some generation)
    (room : generation.generation < maxGeneration) :
    (ledger.advance generation found room).rows = Function.update ledger.rows .controllerGenerations
      (Keyed.revise Row.key (fun row => row.set 1 (.integer (generation.generation + 1))) generation.row.key
        (ledger.rows .controllerGenerations)) := by
  funext table
  cases table with
  | controllerGenerations =>
    rw [Function.update_self]
    refine (Keyed.revise_map Row.key Generation.row SqlValue.text_injective (fun _ => rfl) ?_).symm
    intro other member same
    obtain rfl := ledger.one_generation.eq_of_key member (Keyed.mem_of_lookup found).1 same
    rfl
  | _ => rfl

theorem rows_register {key : Text} (named : key ≠ []) (fresh : ledger.registered key = none) :
    (ledger.register key named fresh).rows = Function.update ledger.rows .executionKeys
      (ledger.rows .executionKeys ++ [keyRow key]) := by
  funext table
  cases table <;> simp [Ledger.rows, Ledger.register]

theorem rows_bind (binding : CommandBinding) (named : binding.commandSpecHash ≠ [])
    (registered : ledger.registered binding.executionKey = some binding.executionKey)
    (fresh : ledger.binding binding.executionKey = none) :
    (ledger.bind binding named registered fresh).rows = Function.update ledger.rows .executionCommandBindings
      (ledger.rows .executionCommandBindings ++ [binding.row]) := by
  funext table
  cases table <;> simp [Ledger.rows, Ledger.bind]

theorem rows_grant (admission : ExecutionAdmission) (bound : (ledger.binding admission.executionKey).isSome)
    (current : ledger.generation admission.authorityScope =
      some ⟨admission.authorityScope, admission.controllerGeneration⟩)
    (fresh : ledger.admission admission.executionKey = none) :
    (ledger.grant admission bound current fresh).rows = Function.update ledger.rows .executionAdmissions
      (ledger.rows .executionAdmissions ++ [admission.row]) := by
  funext table
  cases table <;> simp [Ledger.rows, Ledger.grant]

theorem rows_claim (admission : ExecutionAdmission) (hash : Text)
    (admitted : ledger.admission admission.executionKey = some admission)
    (bound : ledger.binding admission.executionKey = some ⟨admission.executionKey, hash⟩)
    (fresh : ledger.launch admission.executionKey = none) :
    (ledger.claim admission hash admitted bound fresh).rows = Function.update ledger.rows .executionLaunches
      (ledger.rows .executionLaunches ++ [(admission.intent hash).row]) := by
  funext table
  cases table <;> simp [Ledger.rows, Ledger.claim]

theorem rows_settle (key : Text) {state : ExecutionLaunchState} {exitCode : Option Int}
    (settled : Settled state exitCode) (change : Row → Row)
    (agrees : ∀ launch ∈ ledger.launches, launch.executionKey = key →
      change launch.row = (launch.settled state exitCode).row) :
    (ledger.settle key state exitCode settled).rows = Function.update ledger.rows .executionLaunches
      (Keyed.revise Row.key change (.text key) (ledger.rows .executionLaunches)) := by
  funext table
  cases table with
  | executionLaunches =>
    rw [Function.update_self]
    exact (Keyed.revise_map Row.key ExecutionLaunch.row SqlValue.text_injective (fun _ => rfl) agrees).symm
  | _ => rfl

theorem generation_persisted {generation : Generation} (member : generation ∈ ledger.generations) :
    validatePersistedGeneration (generation.row.cell 1) = .ok generation.generation :=
  validatePersistedGeneration_ok.mpr ⟨rfl, ledger.generation_inRange generation member⟩

theorem hash_persisted {binding : CommandBinding} (member : binding ∈ ledger.bindings) :
    validatePersistedCommandSpecHash (binding.row.cell 1) = .ok binding.commandSpecHash :=
  validatePersistedCommandSpecHash_ok.mpr ⟨rfl, ledger.hash_named binding member⟩

theorem admission_persisted {admission : ExecutionAdmission} (member : admission ∈ ledger.admissions) :
    executionAdmissionFromRow admission.row = .ok admission := by
  have key : validatePersistedExecutionKey (admission.row.cell 0) = .ok admission.executionKey :=
    validatePersistedExecutionKey_ok.mpr ⟨rfl, ledger.admission_key_named member⟩
  have scope : validatePersistedScope (admission.row.cell 1) = .ok admission.authorityScope :=
    validatePersistedScope_ok.mpr ⟨rfl, ledger.admission_scope_named member⟩
  have generation : validatePersistedGeneration (admission.row.cell 2) = .ok admission.controllerGeneration :=
    validatePersistedGeneration_ok.mpr ⟨rfl, ledger.admission_inRange admission member⟩
  rw [executionAdmissionFromRow, key, scope, generation]
  rfl

theorem launch_persisted {launch : ExecutionLaunch} (member : launch ∈ ledger.launches) :
    executionLaunchFromRow launch.row = .ok launch := by
  have admitted := ledger.launch_admitted launch member
  have key : validatePersistedExecutionKey (launch.row.cell 0) = .ok launch.executionKey :=
    validatePersistedExecutionKey_ok.mpr ⟨rfl, ledger.admission_key_named admitted⟩
  have hash : validatePersistedCommandSpecHash (launch.row.cell 1) = .ok launch.commandSpecHash :=
    validatePersistedCommandSpecHash_ok.mpr ⟨rfl, ledger.hash_named _ (ledger.launch_bound launch member)⟩
  have scope : validatePersistedScope (launch.row.cell 2) = .ok launch.authorityScope :=
    validatePersistedScope_ok.mpr ⟨rfl, ledger.admission_scope_named admitted⟩
  have generation : validatePersistedGeneration (launch.row.cell 3) = .ok launch.controllerGeneration :=
    validatePersistedGeneration_ok.mpr ⟨rfl, ledger.admission_inRange _ admitted⟩
  have state : validatePersistedLaunchState (launch.row.cell 4) = .ok launch.state :=
    validatePersistedLaunchState_ok.mpr rfl
  have exitCode : validatePersistedExitCode (launch.row.cell 5) launch.state = .ok launch.exitCode :=
    validatePersistedExitCode_ok.mpr ⟨rfl, ledger.launch_settled launch member⟩
  simp only [executionLaunchFromRow, key, hash, scope, generation, state, exitCode, bind, Except.bind]
  rfl

theorem launchCondition_holds {key : Text} {launch : ExecutionLaunch} (found : ledger.launch key = some launch)
    (early : launch.state ≠ .terminal) : launchCondition launch.state (key, launch.commandSpecHash) launch.row := by
  obtain ⟨member, rfl⟩ := Keyed.mem_of_lookup found
  simp [launchCondition, ExecutionLaunch.row, Row.cell, ledger.launch_open member early, exitCodeCell]

omit ledger in
theorem launchCondition_key {state : ExecutionLaunchState} {key : Text × Text} {row : Row}
    (met : launchCondition state key row) : row.cell 0 = .text key.1 := by
  simp only [launchCondition, decide_eq_true_eq] at met
  exact met.1

omit ledger in
theorem launchKeyParameters_eval (key hash : Text) :
    launchKeyParameters (Str.ofText key) (Str.ofText hash) = .ok (key, hash) := by
  simp only [launchKeyParameters, bindText_ofText, bind, Except.bind]
  rfl

end Rows

section Fragments

variable {database : Database} {ledger : Ledger} (held : database.Holds 5 ledger)
include held

omit held in
theorem checkPersistedKey_eval {key : Text} (member : key ∈ ledger.keys) :
    (checkPersistedKey (Str.ofText key) (keyRow key)).eval database = .ok () database := by
  have persisted : validatePersistedExecutionKey ((keyRow key).cell 0) = .ok key :=
    validatePersistedExecutionKey_ok.mpr ⟨rfl, ledger.key_named key member⟩
  simp [checkPersistedKey, persisted, bind, Except.bind, raiseIf]

theorem requireRegistered_checks (key : Text) (message : String) :
    Checks database (requireRegistered (Str.ofText key) message)
      (if ledger.registered key = some key then some () else none) := by
  have selected := select_eval held .executionKeys key
  rw [held.find_key (by decide)] at selected
  rcases ledger.registered_cases key with registered | missing
  · rw [registered] at selected
    rw [if_pos registered]
    change (_ >>= _ : Statements Unit).eval database = _
    rw [Script.eval_bind, selected]
    exact checkPersistedKey_eval (ledger.registered_iff.mp registered)
  · rw [missing] at selected
    rw [if_neg (by simp [missing])]
    exact Refuses.after selected (.raise rfl)

theorem requireBinding_checks (key : Text) (message : String) :
    Checks database (requireBinding (Str.ofText key) message) ((ledger.binding key).map CommandBinding.commandSpecHash) := by
  have selected := select_eval held .executionCommandBindings key
  rw [held.find_binding (by decide)] at selected
  cases found : ledger.binding key with
  | none =>
    rw [found] at selected
    exact Refuses.after selected (.raise rfl)
  | some binding =>
    rw [found] at selected
    change (_ >>= _ : Statements Text).eval database = _
    rw [Script.eval_bind, selected]
    simp only [Option.map_some, hash_persisted (Keyed.mem_of_lookup found).1, Script.eval_lift_ok]

theorem requireCurrentGeneration_checks (scope : Text) (generation : Int) (message : String) :
    Checks database (requireCurrentGeneration (Str.ofText scope) generation message)
      (if ledger.generation scope = some ⟨scope, generation⟩ then some () else none) := by
  have selected := select_eval held .controllerGenerations scope
  rw [held.find_generation (by decide)] at selected
  cases found : ledger.generation scope with
  | none =>
    rw [found] at selected
    exact Refuses.after selected (.raise rfl)
  | some current =>
    rw [found] at selected
    obtain ⟨member, rfl⟩ := Keyed.mem_of_lookup found
    have persisted := generation_persisted member
    by_cases same : current.generation = generation
    · subst same
      rw [if_pos rfl]
      change (_ >>= _ : Statements Unit).eval database = _
      rw [Script.eval_bind, selected]
      simp [persisted, bind, Except.bind, raiseIf]
    · rw [if_neg fun equal => same (congrArg Generation.generation (Option.some.inj equal))]
      refine Refuses.after selected ?_
      simp only [Option.map_some, persisted, bind, Except.bind, raiseIf, ne_eq, same, not_false_iff, if_true]
      exact ⟨_, rfl, rfl⟩

theorem requireAdmission_checks (key scope : Text) (generation : Int) :
    Checks database (requireAdmission (Str.ofText key) (Str.ofText scope) generation)
      (if ledger.admission key = some ⟨key, scope, generation⟩ then some () else none) := by
  have selected := select_eval held .executionAdmissions key
  rw [held.find_admission (by decide)] at selected
  cases found : ledger.admission key with
  | none =>
    rw [found] at selected
    exact Refuses.after selected (.raise rfl)
  | some admission =>
    rw [found] at selected
    obtain ⟨member, rfl⟩ := Keyed.mem_of_lookup found
    have persistedScope : validatePersistedScope (admission.row.cell 1) = .ok admission.authorityScope :=
      validatePersistedScope_ok.mpr ⟨rfl, ledger.admission_scope_named member⟩
    have persisted : validatePersistedGeneration (admission.row.cell 2) = .ok admission.controllerGeneration :=
      validatePersistedGeneration_ok.mpr ⟨rfl, ledger.admission_inRange admission member⟩
    by_cases same : admission.authorityScope = scope ∧ admission.controllerGeneration = generation
    · obtain ⟨rfl, rfl⟩ := same
      rw [if_pos rfl]
      change (_ >>= _ : Statements Unit).eval database = _
      rw [Script.eval_bind, selected]
      simp [persistedScope, persisted, bind, Except.bind, raiseIf]
    · rw [if_neg fun equal => same ⟨congrArg ExecutionAdmission.authorityScope (Option.some.inj equal),
        congrArg ExecutionAdmission.controllerGeneration (Option.some.inj equal)⟩]
      refine Refuses.after selected ?_
      have differing : Str.ofText admission.authorityScope ≠ Str.ofText scope ∨
          admission.controllerGeneration ≠ generation := by
        rw [ne_eq, Str.ofText_injective.eq_iff]
        exact not_and_or.mp same
      simp only [Option.map_some, persistedScope, persisted, bind, Except.bind, raiseIf, differing, if_true]
      exact ⟨_, rfl, rfl⟩

theorem requireLaunch_checks (key hash : Named) (state : ExecutionLaunchState) (missing mismatch illegal : String) :
    Checks database (requireLaunch (Str.ofText key.val) (Str.ofText hash.val) state missing mismatch illegal)
      (ledger.launchIn state key hash) := by
  have selected := select_eval held .executionLaunches key.val
  rw [held.find_launch (by decide)] at selected
  unfold Ledger.launchIn
  cases found : ledger.launch key.val with
  | none =>
    rw [found] at selected
    exact Refuses.after selected (.raise rfl)
  | some launch =>
    rw [found] at selected
    have persisted := launch_persisted (Keyed.mem_of_lookup found).1
    by_cases same : launch.commandSpecHash = hash.val
    · by_cases required : launch.state = state
      · simp only [Option.filter_some, same, required, and_self, decide_true, if_true]
        change (_ >>= _ : Statements ExecutionLaunch).eval database = _
        rw [Script.eval_bind, selected]
        simp [persisted, bind, Except.bind, raiseIf, same, required, pure, Except.pure]
      · simp only [Option.filter_some, same, required, and_false, decide_false, Bool.false_eq_true, if_false]
        refine Refuses.after selected ?_
        simp only [Option.map_some, persisted, bind, Except.bind, raiseIf, same, required, ne_eq, not_true_eq_false,
          not_false_iff, if_true, if_false]
        exact ⟨_, rfl, rfl⟩
    · simp only [Option.filter_some, same, false_and, decide_false, Bool.false_eq_true, if_false]
      refine Refuses.after selected ?_
      simp only [Option.map_some, persisted, bind, Except.bind, raiseIf, Str.ofText_injective.eq_iff, same, ne_eq,
        not_false_iff, if_true]
      exact ⟨_, rfl, rfl⟩

end Fragments

section Bodies

variable {database : Database} {ledger : Ledger} (held : database.Holds 5 ledger)
include held

theorem Serves.unchanged {α : Type} {respond : α → Response} {body : Statements α} (value : α)
    (evaluated : body.eval database = .ok value database) :
    Serves respond database body (some (respond value, ledger)) :=
  ⟨value, rfl, by rw [evaluated, held.store_self]⟩

theorem acquireGenerationBody_serves (scope : Named) :
    Serves .acquired database (acquireGenerationBody (Str.ofText scope.val)) (ledger.serveGeneration scope) := by
  have selected := select_eval held .controllerGenerations scope.val
  rw [held.find_generation (by decide)] at selected
  unfold Ledger.serveGeneration
  split
  · rename_i fresh
    rw [fresh] at selected
    refine .after (validateStore_eval held) (.after selected ⟨1, rfl, ?_⟩)
    have one : bindInteger 1 = .ok 1 := rfl
    simp only [Option.map_none, bindText_ofText, one, bind, Except.bind, pure, Except.pure]
    exact Script.bind_ok.mpr ⟨(), _, insert_eval held _ (rows_begin scope.property fresh), rfl⟩
  · rename_i generation found
    rw [found] at selected
    obtain ⟨member, same⟩ := Keyed.mem_of_lookup found
    obtain ⟨positive, bounded⟩ := ledger.generation_inRange generation member
    have persisted := generation_persisted member
    split_ifs with room
    · obtain ⟨scope, named⟩ := scope
      obtain rfl : generation.scope = scope := same
      refine .after (validateStore_eval held) (.after selected ⟨generation.generation + 1, rfl, ?_⟩)
      have next : bindInteger (generation.generation + 1) = .ok (generation.generation + 1) :=
        bindInteger_of_le (by simp only [minSqliteInteger]; omega)
          (by simp only [maxSqliteInteger, maxGeneration] at *; omega)
      have current : bindInteger generation.generation = .ok generation.generation :=
        bindInteger_of_le (by simp only [minSqliteInteger]; omega)
          (by simp only [maxSqliteInteger, maxGeneration] at *; omega)
      have below : ¬ generation.generation = maxGeneration := by omega
      simp only [Option.map_some, persisted, Script.eval_bind, Script.eval_lift_ok, raiseIf, below, if_false]
      rw [update_eval held (ledger.advance generation found room) (by rw [next, bindText_ofText, current]; rfl)
        (List.mem_map_of_mem member) (by simp [Generation.row, Row.cell]) ?_ (rows_advance found room)]
      · rfl
      · intro other met
        simp only [decide_eq_true_eq] at met
        exact met.1
    · refine .after (validateStore_eval held) (.after selected ?_)
      have last : generation.generation = maxGeneration := by omega
      simp only [Option.map_some, persisted, last, raiseIf]
      exact ⟨_, rfl, rfl⟩

theorem readGenerationBody_eval (scope : Text) : (readGenerationBody (Str.ofText scope)).eval database =
    .ok ((ledger.generation scope).map Generation.generation) database := by
  have selected := select_eval held .controllerGenerations scope
  rw [held.find_generation (by decide)] at selected
  unfold readGenerationBody
  rw [Script.eval_bind, validateStore_eval held]
  cases found : ledger.generation scope with
  | none =>
    rw [found] at selected
    simp only [Script.eval_bind, selected]
    rfl
  | some generation =>
    rw [found] at selected
    simp only [Script.eval_bind, selected, Option.map_some, generation_persisted (Keyed.mem_of_lookup found).1,
      Script.eval_map, Script.eval_lift_ok]

theorem registerExecutionKeyBody_serves (key : Named) :
    Serves .registration database (registerExecutionKeyBody (Str.ofText key.val)) (ledger.serveRegistration key) := by
  have selected := select_eval held .executionKeys key.val
  rw [held.find_key (by decide)] at selected
  unfold Ledger.serveRegistration
  split
  · rename_i fresh
    rw [fresh] at selected
    refine .after (validateStore_eval held) (.after selected ⟨.new, rfl, ?_⟩)
    simp only [Option.map_none, bindText_ofText, bind, Except.bind, pure, Except.pure]
    exact Script.bind_ok.mpr ⟨(), _, insert_eval held _ (rows_register key.property fresh), rfl⟩
  · rename_i other found
    obtain ⟨member, same⟩ := Keyed.mem_of_lookup found
    obtain rfl : other = key.val := same
    rw [found] at selected
    refine .after (validateStore_eval held) (.after selected (.unchanged held ExecutionKeyRegistration.duplicate ?_))
    simp only [Option.map_some, Script.eval_bind, checkPersistedKey_eval member]
    rfl

theorem executionKeyExistsBody_eval (key : Text) : (executionKeyExistsBody (Str.ofText key)).eval database =
    .ok (ledger.registered key).isSome database := by
  have selected := select_eval held .executionKeys key
  rw [held.find_key (by decide)] at selected
  unfold executionKeyExistsBody
  rw [Script.eval_bind, validateStore_eval held]
  rcases ledger.registered_cases key with registered | missing
  · rw [registered] at selected
    simp only [Script.eval_bind, selected, Option.map_some, checkPersistedKey_eval (ledger.registered_iff.mp registered)]
    rw [registered]
    rfl
  · rw [missing] at selected
    simp only [Script.eval_bind, selected]
    rw [missing]
    rfl

theorem bindCommandSpecHashBody_serves (key hash : Named) :
    Serves .binding database (bindCommandSpecHashBody (Str.ofText key.val) (Str.ofText hash.val))
      (ledger.serveBinding key hash) := by
  have selected := select_eval held .executionCommandBindings key.val
  rw [held.find_binding (by decide)] at selected
  unfold Ledger.serveBinding
  refine .after (validateStore_eval held) ((requireRegistered_checks held key.val _).serves ?_ ?_)
  · intro _ registered
    have registered : ledger.registered key.val = some key.val := by simpa using registered
    rw [dif_pos registered]
    split
    · rename_i fresh
      rw [fresh] at selected
      refine .after selected ⟨.bound, rfl, ?_⟩
      simp only [Option.map_none, bindText_ofText, bind, Except.bind, pure, Except.pure]
      exact Script.bind_ok.mpr ⟨(), _,
        insert_eval held _ (rows_bind ⟨key.val, hash.val⟩ hash.property registered fresh), rfl⟩
    · rename_i binding found
      rw [found] at selected
      have persisted := hash_persisted (Keyed.mem_of_lookup found).1
      split_ifs with same
      · refine .after selected (.unchanged held CommandSpecBindingResult.alreadyBound ?_)
        simp only [Option.map_some, persisted, Script.eval_bind, Script.eval_lift_ok, raiseIf, same, ne_eq,
          not_true_eq_false, if_false]
        rfl
      · refine .after selected ?_
        simp only [Option.map_some, persisted, raiseIf, Str.ofText_injective.eq_iff, ne_eq]
        refine .after rfl ?_
        rw [if_pos same]
        exact ⟨_, rfl, rfl⟩
  · intro missing
    rw [dif_neg fun found => by simp [found] at missing]

/-- The read of a registered key that three operations are. -/
theorem readBody_serves {α : Type} {respond : α → Response} {key : Named} {message : String} {value : α}
    {rest : Unit → Statements α} (evaluated : (rest ()).eval database = .ok value database) :
    Serves respond database (do validateStore; let nothing ← requireRegistered (Str.ofText key.val) message; rest nothing)
      (ledger.serveRead key (respond value)) := by
  refine .after (validateStore_eval held) ((requireRegistered_checks held key.val message).serves ?_ ?_)
  · intro _ registered
    rw [Ledger.serveRead, if_pos (by simpa using registered)]
    exact .unchanged held value evaluated
  · intro missing
    rw [Ledger.serveRead, if_neg (by simpa using missing)]

theorem readCommandSpecHashBody_serves (key : Named) :
    Serves .commandSpecHash database (readCommandSpecHashBody (Str.ofText key.val))
      (ledger.serveRead key (.commandSpecHash ((ledger.binding key.val).map CommandBinding.commandSpecHash))) := by
  refine readBody_serves held ?_
  have selected := select_eval held .executionCommandBindings key.val
  rw [held.find_binding (by decide)] at selected
  cases found : ledger.binding key.val with
  | none =>
    rw [found] at selected
    exact Script.bind_ok.mpr ⟨_, _, selected, rfl⟩
  | some binding =>
    rw [found] at selected
    refine Script.bind_ok.mpr ⟨_, _, selected, ?_⟩
    simp only [Option.map_some, hash_persisted (Keyed.mem_of_lookup found).1, Script.eval_map, Script.eval_lift_ok]

theorem readExecutionAdmissionBody_serves (key : Named) :
    Serves .admitted database (readExecutionAdmissionBody (Str.ofText key.val))
      (ledger.serveRead key (.admitted (ledger.admission key.val))) := by
  refine readBody_serves held ?_
  have selected := select_eval held .executionAdmissions key.val
  rw [held.find_admission (by decide)] at selected
  cases found : ledger.admission key.val with
  | none =>
    rw [found] at selected
    exact Script.bind_ok.mpr ⟨_, _, selected, rfl⟩
  | some admission =>
    rw [found] at selected
    refine Script.bind_ok.mpr ⟨_, _, selected, ?_⟩
    simp only [Option.map_some, admission_persisted (Keyed.mem_of_lookup found).1, Script.eval_map, Script.eval_lift_ok]

theorem readExecutionLaunchBody_serves (key : Named) :
    Serves .launch database (readExecutionLaunchBody (Str.ofText key.val))
      (ledger.serveRead key (.launch (ledger.launch key.val))) := by
  refine readBody_serves held ?_
  have selected := select_eval held .executionLaunches key.val
  rw [held.find_launch (by decide)] at selected
  cases found : ledger.launch key.val with
  | none =>
    rw [found] at selected
    exact Script.bind_ok.mpr ⟨_, _, selected, rfl⟩
  | some launch =>
    rw [found] at selected
    refine Script.bind_ok.mpr ⟨_, _, selected, ?_⟩
    simp only [Option.map_some, launch_persisted (Keyed.mem_of_lookup found).1, Script.eval_map, Script.eval_lift_ok]

theorem admitExecutionBody_serves (key scope : Named) {generation : Int} (inRange : InRange generation) :
    Serves .admission database (admitExecutionBody (Str.ofText key.val) (Str.ofText scope.val) generation)
      (ledger.serveAdmission key scope generation) := by
  have selected := select_eval held .executionAdmissions key.val
  rw [held.find_admission (by decide)] at selected
  unfold Ledger.serveAdmission
  refine .after (validateStore_eval held) ((requireRegistered_checks held key.val _).serves ?_ ?_)
  · rintro _ -
    refine (requireBinding_checks held key.val _).serves ?_ ?_
    · intro hash bound
      have bound : (ledger.binding key.val).isSome := by
        obtain ⟨binding, found, _⟩ := Option.map_eq_some_iff.mp bound
        simp [found]
      refine (requireCurrentGeneration_checks held scope.val generation _).serves ?_ ?_
      · intro _ current
        have current : ledger.generation scope.val = some ⟨scope.val, generation⟩ := by simpa using current
        rw [dif_pos ⟨bound, current⟩]
        split
        · rename_i fresh
          rw [fresh] at selected
          refine .after selected ⟨.admitted, rfl, ?_⟩
          have stored : bindInteger generation = .ok generation := bindInteger_of_le
            (by simp only [minSqliteInteger, InRange] at *; omega)
            (by simp only [maxSqliteInteger, maxGeneration, InRange] at *; omega)
          simp only [Option.map_none, bindText_ofText, stored, bind, Except.bind, pure, Except.pure]
          exact Script.bind_ok.mpr ⟨(), _,
            insert_eval held _ (rows_grant ⟨key.val, scope.val, generation⟩ bound current fresh), rfl⟩
        · rename_i admission found
          rw [found] at selected
          refine .after selected ?_
          simp only [Option.map_some, admission_persisted (Keyed.mem_of_lookup found).1]
          refine .after rfl ?_
          simp only [Str.ofText_injective.eq_iff, ne_eq, raiseIf]
          split_ifs with conflict same same
          · rcases conflict with other | other | other <;> exact absurd (by rw [same]) other
          · exact ⟨_, rfl, rfl⟩
          · exact .unchanged held ExecutionAdmissionResult.alreadyAdmitted rfl
          · refine absurd ?_ same
            obtain ⟨one, two, three⟩ : admission.executionKey = key.val ∧ admission.authorityScope = scope.val ∧
              admission.controllerGeneration = generation := by simpa using conflict
            rw [← one, ← two, ← three]
      · intro stale
        rw [dif_neg fun ready => by simp [ready.2] at stale]
    · intro unbound
      rw [dif_neg fun ready => by simp [Option.map_eq_none_iff.mp unbound] at ready]
  · intro missing
    have missing : ledger.registered key.val ≠ some key.val := by simpa using missing
    refine dif_neg fun ready => missing ?_
    obtain ⟨binding, found⟩ := Option.isSome_iff_exists.mp ready.1
    exact ledger.registered_of_binding found

theorem claimExecutionLaunchBody_serves (key scope hash : Named) {generation : Int} (inRange : InRange generation) :
    Serves .claimed database
      (claimExecutionLaunchBody (Str.ofText key.val) (Str.ofText scope.val) generation (Str.ofText hash.val))
      (ledger.serveClaim key scope generation hash) := by
  have selected := select_eval held .executionLaunches key.val
  rw [held.find_launch (by decide)] at selected
  unfold Ledger.serveClaim
  refine .after (validateStore_eval held) ((requireRegistered_checks held key.val _).serves ?_ ?_)
  · rintro _ -
    refine (requireBinding_checks held key.val _).serves ?_ ?_
    · intro boundHash found
      obtain ⟨binding, found, rfl⟩ := Option.map_eq_some_iff.mp found
      by_cases same : binding.commandSpecHash = hash.val
      · refine .passed (by simp [same]) ?_
        have bound : ledger.binding key.val = some ⟨key.val, hash.val⟩ := by
          obtain ⟨member, named⟩ : binding ∈ ledger.bindings ∧ binding.executionKey = key.val := Keyed.mem_of_lookup ‹_›
          rw [← same, ← named]
          exact ledger.one_binding.lookup_self member
        refine (requireAdmission_checks held key.val scope.val generation).serves ?_ ?_
        · intro _ admitted
          have admitted : ledger.admission key.val = some ⟨key.val, scope.val, generation⟩ := by simpa using admitted
          refine (requireCurrentGeneration_checks held scope.val generation _).serves ?_ ?_
          · intro _ current
            have current : ledger.generation scope.val = some ⟨scope.val, generation⟩ := by simpa using current
            refine .after selected ?_
            by_cases fresh : ledger.launch key.val = none
            · rw [dif_pos ⟨admitted, bound, fresh, current⟩]
              have stored : bindInteger generation = .ok generation := bindInteger_of_le
                (by simp only [minSqliteInteger, InRange] at *; omega)
                (by simp only [maxSqliteInteger, maxGeneration, InRange] at *; omega)
              refine .passed (by simp [fresh]) ⟨ExecutionAdmission.intent ⟨key.val, scope.val, generation⟩ hash.val, rfl, ?_⟩
              have intended : launchIntent (Str.ofText key.val) (Str.ofText scope.val) generation (Str.ofText hash.val) =
                  .ok (ExecutionAdmission.intent ⟨key.val, scope.val, generation⟩ hash.val) := by
                simp only [launchIntent, bindText_ofText, stored, bind, Except.bind]
                rfl
              refine Script.bind_ok.mpr ⟨_, _, Script.lift_ok.mpr ⟨intended, rfl⟩, ?_⟩
              exact Script.bind_ok.mpr ⟨(), _,
                insert_eval held _ (rows_claim ⟨key.val, scope.val, generation⟩ hash.val admitted bound fresh), rfl⟩
            · rw [dif_neg fun ready => fresh ready.2.2.1]
              exact .failed (by simpa using fresh) rfl
          · intro stale
            rw [dif_neg fun ready => by simp [ready.2.2.2] at stale]
        · intro unadmitted
          rw [dif_neg fun ready => by simp [ready.1] at unadmitted]
      · rw [dif_neg fun ready => same (by simpa [ready.2.1] using found.symm)]
        exact .failed (by simpa [Str.ofText_injective.eq_iff] using same) rfl
    · intro unbound
      rw [dif_neg fun ready => by simp [ready.2.1] at unbound]
  · intro missing
    have missing : ledger.registered key.val ≠ some key.val := by simpa using missing
    exact dif_neg fun ready => missing (ledger.registered_of_binding ready.2.1)

theorem settle_eval {π : Type} {parameters : Except PyError π} {bound : π} {condition : π → Row → Bool}
    {change : π → Row → Row} {key : Text} {launch : ExecutionLaunch} {state : ExecutionLaunchState}
    {exitCode : Option Int} (settled : Settled state exitCode) (found : ledger.launch key = some launch)
    (binds : parameters = .ok bound) (holds : condition bound launch.row)
    (only : ∀ row, condition bound row → row.cell 0 = .text key)
    (changes : change bound launch.row = (launch.settled state exitCode).row) :
    (Statements.update .executionLaunches parameters condition change).eval database =
      .ok 1 (database.store (ledger.settle key state exitCode settled)) := by
  obtain ⟨member, rfl⟩ := Keyed.mem_of_lookup found
  refine update_eval held _ binds (List.mem_map_of_mem member) holds only (rows_settle _ settled _ ?_)
  intro other among same
  obtain rfl := ledger.one_launch.eq_of_key among member same
  exact changes

theorem markExecutionLaunchUnknownBody_serves (key hash : Named) :
    Serves .marked database (markExecutionLaunchUnknownBody (Str.ofText key.val) (Str.ofText hash.val))
      (ledger.serveUnknown key hash) := by
  refine .after (validateStore_eval held) ((requireLaunch_checks held key hash .intent _ _ _).serves ?_ ?_)
  · intro launch intended
    rw [Ledger.serveUnknown, intended]
    obtain ⟨found, same, state⟩ := Ledger.launchIn_eq_some.mp intended
    have early : launch.state ≠ .terminal := by simp [state]
    have holds := launchCondition_holds found early
    rw [same, state] at holds
    refine ⟨launch.settled .unknown none, rfl, Script.bind_ok.mpr ⟨1, _, ?_, rfl⟩⟩
    refine settle_eval held unknown_settled found (launchKeyParameters_eval _ _) holds (fun _ => launchCondition_key) ?_
    simp only [ExecutionLaunch.row, ExecutionLaunch.settled, ledger.launch_open (Keyed.mem_of_lookup found).1 early]
    rfl
  · intro missing
    rw [Ledger.serveUnknown, missing]
    rfl

theorem recordExecutionTerminalResultBody_serves (key hash : Named) (exitCode : ExitCode) :
    Serves .recorded database
      (recordExecutionTerminalResultBody (Str.ofText key.val) (Str.ofText hash.val) exitCode.val)
      (ledger.serveTerminal key hash exitCode) := by
  obtain ⟨exitCode, low, high⟩ := exitCode
  refine .after (validateStore_eval held) ((requireLaunch_checks held key hash .unknown _ _ _).serves ?_ ?_)
  · intro launch unknown
    rw [Ledger.serveTerminal, unknown]
    obtain ⟨found, same, state⟩ := Ledger.launchIn_eq_some.mp unknown
    have holds := launchCondition_holds found (by simp [state])
    rw [same, state] at holds
    have bound : (do
        let exitCode ← bindInteger exitCode
        let key ← launchKeyParameters (Str.ofText key.val) (Str.ofText hash.val)
        return (exitCode, key)) = Except.ok (exitCode, (key.val, hash.val)) := by
      rw [bindInteger_of_le low high, launchKeyParameters_eval]
      rfl
    refine ⟨launch.settled .terminal (some exitCode), rfl, Script.bind_ok.mpr ⟨1, _, ?_, rfl⟩⟩
    exact settle_eval held (terminal_settled low high) found bound holds (fun _ => launchCondition_key) rfl
  · intro missing
    rw [Ledger.serveTerminal, missing]
    rfl

end Bodies

section Requests

variable {database : Database} {ledger : Ledger}

theorem Serves.map {α : Type} {respond : α → Response} {body : Statements α} {service : Option (Response × Ledger)}
    (serves : Serves respond database body service) : Serves id database (respond <$> body) service := by
  cases service with
  | none =>
    obtain ⟨error, evaluated, refusal⟩ := serves
    exact ⟨error, by rw [Script.eval_map, evaluated], refusal⟩
  | some served =>
    obtain ⟨value, same, evaluated⟩ := serves
    exact ⟨served.1, rfl, by rw [Script.eval_map, evaluated, ← same]⟩

theorem Serves.lift {α β : Type} {respond : β → Response} {checked : Except PyError α} {next : α → Statements β}
    {service : α → Option (Response × Ledger)} (invalid : FailsOnly PyError.Invalid checked)
    (serves : ∀ value, checked = .ok value → Serves respond database (next value) (service value)) :
    Serves respond database (Script.lift checked >>= next) (checked.toOption.bind service) := by
  cases checked with
  | error error => exact ⟨error, rfl, .of_invalid (invalid error rfl)⟩
  | ok value => exact .after rfl (serves value rfl)

/-- A string argument is stored as the text it is, or refused. -/
theorem Serves.named {β : Type} {respond : β → Response} {checked : Except PyError Str} {next : Str → Statements β}
    {service : Named → Option (Response × Ledger)} (invalid : FailsOnly PyError.Invalid checked)
    (nonEmpty : ∀ str, checked = .ok str → str ≠ [])
    (unencodable : ∀ str, ¬ str.Encodable → Refuses database (next str))
    (encodable : ∀ name : Named, Serves respond database (next (Str.ofText name.val)) (service name)) :
    Serves respond database (Script.lift checked >>= next) ((named? checked).bind service) := by
  cases checked with
  | error error => exact ⟨error, rfl, .of_invalid (invalid error rfl)⟩
  | ok str =>
    by_cases stored : str.Encodable
    · obtain ⟨text, rfl⟩ := Str.encodable_iff.mp stored
      have named : text ≠ [] := by
        rintro rfl
        exact nonEmpty _ rfl rfl
      have known : named? (.ok (Str.ofText text)) = some ⟨text, named⟩ := named?_eq_some.mpr rfl
      rw [known]
      exact .after rfl (encodable ⟨text, named⟩)
    · have absent : named? (.ok str) = none := by
        simp only [named?]
        rw [Str.Encodable, Option.not_isSome_iff_eq_none] at stored
        rw [stored]
      rw [absent]
      exact Refuses.after rfl (unencodable str stored)

theorem Refuses.map {α β : Type} {respond : α → β} {body : Statements α} (refuses : Refuses database body) :
    Refuses database (respond <$> body) := by
  obtain ⟨error, evaluated, refusal⟩ := refuses
  exact ⟨error, by rw [Script.eval_map, evaluated], refusal⟩

theorem validateScope_nonEmpty {value : PyValue} (scope : Str) (valid : validateScope value = .ok scope) :
    scope ≠ [] := (validateScope_ok valid).2

theorem validateExecutionKey_nonEmpty {value : PyValue} (key : Str) (valid : validateExecutionKey value = .ok key) :
    key ≠ [] := (validateExecutionKey_ok.mp valid).2

theorem validateCommandSpecHash_nonEmpty {value : PyValue} (hash : Str)
    (valid : validateCommandSpecHash value = .ok hash) : hash ≠ [] := by
  obtain ⟨text, rfl, named, _⟩ := validateCommandSpecHash_ok valid
  exact fun empty => named (List.map_eq_nil_iff.mp empty)

theorem Serves.hash {β : Type} {respond : β → Response} {value : PyValue} {next : Str → Statements β}
    {service : Named → Option (Response × Ledger)}
    (encodable : ∀ name : Named, Serves respond database (next (Str.ofText name.val)) (service name)) :
    Serves respond database (Script.lift (validateCommandSpecHash value) >>= next)
      ((named? (validateCommandSpecHash value)).bind service) := by
  cases valid : validateCommandSpecHash value with
  | error error => exact ⟨error, rfl, .of_invalid (validateCommandSpecHash_invalid value error valid)⟩
  | ok str =>
    obtain ⟨text, rfl, named, _⟩ := validateCommandSpecHash_ok valid
    have known : named? (.ok (Str.ofText text)) = some ⟨text, named⟩ := named?_eq_some.mpr rfl
    rw [known]
    exact .after rfl (encodable ⟨text, named⟩)

section Unencodable

variable (held : database.Holds 5 ledger) {str : Str} (unencodable : ¬ str.Encodable)
include held unencodable

theorem afterSelect_refuses {α : Type} (table : Table) (rest : Option Row → Statements α) :
    Refuses database (do validateStore; let row ← Statements.select table str; rest row) :=
  .after (validateStore_eval held) (.bind (select_refuses table unencodable))

theorem afterRegistered_refuses {α : Type} (message : String) (rest : Unit → Statements α) :
    Refuses database (do validateStore; let nothing ← requireRegistered str message; rest nothing) :=
  .after (validateStore_eval held) (.bind (.bind (select_refuses .executionKeys unencodable)))

theorem afterLaunch_refuses {α : Type} {hash : Str} {state : ExecutionLaunchState} {missing mismatch illegal : String}
    (rest : ExecutionLaunch → Statements α) :
    Refuses database (do
      validateStore
      let launch ← requireLaunch str hash state missing mismatch illegal
      rest launch) :=
  .after (validateStore_eval held) (.bind (.bind (select_refuses .executionLaunches unencodable)))

theorem admitExecutionBody_refuses (key : Named) (generation : Int) :
    Refuses database (admitExecutionBody (Str.ofText key.val) str generation) := by
  refine .after (validateStore_eval held) ((requireRegistered_checks held key.val _).refuses fun _ => ?_)
  refine (requireBinding_checks held key.val _).refuses fun _ => ?_
  exact .bind (.bind (select_refuses .controllerGenerations unencodable))

/-- A scope without an encoding is none that a row can have. -/
theorem requireAdmission_refuses (key : Named) (generation : Int) :
    Refuses database (requireAdmission (Str.ofText key.val) str generation) := by
  have selected := select_eval held .executionAdmissions key.val
  rw [held.find_admission (by decide)] at selected
  cases found : ledger.admission key.val with
  | none =>
    rw [found] at selected
    exact .after selected (.raise rfl)
  | some admission =>
    rw [found] at selected
    obtain ⟨member, _⟩ := Keyed.mem_of_lookup found
    have persistedScope : validatePersistedScope (admission.row.cell 1) = .ok admission.authorityScope :=
      validatePersistedScope_ok.mpr ⟨rfl, ledger.admission_scope_named member⟩
    have persisted : validatePersistedGeneration (admission.row.cell 2) = .ok admission.controllerGeneration :=
      validatePersistedGeneration_ok.mpr ⟨rfl, ledger.admission_inRange admission member⟩
    have differing : Str.ofText admission.authorityScope ≠ str :=
      fun same => unencodable (Str.encodable_iff.mpr ⟨_, same.symm⟩)
    refine .after selected ?_
    simp only [Option.map_some, persistedScope, persisted, bind, Except.bind, raiseIf, ne_eq, differing, not_false_iff,
      true_or, if_true]
    exact ⟨_, rfl, rfl⟩

theorem claimExecutionLaunchBody_refuses (key : Named) (generation : Int) (hash : Str) :
    Refuses database (claimExecutionLaunchBody (Str.ofText key.val) str generation hash) := by
  refine .after (validateStore_eval held) ((requireRegistered_checks held key.val _).refuses fun _ => ?_)
  refine (requireBinding_checks held key.val _).refuses fun _ => .lift (raiseIf_failsOnly rfl) fun _ _ => ?_
  exact .bind (requireAdmission_refuses held unencodable key generation)

end Unencodable

variable (held : database.Holds 5 ledger)
include held

theorem isCurrentGenerationBody_serves (scope : Named) (generation : Int) :
    Serves .current database
      ((fun current => decide (current = some generation)) <$> readGenerationBody (Str.ofText scope.val))
      (some (.current (ledger.generation scope.val = some ⟨scope.val, generation⟩), ledger)) := by
  have same : (ledger.generation scope.val).map Generation.generation = some generation ↔
      ledger.generation scope.val = some ⟨scope.val, generation⟩ := by
    cases found : ledger.generation scope.val with
    | none => simp
    | some current =>
      obtain ⟨_, named⟩ : current ∈ ledger.generations ∧ current.scope = scope.val := Keyed.mem_of_lookup found
      rw [← named]
      constructor
      · intro equal
        rw [← Option.some.inj equal]
      · intro equal
        rw [Option.some.inj equal]
        rfl
  refine ⟨decide ((ledger.generation scope.val).map Generation.generation = some generation), ?_, ?_⟩
  · rw [decide_eq_decide.mpr same]
  · rw [Script.eval_map, readGenerationBody_eval held, held.store_self]

/-- The code of every request refines its service. -/
theorem Request.serves (request : Request) : Serves id database request.body (ledger.serve request) := by
  cases request with
  | acquireGeneration scope =>
    exact .named (validateScope_invalid scope) validateScope_nonEmpty
      (fun _ unencodable => .map (afterSelect_refuses held unencodable _ _))
      fun name => .map (acquireGenerationBody_serves held name)
  | readGeneration scope =>
    exact .named (validateScope_invalid scope) validateScope_nonEmpty
      (fun _ unencodable => .map (afterSelect_refuses held unencodable _ _))
      fun name => .map (.unchanged held _ (readGenerationBody_eval held name.val))
  | registerExecutionKey key =>
    exact .named (validateExecutionKey_invalid key) validateExecutionKey_nonEmpty
      (fun _ unencodable => .map (afterSelect_refuses held unencodable _ _))
      fun name => .map (registerExecutionKeyBody_serves held name)
  | executionKeyExists key =>
    exact .named (validateExecutionKey_invalid key) validateExecutionKey_nonEmpty
      (fun _ unencodable => .map (afterSelect_refuses held unencodable _ _))
      fun name => .map (.unchanged held _ (executionKeyExistsBody_eval held name.val))
  | readCommandSpecHash key =>
    exact .named (validateExecutionKey_invalid key) validateExecutionKey_nonEmpty
      (fun _ unencodable => .map (afterRegistered_refuses held unencodable _ _))
      fun name => .map (readCommandSpecHashBody_serves held name)
  | readExecutionAdmission key =>
    exact .named (validateExecutionKey_invalid key) validateExecutionKey_nonEmpty
      (fun _ unencodable => .map (afterRegistered_refuses held unencodable _ _))
      fun name => .map (readExecutionAdmissionBody_serves held name)
  | readExecutionLaunch key =>
    exact .named (validateExecutionKey_invalid key) validateExecutionKey_nonEmpty
      (fun _ unencodable => .map (afterRegistered_refuses held unencodable _ _))
      fun name => .map (readExecutionLaunchBody_serves held name)
  | bindCommandSpecHash key hash =>
    simp only [body, validateKeyAndHash, Script.lift_bind, Script.bind_assoc]
    refine .named (validateExecutionKey_invalid key) validateExecutionKey_nonEmpty (fun _ unencodable => ?_) fun name => ?_
    · exact .argument (validateCommandSpecHash_invalid hash) fun _ => .map (afterRegistered_refuses held unencodable _ _)
    · exact .hash fun hash => .map (bindCommandSpecHashBody_serves held name hash)
  | isCurrentGeneration scope generation =>
    simp only [body, isCurrentGenerationBody, Ledger.serve]
    cases exactGeneration generation with
    | none =>
      cases valid : validateScope scope with
      | error error => exact ⟨error, rfl, .of_invalid (validateScope_invalid scope error valid)⟩
      | ok scope => exact .after rfl (.unchanged held _ rfl)
    | some generation =>
      exact .named (validateScope_invalid scope) validateScope_nonEmpty
        (fun _ unencodable => .map (.map (afterSelect_refuses held unencodable _ _)))
        fun name => .map (isCurrentGenerationBody_serves held name generation)
  | admitExecution key scope generation =>
    simp only [body, validateAdmission, Script.lift_bind, Script.bind_assoc]
    refine .named (validateExecutionKey_invalid key) validateExecutionKey_nonEmpty (fun _ unencodable => ?_) fun name => ?_
    · exact .argument (validateScope_invalid scope) fun _ => .argument (validateControllerGeneration_invalid generation)
        fun _ => .map (afterRegistered_refuses held unencodable _ _)
    refine .named (validateScope_invalid scope) validateScope_nonEmpty (fun _ unencodable => ?_) fun name' => ?_
    · exact .argument (validateControllerGeneration_invalid generation)
        fun _ => .map (admitExecutionBody_refuses held unencodable name _)
    · exact .lift (validateControllerGeneration_invalid generation) fun _ valid =>
        .map (admitExecutionBody_serves held name name' (validateControllerGeneration_ok valid).2)
  | claimExecutionLaunch key scope generation hash =>
    simp only [body, validateClaim, validateAdmission, Script.lift_bind, Script.bind_assoc]
    refine .named (validateExecutionKey_invalid key) validateExecutionKey_nonEmpty (fun _ unencodable => ?_) fun name => ?_
    · exact .argument (validateScope_invalid scope) fun _ => .argument (validateControllerGeneration_invalid generation)
        fun _ => .after rfl (.argument (validateCommandSpecHash_invalid hash)
          fun _ => .map (afterRegistered_refuses held unencodable _ _))
    refine .named (validateScope_invalid scope) validateScope_nonEmpty (fun _ unencodable => ?_) fun name' => ?_
    · exact .argument (validateControllerGeneration_invalid generation)
        fun _ => .after rfl (.argument (validateCommandSpecHash_invalid hash)
          fun _ => .map (claimExecutionLaunchBody_refuses held unencodable name _ _))
    · exact .lift (validateControllerGeneration_invalid generation) fun _ valid => .after rfl (.hash fun hash =>
        .map (claimExecutionLaunchBody_serves held name name' hash (validateControllerGeneration_ok valid).2))
  | markExecutionLaunchUnknown key hash =>
    simp only [body, validateKeyAndHash, Script.lift_bind, Script.bind_assoc]
    refine .named (validateExecutionKey_invalid key) validateExecutionKey_nonEmpty (fun _ unencodable => ?_) fun name => ?_
    · exact .argument (validateCommandSpecHash_invalid hash) fun _ => .map (afterLaunch_refuses held unencodable _)
    · exact .hash fun hash => .map (markExecutionLaunchUnknownBody_serves held name hash)
  | recordExecutionTerminalResult key hash code =>
    simp only [body, validateTerminalResult, validateKeyAndHash, Script.lift_bind, Script.bind_assoc]
    refine .named (validateExecutionKey_invalid key) validateExecutionKey_nonEmpty (fun _ unencodable => ?_) fun name => ?_
    · exact .argument (validateCommandSpecHash_invalid hash) fun _ => .after rfl
        (.argument (validateProcessExitCode_invalid code) fun _ => .map (afterLaunch_refuses held unencodable _))
    · refine .hash fun hash => .after rfl ?_
      cases valid : validateProcessExitCode code with
      | error error =>
        have absent : exitCode? code = none := by rw [exitCode?, valid]
        rw [absent]
        exact ⟨error, rfl, .of_invalid (validateProcessExitCode_invalid code error valid)⟩
      | ok accepted =>
        obtain ⟨_, inside⟩ := validateProcessExitCode_ok valid
        have present : exitCode? code = some ⟨accepted, inside⟩ := by
          rw [exitCode?, valid]
          exact dif_pos inside
        rw [present]
        exact .after rfl (.map (recordExecutionTerminalResultBody_serves held name hash ⟨accepted, inside⟩))

theorem Request.eval_ok_iff {request : Request} {response : Response} {reached : Database} :
    request.body.eval database = .ok response reached ↔
      ∃ after, ledger.serve request = some (response, after) ∧ reached = database.store after := by
  have serves := request.serves held
  cases served : ledger.serve request with
  | none =>
    rw [served] at serves
    obtain ⟨error, evaluated, _⟩ := serves
    simp [evaluated]
  | some result =>
    obtain ⟨answer, after⟩ := result
    rw [served] at serves
    obtain ⟨value, rfl, evaluated⟩ := serves
    rw [evaluated]
    constructor
    · rintro ⟨⟩
      exact ⟨after, rfl, rfl⟩
    · rintro ⟨_, ⟨⟩, rfl⟩
      rfl

/-- On a valid store nothing but a refusal goes wrong, and it leaves the tables alone. -/
theorem Request.eval_error {request : Request} {error : PyError} {reached : Database}
    (evaluated : request.body.eval database = .error error reached) : Refusal error ∧ reached = database := by
  have serves := request.serves held
  cases served : ledger.serve request with
  | none =>
    rw [served] at serves
    obtain ⟨other, same, refusal⟩ := serves
    cases evaluated.symm.trans same
    exact ⟨refusal, rfl⟩
  | some result =>
    rw [served] at serves
    obtain ⟨value, _, same⟩ := serves
    cases evaluated.symm.trans same

omit held in
theorem holds_of_validated {α β γ : Type} {checked : Except PyError α} {respond : β → γ} {rest : α → Unit → Statements β}
    {response : γ} {reached : Database}
    (evaluated : (Script.lift checked >>= fun value => respond <$> (validateStore >>= rest value)).eval database =
      .ok response reached) : ∃ ledger, database.Holds 5 ledger := by
  obtain ⟨value, between, checks, mapped⟩ := Script.bind_ok.mp evaluated
  obtain ⟨_, rfl⟩ := Script.lift_ok.mp checks
  obtain ⟨answer, _, ran, _⟩ := Script.bind_ok.mp mapped
  obtain ⟨_, _, validated, _⟩ := Script.bind_ok.mp ran
  exact (validateStore_ok.mp validated).1

omit held in
/-- Only a valid store is served. One question is answered without looking at it. -/
theorem Request.holds_of_eval {request : Request} {response : Response} {reached : Database}
    (evaluated : request.body.eval database = .ok response reached) :
    (∃ ledger, database.Holds 5 ledger) ∨
      (∃ scope generation, request = .isCurrentGeneration scope generation) ∧ response = .current false ∧
        reached = database := by
  cases request with
  | isCurrentGeneration scope generation =>
    simp only [body, isCurrentGenerationBody] at evaluated
    obtain ⟨value, between, checks, mapped⟩ := Script.bind_ok.mp evaluated
    obtain ⟨_, rfl⟩ := Script.lift_ok.mp checks
    generalize exactGeneration generation = exact at mapped
    cases exact with
    | none =>
      cases mapped
      exact .inr ⟨⟨scope, _, rfl⟩, rfl, rfl⟩
    | some generation =>
      obtain ⟨answer, _, compared, _⟩ := Script.bind_ok.mp mapped
      obtain ⟨_, _, ran, _⟩ := Script.bind_ok.mp compared
      obtain ⟨_, _, validated, _⟩ := Script.bind_ok.mp ran
      exact .inl (validateStore_ok.mp validated).1
  | _ => exact .inl (holds_of_validated evaluated)

omit held in
/-- All that a call can do to the database when none of its statements fails. -/
theorem Request.effect_of_eval {request : Request} {response : Response} {reached : Database}
    (evaluated : request.body.eval database = .ok response reached) :
    (response.spends = false ∧ reached = database) ∨ ∃ ledger after, database.Holds 5 ledger ∧
      Effect ledger request response after ∧ reached = database.store after := by
  rcases request.holds_of_eval evaluated with ⟨ledger, held⟩ | ⟨_, rfl, rfl⟩
  · obtain ⟨after, served, rfl⟩ := (request.eval_ok_iff held).mp evaluated
    exact .inr ⟨ledger, after, held, Ledger.effect_of_serve served, rfl⟩
  · exact .inl ⟨rfl, rfl⟩

end Requests

end Umbilical.Authority
