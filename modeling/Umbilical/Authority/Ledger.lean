import Umbilical.Authority.Validation

set_option autoImplicit false

/-!
# What the store is for

A ledger is the store's content as the store's callers mean it. Its fields hold
the relations between the five tables, so a ledger that breaks one cannot be
built, and each way to extend a ledger asks for what keeps them.
-/

namespace Umbilical.Authority

open Python

structure Generation where
  scope : Text
  generation : Int
  deriving DecidableEq

def Generation.next (generation : Generation) : Generation :=
  { generation with generation := generation.generation + 1 }

structure CommandBinding where
  executionKey : Text
  commandSpecHash : Text
  deriving DecidableEq

def InRange (generation : Int) : Prop := 0 < generation ∧ generation ≤ maxGeneration

theorem first_inRange : InRange 1 := ⟨by decide, by decide⟩

/-- An exit code is there if and only if the state is terminal. -/
def Settled (state : ExecutionLaunchState) : Option Int → Prop
  | none => state ≠ .terminal
  | some exitCode => state = .terminal ∧ minSqliteInteger ≤ exitCode ∧ exitCode ≤ maxSqliteInteger

theorem unknown_settled : Settled .unknown none := nofun

theorem terminal_settled {exitCode : Int} (low : minSqliteInteger ≤ exitCode) (high : exitCode ≤ maxSqliteInteger) :
    Settled .terminal (some exitCode) := ⟨rfl, low, high⟩

def ExecutionLaunch.binding (launch : ExecutionLaunch) : CommandBinding where
  executionKey := launch.executionKey
  commandSpecHash := launch.commandSpecHash

def ExecutionLaunch.admission (launch : ExecutionLaunch) : ExecutionAdmission where
  executionKey := launch.executionKey
  authorityScope := launch.authorityScope
  controllerGeneration := launch.controllerGeneration

/-- The launch of a claim made under an admission, before the process is started. -/
def ExecutionAdmission.intent (admission : ExecutionAdmission) (commandSpecHash : Text) : ExecutionLaunch where
  executionKey := admission.executionKey
  commandSpecHash := commandSpecHash
  authorityScope := admission.authorityScope
  controllerGeneration := admission.controllerGeneration
  state := .intent
  exitCode := none

def ExecutionLaunch.settled (launch : ExecutionLaunch) (state : ExecutionLaunchState) (exitCode : Option Int) :
    ExecutionLaunch :=
  { launch with state := state, exitCode := exitCode }

structure Ledger where
  generations : List Generation
  keys : List Text
  bindings : List CommandBinding
  admissions : List ExecutionAdmission
  launches : List ExecutionLaunch
  one_generation : Keyed.Distinct Generation.scope generations
  one_key : Keyed.Distinct id keys
  one_binding : Keyed.Distinct CommandBinding.executionKey bindings
  one_admission : Keyed.Distinct ExecutionAdmission.executionKey admissions
  one_launch : Keyed.Distinct ExecutionLaunch.executionKey launches
  scope_named : ∀ generation ∈ generations, generation.scope ≠ []
  generation_inRange : ∀ generation ∈ generations, InRange generation.generation
  key_named : ∀ key ∈ keys, key ≠ []
  hash_named : ∀ binding ∈ bindings, binding.commandSpecHash ≠ []
  binding_registered : ∀ binding ∈ bindings, binding.executionKey ∈ keys
  admission_bound : ∀ admission ∈ admissions, ∃ binding ∈ bindings,
    binding.executionKey = admission.executionKey
  admission_inRange : ∀ admission ∈ admissions, InRange admission.controllerGeneration
  admission_fenced : ∀ admission ∈ admissions, ∃ generation ∈ generations,
    generation.scope = admission.authorityScope ∧ admission.controllerGeneration ≤ generation.generation
  launch_bound : ∀ launch ∈ launches, launch.binding ∈ bindings
  launch_admitted : ∀ launch ∈ launches, launch.admission ∈ admissions
  launch_settled : ∀ launch ∈ launches, Settled launch.state launch.exitCode

namespace Ledger

def empty : Ledger where
  generations := []
  keys := []
  bindings := []
  admissions := []
  launches := []
  one_generation := List.nodup_nil
  one_key := List.nodup_nil
  one_binding := List.nodup_nil
  one_admission := List.nodup_nil
  one_launch := List.nodup_nil
  scope_named := nofun
  generation_inRange := nofun
  key_named := nofun
  hash_named := nofun
  binding_registered := nofun
  admission_bound := nofun
  admission_inRange := nofun
  admission_fenced := nofun
  launch_bound := nofun
  launch_admitted := nofun
  launch_settled := nofun

variable (ledger : Ledger)

def generation (scope : Text) : Option Generation := Keyed.lookup Generation.scope ledger.generations scope

def registered (key : Text) : Option Text := Keyed.lookup id ledger.keys key

def binding (key : Text) : Option CommandBinding :=
  Keyed.lookup CommandBinding.executionKey ledger.bindings key

def admission (key : Text) : Option ExecutionAdmission :=
  Keyed.lookup ExecutionAdmission.executionKey ledger.admissions key

def launch (key : Text) : Option ExecutionLaunch :=
  Keyed.lookup ExecutionLaunch.executionKey ledger.launches key

theorem launch_key {key : Text} {launch : ExecutionLaunch} (found : ledger.launch key = some launch) :
    launch.executionKey = key := (Keyed.mem_of_lookup found).2

theorem binding_of_launch {key : Text} {launch : ExecutionLaunch} (found : ledger.launch key = some launch) :
    ledger.binding key = some launch.binding := by
  obtain ⟨member, rfl⟩ := Keyed.mem_of_lookup found
  exact ledger.one_binding.lookup_self (ledger.launch_bound launch member)

theorem admission_of_launch {key : Text} {launch : ExecutionLaunch} (found : ledger.launch key = some launch) :
    ledger.admission key = some launch.admission := by
  obtain ⟨member, rfl⟩ := Keyed.mem_of_lookup found
  exact ledger.one_admission.lookup_self (ledger.launch_admitted launch member)

theorem binding_of_admission {key : Text} {admission : ExecutionAdmission}
    (found : ledger.admission key = some admission) : ∃ binding, ledger.binding key = some binding := by
  obtain ⟨member, rfl⟩ := Keyed.mem_of_lookup found
  obtain ⟨binding, bound, same⟩ := ledger.admission_bound admission member
  exact ⟨binding, ledger.one_binding.lookup_iff.mpr ⟨bound, same⟩⟩

theorem launch_open {launch : ExecutionLaunch} (member : launch ∈ ledger.launches) (early : launch.state ≠ .terminal) :
    launch.exitCode = none := by
  have settled := ledger.launch_settled launch member
  cases launched : launch.exitCode with
  | none => rfl
  | some exitCode =>
    rw [launched] at settled
    exact absurd settled.1 early

theorem registered_iff {key : Text} : ledger.registered key = some key ↔ key ∈ ledger.keys := by
  rw [registered, ledger.one_key.lookup_iff]
  simp

theorem registered_cases (key : Text) : ledger.registered key = some key ∨ ledger.registered key = none := by
  cases found : ledger.registered key with
  | none => exact .inr rfl
  | some other =>
    obtain rfl : other = key := (Keyed.mem_of_lookup found).2
    exact .inl rfl

theorem registered_of_binding {key : Text} {binding : CommandBinding}
    (found : ledger.binding key = some binding) : ledger.registered key = some key := by
  obtain ⟨member, rfl⟩ := Keyed.mem_of_lookup found
  exact ledger.registered_iff.mpr (ledger.binding_registered binding member)

section Extension

/-- The first generation of a scope. -/
def begin (scope : Text) (named : scope ≠ []) (fresh : ledger.generation scope = none) : Ledger :=
  { ledger with
    generations := ledger.generations ++ [⟨scope, 1⟩]
    one_generation := Keyed.distinct_append.mpr ⟨ledger.one_generation, by exact fresh⟩
    scope_named := by
      simp only [List.mem_append, List.mem_singleton]
      rintro generation (member | rfl)
      · exact ledger.scope_named generation member
      · exact named
    generation_inRange := by
      simp only [List.mem_append, List.mem_singleton]
      rintro generation (member | rfl)
      · exact ledger.generation_inRange generation member
      · exact first_inRange
    admission_fenced := by
      intro admission member
      obtain ⟨generation, among, fenced⟩ := ledger.admission_fenced admission member
      exact ⟨generation, List.mem_append_left _ among, fenced⟩ }

/-- The next generation of a scope that has one. -/
def advance (generation : Generation) (found : ledger.generation generation.scope = some generation)
    (room : generation.generation < maxGeneration) : Ledger :=
  { ledger with
    generations := Keyed.revise Generation.scope Generation.next generation.scope ledger.generations
    one_generation := (Keyed.distinct_revise Generation.next fun _ => rfl).mpr ledger.one_generation
    scope_named := by
      intro revised member
      rcases Keyed.mem_revise member with ⟨among, _⟩ | ⟨original, among, _, rfl⟩
      · exact ledger.scope_named revised among
      · exact ledger.scope_named original among
    generation_inRange := by
      intro revised member
      rcases Keyed.mem_revise member with ⟨among, _⟩ | ⟨original, among, same, rfl⟩
      · exact ledger.generation_inRange revised among
      · obtain rfl := ledger.one_generation.eq_of_key among (Keyed.mem_of_lookup found).1 same
        obtain ⟨positive, _⟩ := ledger.generation_inRange original among
        exact ⟨by simp only [Generation.next]; omega, by simp only [Generation.next]; omega⟩
    admission_fenced := by
      intro admission member
      obtain ⟨fence, among, scope, bound⟩ := ledger.admission_fenced admission member
      refine ⟨if fence.scope = generation.scope then fence.next else fence, List.mem_map_of_mem among, ?_⟩
      split_ifs with same
      · exact ⟨scope, by simp only [Generation.next]; omega⟩
      · exact ⟨scope, bound⟩ }

def register (key : Text) (named : key ≠ []) (fresh : ledger.registered key = none) : Ledger :=
  { ledger with
    keys := ledger.keys ++ [key]
    one_key := Keyed.distinct_append.mpr ⟨ledger.one_key, fresh⟩
    key_named := by
      simp only [List.mem_append, List.mem_singleton]
      rintro other (member | rfl)
      · exact ledger.key_named other member
      · exact named
    binding_registered := fun binding member =>
      List.mem_append_left _ (ledger.binding_registered binding member) }

def bind (binding : CommandBinding) (named : binding.commandSpecHash ≠ [])
    (registered : ledger.registered binding.executionKey = some binding.executionKey)
    (fresh : ledger.binding binding.executionKey = none) : Ledger :=
  { ledger with
    bindings := ledger.bindings ++ [binding]
    one_binding := Keyed.distinct_append.mpr ⟨ledger.one_binding, fresh⟩
    hash_named := by
      simp only [List.mem_append, List.mem_singleton]
      rintro other (member | rfl)
      · exact ledger.hash_named other member
      · exact named
    binding_registered := by
      simp only [List.mem_append, List.mem_singleton]
      rintro other (member | rfl)
      · exact ledger.binding_registered other member
      · exact ledger.registered_iff.mp registered
    admission_bound := by
      intro admission member
      obtain ⟨other, among, same⟩ := ledger.admission_bound admission member
      exact ⟨other, List.mem_append_left _ among, same⟩
    launch_bound := fun launch member => List.mem_append_left _ (ledger.launch_bound launch member) }

/-- An admission under the current generation of its scope. -/
def grant (admission : ExecutionAdmission) (bound : (ledger.binding admission.executionKey).isSome)
    (current : ledger.generation admission.authorityScope =
      some ⟨admission.authorityScope, admission.controllerGeneration⟩)
    (fresh : ledger.admission admission.executionKey = none) : Ledger :=
  { ledger with
    admissions := ledger.admissions ++ [admission]
    one_admission := Keyed.distinct_append.mpr ⟨ledger.one_admission, fresh⟩
    admission_bound := by
      simp only [List.mem_append, List.mem_singleton]
      rintro other (member | rfl)
      · exact ledger.admission_bound other member
      · obtain ⟨binding, found⟩ := Option.isSome_iff_exists.mp bound
        obtain ⟨member, same⟩ := Keyed.mem_of_lookup found
        exact ⟨binding, member, same⟩
    admission_inRange := by
      simp only [List.mem_append, List.mem_singleton]
      rintro other (member | rfl)
      · exact ledger.admission_inRange other member
      · exact ledger.generation_inRange _ (Keyed.mem_of_lookup current).1
    admission_fenced := by
      simp only [List.mem_append, List.mem_singleton]
      rintro other (member | rfl)
      · exact ledger.admission_fenced other member
      · exact ⟨_, (Keyed.mem_of_lookup current).1, rfl, le_rfl⟩
    launch_admitted := fun launch member => List.mem_append_left _ (ledger.launch_admitted launch member) }

def claim (admission : ExecutionAdmission) (hash : Text)
    (admitted : ledger.admission admission.executionKey = some admission)
    (bound : ledger.binding admission.executionKey = some ⟨admission.executionKey, hash⟩)
    (fresh : ledger.launch admission.executionKey = none) : Ledger :=
  { ledger with
    launches := ledger.launches ++ [admission.intent hash]
    one_launch := Keyed.distinct_append.mpr ⟨ledger.one_launch, fresh⟩
    launch_bound := by
      simp only [List.mem_append, List.mem_singleton]
      rintro other (member | rfl)
      · exact ledger.launch_bound other member
      · exact (Keyed.mem_of_lookup bound).1
    launch_admitted := by
      simp only [List.mem_append, List.mem_singleton]
      rintro other (member | rfl)
      · exact ledger.launch_admitted other member
      · exact (Keyed.mem_of_lookup admitted).1
    launch_settled := by
      simp only [List.mem_append, List.mem_singleton]
      rintro other (member | rfl)
      · exact ledger.launch_settled other member
      · exact nofun }

/-- The launch of a key moved to another state. -/
def settle (key : Text) (state : ExecutionLaunchState) (exitCode : Option Int)
    (settled : Settled state exitCode) : Ledger :=
  { ledger with
    launches := Keyed.revise ExecutionLaunch.executionKey (·.settled state exitCode) key ledger.launches
    one_launch := (Keyed.distinct_revise (·.settled state exitCode) fun _ => rfl).mpr ledger.one_launch
    launch_bound := by
      intro revised member
      rcases Keyed.mem_revise member with ⟨among, _⟩ | ⟨original, among, _, rfl⟩
      · exact ledger.launch_bound revised among
      · exact ledger.launch_bound original among
    launch_admitted := by
      intro revised member
      rcases Keyed.mem_revise member with ⟨among, _⟩ | ⟨original, among, _, rfl⟩
      · exact ledger.launch_admitted revised among
      · exact ledger.launch_admitted original among
    launch_settled := by
      intro revised member
      rcases Keyed.mem_revise member with ⟨among, _⟩ | ⟨original, among, _, rfl⟩
      · exact ledger.launch_settled revised among
      · exact settled }

def markUnknown (key : Text) : Ledger := ledger.settle key .unknown none unknown_settled

def recordTerminal (key : Text) (exitCode : Int) (low : minSqliteInteger ≤ exitCode)
    (high : exitCode ≤ maxSqliteInteger) : Ledger :=
  ledger.settle key .terminal (some exitCode) (terminal_settled low high)

end Extension

end Ledger

end Umbilical.Authority
