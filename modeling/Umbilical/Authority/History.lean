import Umbilical.Authority.Service

set_option autoImplicit false

/-!
# What a ledger keeps

A served request leaves everything that is in a ledger as it is, but for a
generation that rises and a launch that moves on.
-/

namespace Umbilical.Authority

open Python

/-- A launch and what one request may make of it. -/
inductive ExecutionLaunch.Moves (launch : ExecutionLaunch) : ExecutionLaunch → Prop
  | still : launch.Moves launch
  | marked (intended : launch.state = .intent) : launch.Moves (launch.settled .unknown none)
  | ended (unknown : launch.state = .unknown) (exitCode : Int) : launch.Moves (launch.settled .terminal (some exitCode))

structure Ledger.Appends (before after : Ledger) : Prop where
  keys : ∀ key, before.registered key = some key → after.registered key = some key
  bindings : ∀ key binding, before.binding key = some binding → after.binding key = some binding
  admissions : ∀ key admission, before.admission key = some admission → after.admission key = some admission
  generations : ∀ scope current, before.generation scope = some current →
    ∃ later, after.generation scope = some later ∧ current.generation ≤ later.generation
  launches : ∀ key launch, before.launch key = some launch → ∃ later, after.launch key = some later ∧ launch.Moves later

namespace Ledger

theorem Appends.refl (ledger : Ledger) : ledger.Appends ledger where
  keys _ := id
  bindings _ _ := id
  admissions _ _ := id
  generations _ current found := ⟨current, found, le_rfl⟩
  launches _ launch found := ⟨launch, found, .still⟩

variable {ledger : Ledger}

theorem generation_begin {scope : Text} (named : scope ≠ []) (fresh : ledger.generation scope = none) (other : Text) :
    (ledger.begin scope named fresh).generation other = if other = scope then some ⟨scope, 1⟩ else ledger.generation other :=
  @Keyed.lookup_append_fresh _ _ _ Generation.scope ledger.generations ⟨scope, 1⟩ fresh other

theorem generation_advance {generation : Generation} (found : ledger.generation generation.scope = some generation)
    (room : generation.generation < maxGeneration) (other : Text) : (ledger.advance generation found room).generation other =
      if other = generation.scope then some generation.next else ledger.generation other := by
  have revised : _ = if other = generation.scope then (ledger.generation generation.scope).map Generation.next else _ :=
    Keyed.lookup_revise Generation.next (fun _ => rfl) other
  rwa [found] at revised

theorem admission_grant {admission : ExecutionAdmission} (bound : (ledger.binding admission.executionKey).isSome)
    (current : ledger.generation admission.authorityScope =
      some ⟨admission.authorityScope, admission.controllerGeneration⟩)
    (fresh : ledger.admission admission.executionKey = none) (other : Text) :
    (ledger.grant admission bound current fresh).admission other =
      if other = admission.executionKey then some admission else ledger.admission other :=
  @Keyed.lookup_append_fresh _ _ _ ExecutionAdmission.executionKey ledger.admissions admission fresh other

theorem launch_claim {admission : ExecutionAdmission} {hash : Text}
    (admitted : ledger.admission admission.executionKey = some admission)
    (bound : ledger.binding admission.executionKey = some ⟨admission.executionKey, hash⟩)
    (fresh : ledger.launch admission.executionKey = none) (other : Text) :
    (ledger.claim admission hash admitted bound fresh).launch other =
      if other = admission.executionKey then some (admission.intent hash) else ledger.launch other :=
  @Keyed.lookup_append_fresh _ _ _ ExecutionLaunch.executionKey ledger.launches (admission.intent hash) fresh other

theorem launch_settle (key : Text) {state : ExecutionLaunchState} {exitCode : Option Int} (settled : Settled state exitCode)
    (other : Text) : (ledger.settle key state exitCode settled).launch other =
      if other = key then (ledger.launch key).map (·.settled state exitCode) else ledger.launch other :=
  @Keyed.lookup_revise _ _ _ ExecutionLaunch.executionKey ledger.launches key (·.settled state exitCode) (fun _ => rfl) other

/-- A key without a launch does not come to have one in this way. -/
theorem launch_settle_none {key : Text} {state : ExecutionLaunchState} {exitCode : Option Int}
    (settled : Settled state exitCode) {other : Text} (absent : ledger.launch other = none) :
    (ledger.settle key state exitCode settled).launch other = none := by
  rw [launch_settle]
  split_ifs with same
  · rw [← same, absent]
    rfl
  · exact absent

/-- A launch that is there moves, and all others stay. -/
theorem settle_appends {key : Text} {state : ExecutionLaunchState} {exitCode : Option Int} (settled : Settled state exitCode)
    {launch : ExecutionLaunch} (found : ledger.launch key = some launch) (moves : launch.Moves (launch.settled state exitCode)) :
    ledger.Appends (ledger.settle key state exitCode settled) :=
  { Appends.refl ledger with
    launches := by
      intro other launch' among
      rw [launch_settle]
      split_ifs with same
      · obtain rfl : launch = launch' := Option.some.inj (found.symm.trans (same ▸ among))
        exact ⟨_, by rw [found]; rfl, moves⟩
      · exact ⟨launch', among, .still⟩ }

end Ledger

/-- Every served request appends. -/
theorem Effect.appends {before after : Ledger} {request : Request} {response : Response}
    (effect : Effect before request response after) : before.Appends after := by
  have same := Ledger.Appends.refl before
  cases effect with
  | kept => exact same
  | began names fresh =>
    exact { same with generations := fun _ current found => ⟨current, Keyed.lookup_append_of_some found, le_rfl⟩ }
  | @advanced _ generation named names found room =>
    refine { same with generations := fun scope current among => ?_ }
    rw [Ledger.generation_advance]
    split_ifs with this
    · obtain rfl : generation = current := Option.some.inj (found.symm.trans (this ▸ among))
      exact ⟨generation.next, rfl, by simp only [Generation.next]; omega⟩
    · exact ⟨current, among, le_rfl⟩
  | registered names fresh => exact { same with keys := fun _ found => Keyed.lookup_append_of_some found }
  | bound names namesHash registered fresh =>
    exact { same with bindings := fun _ _ found => Keyed.lookup_append_of_some found }
  | admitted names namesScope expects bound current fresh =>
    exact { same with admissions := fun _ _ found => Keyed.lookup_append_of_some found }
  | claimed names namesScope expects namesHash admitted bound fresh current =>
    exact { same with launches := fun _ launch found => ⟨launch, Keyed.lookup_append_of_some found, .still⟩ }
  | marked names namesHash found hash state => exact Ledger.settle_appends _ found (.marked state)
  | recorded names namesHash reports found hash state => exact Ledger.settle_appends _ found (.ended state _)

/-- What can be won once. -/
inductive Fact where
  | registered (key : Text)
  | bound (key : Text)
  | admitted (key : Text)
  | claimed (key : Text)
  | marked (key : Text)
  | ended (key : Text)
  deriving DecidableEq

def Fact.In (ledger : Ledger) : Fact → Prop
  | registered key => ledger.registered key = some key
  | bound key => (ledger.binding key).isSome
  | admitted key => (ledger.admission key).isSome
  | claimed key => (ledger.launch key).isSome
  | marked key => ∃ launch, ledger.launch key = some launch ∧ launch.state ≠ .intent
  | ended key => ∃ launch, ledger.launch key = some launch ∧ launch.state = .terminal

/-- What an answer says to have been won. -/
def Request.won : Request → Response → Option Fact
  | registerExecutionKey key, .registration .new => (named? (validateExecutionKey key)).map fun key => .registered key.val
  | bindCommandSpecHash key _, .binding .bound => (named? (validateExecutionKey key)).map fun key => .bound key.val
  | admitExecution key _ _, .admission .admitted => (named? (validateExecutionKey key)).map fun key => .admitted key.val
  | claimExecutionLaunch key _ _ _, .claimed _ => (named? (validateExecutionKey key)).map fun key => .claimed key.val
  | markExecutionLaunchUnknown key _, .marked _ => (named? (validateExecutionKey key)).map fun key => .marked key.val
  | recordExecutionTerminalResult key _ _, .recorded _ => (named? (validateExecutionKey key)).map fun key => .ended key.val
  | _, _ => none

theorem Ledger.Appends.keeps {before after : Ledger} (appends : before.Appends after) {fact : Fact} (there : fact.In before) :
    fact.In after := by
  cases fact with
  | registered key => exact appends.keys key there
  | bound key =>
    obtain ⟨binding, found⟩ := Option.isSome_iff_exists.mp there
    exact Option.isSome_iff_exists.mpr ⟨binding, appends.bindings key binding found⟩
  | admitted key =>
    obtain ⟨admission, found⟩ := Option.isSome_iff_exists.mp there
    exact Option.isSome_iff_exists.mpr ⟨admission, appends.admissions key admission found⟩
  | claimed key =>
    obtain ⟨launch, found⟩ := Option.isSome_iff_exists.mp there
    obtain ⟨later, among, _⟩ := appends.launches key launch found
    exact Option.isSome_iff_exists.mpr ⟨later, among⟩
  | marked key =>
    obtain ⟨launch, found, begun⟩ := there
    obtain ⟨later, among, moves⟩ := appends.launches key launch found
    refine ⟨later, among, ?_⟩
    cases moves with
    | still => exact begun
    | marked | ended => nofun
  | ended key =>
    obtain ⟨launch, found, terminal⟩ := there
    obtain ⟨later, among, moves⟩ := appends.launches key launch found
    refine ⟨later, among, ?_⟩
    cases moves with
    | still => exact terminal
    | marked intended => cases intended.symm.trans terminal
    | ended => rfl

theorem Request.won_of_quiet {request : Request} {response : Response} (quiet : response.spends = false) :
    request.won response = none := by
  unfold Request.won
  split <;> first | rfl | cases quiet

/-- What is won was not there before. -/
theorem Effect.wins {before after : Ledger} {request : Request} {response : Response}
    (effect : Effect before request response after) {fact : Fact} (won : request.won response = some fact) :
    ¬ fact.In before ∧ fact.In after := by
  cases effect with
  | kept quiet => rw [Request.won_of_quiet quiet] at won; cases won
  | began | advanced => cases won
  | @registered _ key names fresh =>
    simp only [Request.won, names, Option.map_some, Option.some.injEq] at won
    subst won
    exact ⟨by simp [Fact.In, fresh], Keyed.lookup_append_self fresh⟩
  | @bound _ _ key hash names namesHash registered fresh =>
    simp only [Request.won, names, Option.map_some, Option.some.injEq] at won
    subst won
    exact ⟨by simp [Fact.In, fresh], Option.isSome_iff_exists.mpr ⟨_, Keyed.lookup_append_self fresh⟩⟩
  | @admitted _ _ _ key scope generation names namesScope expects bound current fresh =>
    simp only [Request.won, names, Option.map_some, Option.some.injEq] at won
    subst won
    exact ⟨by simp [Fact.In, fresh], Option.isSome_iff_exists.mpr ⟨_, Keyed.lookup_append_self fresh⟩⟩
  | @claimed _ _ _ _ key scope hash generation names namesScope expects namesHash admitted bound fresh current =>
    simp only [Request.won, names, Option.map_some, Option.some.injEq] at won
    subst won
    exact ⟨by simp [Fact.In, fresh], Option.isSome_iff_exists.mpr ⟨_, Keyed.lookup_append_self fresh⟩⟩
  | @marked _ _ key hash launch names namesHash found same state =>
    simp only [Request.won, names, Option.map_some, Option.some.injEq] at won
    subst won
    refine ⟨?_, launch.settled .unknown none, ?_, nofun⟩
    · rintro ⟨other, among, begun⟩
      obtain rfl : launch = other := Option.some.inj (found.symm.trans among)
      exact begun state
    · rw [Ledger.markUnknown, Ledger.launch_settle, if_pos rfl, found]
      rfl
  | @recorded _ _ _ key hash exitCode launch names namesHash reports found same state =>
    simp only [Request.won, names, Option.map_some, Option.some.injEq] at won
    subst won
    refine ⟨?_, launch.settled .terminal (some exitCode.val), ?_, rfl⟩
    · rintro ⟨other, among, terminal⟩
      obtain rfl : launch = other := Option.some.inj (found.symm.trans among)
      cases state.symm.trans terminal
    · rw [Ledger.recordTerminal, Ledger.launch_settle, if_pos rfl, found]
      rfl

end Umbilical.Authority
