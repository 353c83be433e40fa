import Umbilical.Authority.AppendOnly

set_option autoImplicit false

/-!
# Generation fencing

Whoever is admitted or claims a launch does so under the generation that is
current, and generations only rise.
-/

namespace Umbilical.Authority

open Python Execution Interleaving

/-- The fence that a request has to pass: a scope, and the generation expected of it. -/
def Request.fence : Request → Option (Text × Int)
  | admitExecution _ scope generation | claimExecutionLaunch _ scope generation _ => do
      let scope ← named? (validateScope scope)
      let generation ← (validateControllerGeneration generation).toOption
      return (scope.val, generation)
  | _ => none

/-- The scope whose generation a request acquires. -/
def Request.acquires : Request → Option Text
  | acquireGeneration scope => (named? (validateScope scope)).map Subtype.val
  | _ => none

namespace Ledger

/-- The generation of a scope that has one. -/
def current (ledger : Ledger) (scope : Text) : Option Int := (ledger.generation scope).map Generation.generation

/-- What the next acquisition for a scope returns. -/
def next (ledger : Ledger) (scope : Text) : Int := (ledger.current scope).getD 0 + 1

variable {before after : Ledger}

theorem current_of_generation {scope : Text} {generation : Int} (found : before.generation scope = some ⟨scope, generation⟩) :
    before.current scope = some generation := by
  rw [current, found]
  rfl

theorem next_positive (scope : Text) : 0 < before.next scope := by
  unfold next current
  cases found : before.generation scope with
  | none => decide
  | some generation =>
    have := (before.generation_inRange generation (Keyed.mem_of_lookup found).1).1
    simp only [Option.map_some, Option.getD_some]
    omega

theorem current_le {scope : Text} {generation : Int} (found : before.current scope = some generation) :
    generation ≤ maxGeneration := by
  obtain ⟨record, member, rfl⟩ := Option.map_eq_some_iff.mp found
  exact (before.generation_inRange record (Keyed.mem_of_lookup member).1).2

theorem admission_current {key scopeValue generationValue : PyValue} {response : Response}
    (served : before.serve (.admitExecution key scopeValue generationValue) = some (response, after)) :
    ∃ scope generation, (Request.admitExecution key scopeValue generationValue).fence = some (scope, generation) ∧
      before.current scope = some generation := by
  obtain ⟨key, _, served⟩ := Option.bind_eq_some_iff.mp served
  obtain ⟨name, names, served⟩ := Option.bind_eq_some_iff.mp served
  obtain ⟨generation, expects, served⟩ := Option.bind_eq_some_iff.mp served
  unfold serveAdmission at served
  split_ifs at served with ready
  exact ⟨name.val, generation, by simp [Request.fence, names, expects], current_of_generation ready.2⟩

theorem claim_current {key scopeValue generationValue hash : PyValue} {response : Response}
    (served : before.serve (.claimExecutionLaunch key scopeValue generationValue hash) = some (response, after)) :
    ∃ scope generation, (Request.claimExecutionLaunch key scopeValue generationValue hash).fence = some (scope, generation) ∧
      before.current scope = some generation := by
  obtain ⟨key, _, served⟩ := Option.bind_eq_some_iff.mp served
  obtain ⟨name, names, served⟩ := Option.bind_eq_some_iff.mp served
  obtain ⟨generation, expects, served⟩ := Option.bind_eq_some_iff.mp served
  obtain ⟨hash, _, served⟩ := Option.bind_eq_some_iff.mp served
  unfold serveClaim at served
  split_ifs at served with ready
  exact ⟨name.val, generation, by simp [Request.fence, names, expects], current_of_generation ready.2.2.2⟩

end Ledger

/-- Only an acquisition for a scope moves its generation, and by one. -/
theorem Effect.current {before after : Ledger} {request : Request} {response : Response} (effect : Effect before request response after)
    (scope : Text) : after.current scope = before.current scope ∨
      request.acquires = some scope ∧ after.current scope = some (before.next scope) := by
  cases effect with
  | @began value name names fresh =>
    by_cases same : scope = name.val
    · subst same
      refine .inr ⟨by simp [Request.acquires, names], ?_⟩
      simp only [Ledger.current, Ledger.next, Ledger.generation_begin, fresh, if_true]
      rfl
    · refine .inl ?_
      simp only [Ledger.current, Ledger.generation_begin, if_neg same]
  | @advanced value generation named names found room =>
    by_cases same : scope = generation.scope
    · subst same
      refine .inr ⟨by simp [Request.acquires, names], ?_⟩
      simp only [Ledger.current, Ledger.next, Ledger.generation_advance, found, if_true]
      rfl
    · refine .inl ?_
      simp only [Ledger.current, Ledger.generation_advance, if_neg same]
  | _ => exact .inl rfl

/-- An acquisition returns the next generation of its scope and leaves the other scopes alone. -/
theorem Effect.acquired {before after : Ledger} {value : PyValue} {generation : Int}
    (effect : Effect before (.acquireGeneration value) (.acquired generation) after) :
    ∃ scope, (Request.acquireGeneration value).acquires = some scope ∧ generation = before.next scope ∧
      after.current scope = some generation := by
  cases effect with
  | kept quiet => cases quiet
  | @began _ name names fresh =>
    refine ⟨name.val, by simp [Request.acquires, names], ?_, ?_⟩
    · simp only [Ledger.next, Ledger.current, fresh]
      rfl
    · simp only [Ledger.current, Ledger.generation_begin, if_true]
      rfl
  | @advanced _ generation named names found room =>
    refine ⟨generation.scope, by simp [Request.acquires, names], ?_, ?_⟩
    · simp only [Ledger.next, Ledger.current, found]
      rfl
    · simp only [Ledger.current, Ledger.generation_advance, if_true]
      rfl

/-- Whoever comes to be admitted or to have claimed a launch does so under the current generation. -/
theorem Effect.fenced {before after : Ledger} {request : Request} {response : Response}
    (effect : Effect before request response after) (key : Text) :
    (∀ admission, before.admission key = none → after.admission key = some admission →
      before.current admission.authorityScope = some admission.controllerGeneration) ∧
    ∀ launch, before.launch key = none → after.launch key = some launch →
      before.admission key = some launch.admission ∧
        before.current launch.authorityScope = some launch.controllerGeneration := by
  have unchanged {α : Type} {found : Option α} {value : α} {conclusion : Prop} (absent : found = none)
      (present : found = some value) : conclusion := by
    rw [absent] at present
    cases present
  cases effect with
  | @admitted _ _ _ name scope generation names namesScope expects bound current fresh =>
    refine ⟨fun admission absent present => ?_, fun launch => unchanged⟩
    rw [Ledger.admission_grant] at present
    split_ifs at present with same
    · cases present
      exact Ledger.current_of_generation current
    · exact unchanged absent present
  | @claimed _ _ _ _ name scope hash generation names namesScope expects namesHash admitted bound fresh current =>
    refine ⟨fun admission => unchanged, fun launch absent present => ?_⟩
    rw [Ledger.launch_claim] at present
    split_ifs at present with same
    · cases present
      exact ⟨same ▸ admitted, Ledger.current_of_generation current⟩
    · exact unchanged absent present
  | marked =>
    exact ⟨fun admission => unchanged, fun launch absent => unchanged (Ledger.launch_settle_none _ absent)⟩
  | recorded =>
    exact ⟨fun admission => unchanged, fun launch absent => unchanged (Ledger.launch_settle_none _ absent)⟩
  | _ => exact ⟨fun admission => unchanged, fun launch => unchanged⟩

variable {isabs : Str → Bool} {sha256 : List UInt8 → Text} {π : Type}

/-- The generation that an observation says to have been acquired for a scope. -/
def Observation.acquired (scope : Text) : Observation isabs sha256 π → Option Int
  | .returned _ request (.acquired generation) => if request.acquires = some scope then some generation else none
  | _ => none

theorem Observation.Silent.acquired {observed : Observation isabs sha256 π} (silent : observed.Silent) (scope : Text) :
    observed.acquired scope = none := by
  cases observed with
  | returned | entered => cases silent
  | _ => rfl

section Transitions

variable [DecidableEq π] {stage next : Stage isabs sha256} {before after : Ledger} {process : π} {event : Event isabs}
  {seen : List (Observation isabs sha256 π)}

omit [DecidableEq π] in
theorem Transition.effect (transition : Transition stage before process event next after seen) :
    ∃ request response, Effect before request response after := by
  cases transition with
  | answered asks served => exact ⟨_, _, served.effect⟩
  | failed asks uncertain silent =>
    rcases uncertain with rfl | ⟨response, served⟩
    · exact ⟨.readGeneration .none, .generation none, .kept rfl⟩
    · exact ⟨_, _, served.effect⟩
  | entered | aside => exact ⟨.readGeneration .none, .generation none, .kept rfl⟩

omit [DecidableEq π] in
/-- An answer that is seen is the one that was served. -/
theorem Transition.served (transition : Transition stage before process event next after seen) {who : π} {request : Request}
    {response : Response} (shown : .returned who request response ∈ seen) : Served before request response after := by
  cases transition with
  | answered asks served =>
    cases List.mem_singleton.mp shown
    exact served
  | entered launching => cases List.mem_singleton.mp shown
  | failed asks uncertain silent => exact (silent _ shown).elim
  | aside turns silent => exact (silent _ shown).elim

omit [DecidableEq π] in
/-- Every acquisition that is seen raises the generation of its scope to what it returned. -/
theorem Transition.acquires (transition : Transition stage before process event next after seen) (scope : Text) :
    seen.filterMap (Observation.acquired scope) = [] ∨
      seen.filterMap (Observation.acquired scope) = [before.next scope] ∧ after.current scope = some (before.next scope) := by
  have silently (silent : ∀ observed ∈ seen, observed.Silent) : seen.filterMap (Observation.acquired scope) = [] :=
    List.filterMap_eq_nil_iff.mpr fun observed member => (silent observed member).acquired scope
  cases transition with
  | @answered request response _ _ asks served =>
    cases response with
    | acquired generation =>
      by_cases own : request.acquires = some scope
      · cases request with
        | acquireGeneration value =>
          obtain ⟨other, same, rfl, reached⟩ := served.effect.acquired
          obtain rfl : other = scope := Option.some.inj (same.symm.trans own)
          exact .inr ⟨by simp [Observation.acquired, own], reached⟩
        | _ => cases own
      · exact .inl (by simp [Observation.acquired, own])
    | _ => exact .inl rfl
  | entered launching => exact .inl rfl
  | failed asks uncertain silent => exact .inl (silently silent)
  | aside turns silent => exact .inl (silently silent)

end Transitions

namespace World

variable [DecidableEq π]

theorem Sound.effect {world : World isabs sha256 π} (sound : world.Sound world.ledger) (event : π × Event isabs) :
    ∃ request response, Effect world.ledger request response (world.step event).1.ledger :=
  (sound.follows event).transition.effect

/-- What the fence promises of a step. -/
structure Fences (world : World isabs sha256 π) (event : π × Event isabs) : Prop where
  admits : ∀ who key scopeValue generationValue result,
    .returned who (.admitExecution key scopeValue generationValue) (.admission result) ∈ (world.step event).2 →
      ∃ scope generation, (Request.admitExecution key scopeValue generationValue).fence = some (scope, generation) ∧
        world.ledger.current scope = some generation
  claims : ∀ who key scopeValue generationValue hash launch,
    .returned who (.claimExecutionLaunch key scopeValue generationValue hash) (.claimed launch) ∈ (world.step event).2 →
      ∃ scope generation, (Request.claimExecutionLaunch key scopeValue generationValue hash).fence = some (scope, generation) ∧
        world.ledger.current scope = some generation
  /-- Also where the step did not get to know that it was admitted. -/
  admitted : ∀ key admission, world.ledger.admission key = none →
    (world.step event).1.ledger.admission key = some admission →
      world.ledger.current admission.authorityScope = some admission.controllerGeneration
  claimed : ∀ key launch, world.ledger.launch key = none → (world.step event).1.ledger.launch key = some launch →
    world.ledger.admission key = some launch.admission ∧
      world.ledger.current launch.authorityScope = some launch.controllerGeneration
  acquired : ∀ who value generation,
    .returned who (.acquireGeneration value) (.acquired generation) ∈ (world.step event).2 →
      ∃ scope, (Request.acquireGeneration value).acquires = some scope ∧ generation = world.ledger.next scope ∧
        (world.step event).1.ledger.current scope = some generation ∧
          ∀ other, other ≠ scope → (world.step event).1.ledger.current other = world.ledger.current other
  exhausted : ∀ scope, world.ledger.current scope = some maxGeneration →
    (world.step event).1.ledger.current scope = some maxGeneration ∧
      (world.step event).2.filterMap (Observation.acquired scope) = []

variable {world : World isabs sha256 π}

theorem Sound.current_cases (sound : world.Sound world.ledger) (event : π × Event isabs) (scope : Text) :
    (world.step event).1.ledger.current scope = world.ledger.current scope ∨
      (world.step event).1.ledger.current scope = some (world.ledger.next scope) := by
  obtain ⟨request, response, effect⟩ := sound.effect event
  exact (effect.current scope).imp id And.right

theorem Sound.acquired (sound : world.Sound world.ledger) {event : π × Event isabs} {who : π} {value : PyValue}
    {generation : Int}
    (shown : .returned who (.acquireGeneration value) (.acquired generation) ∈ (world.step event).2) :
    ∃ scope, (Request.acquireGeneration value).acquires = some scope ∧ generation = world.ledger.next scope ∧
      (world.step event).1.ledger.current scope = some generation ∧
        ∀ other, other ≠ scope → (world.step event).1.ledger.current other = world.ledger.current other := by
  have effect := ((sound.follows event).transition.served shown).effect
  obtain ⟨scope, own, same, reached⟩ := effect.acquired
  refine ⟨scope, own, same, reached, fun other different => ?_⟩
  rcases effect.current other with kept | ⟨acquires, _⟩
  · exact kept
  · exact absurd (Option.some.inj (acquires.symm.trans own)) different

/-- No acquisition goes beyond the last generation. -/
theorem Sound.exhausted (sound : world.Sound world.ledger) (event : π × Event isabs) {scope : Text}
    (last : world.ledger.current scope = some maxGeneration) :
    (world.step event).1.ledger.current scope = some maxGeneration ∧
      (world.step event).2.filterMap (Observation.acquired scope) = [] := by
  have beyond : (world.step event).1.ledger.current scope ≠ some (world.ledger.next scope) := by
    intro raised
    have bound := Ledger.current_le raised
    rw [Ledger.next, last, Option.getD_some] at bound
    omega
  constructor
  · rcases sound.current_cases event scope with kept | raised
    · exact kept.trans last
    · exact absurd raised beyond
  · rcases (sound.follows event).transition.acquires scope with none_ | ⟨_, raised⟩
    · exact none_
    · exact absurd raised beyond

theorem Sound.fences (sound : world.Sound world.ledger) (event : π × Event isabs) : world.Fences event where
  admits who key scopeValue generationValue result shown := by
    rcases (sound.follows event).transition.served shown with ⟨⟨_, _, other⟩, _⟩ | served
    · cases other
    · exact Ledger.admission_current served
  claims who key scopeValue generationValue hash launch shown := by
    rcases (sound.follows event).transition.served shown with ⟨⟨_, _, other⟩, _⟩ | served
    · cases other
    · exact Ledger.claim_current served
  admitted key := by
    obtain ⟨request, response, effect⟩ := sound.effect event
    exact (effect.fenced key).1
  claimed key := by
    obtain ⟨request, response, effect⟩ := sound.effect event
    exact (effect.fenced key).2
  acquired _ _ _ := sound.acquired
  exhausted _ := sound.exhausted event

/-- A scope that has a generation keeps one that is no lower. -/
def Rises (world later : World isabs sha256 π) : Prop := ∀ scope generation,
  world.ledger.current scope = some generation →
    ∃ other, generation ≤ other ∧ later.ledger.current scope = some other

theorem Sound.rises (sound : world.Sound world.ledger) (event : π × Event isabs) : world.Rises (world.step event).1 := by
  intro scope generation found
  rcases sound.current_cases event scope with kept | raised
  · exact ⟨generation, le_rfl, kept.trans found⟩
  · refine ⟨_, ?_, raised⟩
    rw [Ledger.next, found, Option.getD_some]
    omega

omit [DecidableEq π] in
theorem Rises.trans {first second third : World isabs sha256 π} (rises : first.Rises second) (rises' : second.Rises third) :
    first.Rises third := by
  intro scope generation found
  obtain ⟨middle, higher, found⟩ := rises scope generation found
  obtain ⟨last, higher', found⟩ := rises' scope middle found
  exact ⟨last, higher.trans higher', found⟩

/-- The generation a scope has reached, zero where it has none. -/
noncomputable def level (scope : Text) (world : World isabs sha256 π) : Int := world.ledger.next scope - 1

omit [DecidableEq π] in
theorem level_of_current {scope : Text} {generation : Int} (found : world.ledger.current scope = some generation) :
    world.level scope = generation := by
  rw [level, Ledger.next, found, Option.getD_some]
  omega

theorem Sound.level_le (sound : world.Sound world.ledger) (event : π × Event isabs) (scope : Text) :
    world.level scope ≤ (world.step event).1.level scope := by
  rcases sound.current_cases event scope with kept | raised
  · rw [level, level, Ledger.next, Ledger.next, kept]
  · rw [level_of_current raised, level]
    omega

/-- The values that are acquired for a scope come in increasing order. -/
theorem acquired_increasing (store : Option Database) (events : List (π × Event isabs)) (scope : Text) :
    ((seen step (start store : World isabs sha256 π) events).filterMap (Observation.acquired scope)).Pairwise (· < ·) := by
  refine (seen_increasing (level scope) (Observation.acquired scope) step_sound (fun world event sound => sound.level_le event scope) ?_
    (start_sound_any store) events).1
  intro world event sound
  rcases (sound.follows event).transition.acquires scope with none_ | ⟨shown, raised⟩
  · exact .inl none_
  · refine .inr ⟨_, shown, ?_, (level_of_current raised).ge⟩
    rw [level]
    omega

/-- The fence holds in every step of every run, and generations rise from run to run. -/
theorem generations_fenced (store : Option Database) (past : List (π × Event isabs)) :
    (∀ event, (final step (start store : World isabs sha256 π) past).Fences event) ∧
    (∀ later, (final step (start store : World isabs sha256 π) past).Rises
      (final step (final step (start store : World isabs sha256 π) past) later)) ∧
    ∀ scope, ((seen step (start store : World isabs sha256 π) past).filterMap
      (Observation.acquired scope)).Pairwise (· < ·) := by
  have sound : (final step (start store : World isabs sha256 π) past).Sound _ := reachable_sound store past
  refine ⟨sound.fences, fun later => ?_, acquired_increasing store past⟩
  exact @related_of_step _ _ _ step (fun world : World isabs sha256 π => world.Sound world.ledger) Rises
    (fun _ _ generation found => ⟨generation, le_rfl, found⟩) Rises.trans
    (fun world event sound => ⟨step_sound world event sound, sound.rises event⟩) _ sound later

end World

end Umbilical.Authority
