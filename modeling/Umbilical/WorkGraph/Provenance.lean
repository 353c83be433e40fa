import Umbilical.WorkGraph.Projection

set_option autoImplicit false

/-!
# Where a status comes from

Behind a status that is posted there is one entry of the launcher, for the command
that the store has bound, and the exit code that it has returned.
-/

namespace Umbilical.WorkGraph

open Python Authority Execution Interleaving

variable {isabs : Str → Bool} {sha256 : List UInt8 → Text} {π : Type}

/-- The launcher is entered for a key. -/
def Observation.enters (key : Text) (observed : Observation isabs sha256 π) : Bool :=
  observed.stored.any (Authority.Observation.enters key)

theorem countP_stored (key : Text) (observed : List (Observation isabs sha256 π)) :
    observed.countP (Observation.enters key) =
      (observed.filterMap Observation.stored).countP (Authority.Observation.enters key) := by
  rw [List.countP_filterMap]
  refine List.countP_congr fun first _ => ?_
  unfold Observation.enters
  cases first.stored <;> rfl

variable [DecidableEq π] (pathlib : Pathlib) (db : CharacterDatabase)

namespace World

/-- A launcher of the key that a process has entered returns the exit code to it. -/
def Returns (key : Text) (exitCode : Int) (world : World isabs sha256 π) (event : π × Event isabs)
    (execution : LocalExecution isabs sha256) : Prop :=
  event.2.Exits exitCode ∧ (world.authority.processes event.1).stage = .launched execution ∧ execution.key = some key

/-- An exit code comes to be reported only as its launcher returns it, or by somebody else. -/
theorem Sound.reported_of_step {world : World isabs sha256 π} {past : List (Observation isabs sha256 π)} (sound : world.Sound past)
    {key : Text} {exitCode : Int} (event : π × Event isabs)
    (reported : (world.step pathlib db event).1.authority.Reported key exitCode) :
    world.authority.Reported key exitCode ∨ event.2.Records key ∨ ∃ execution, world.Returns key exitCode event execution := by
  rcases step_projects pathlib db sound event with ⟨same, _⟩ | ⟨sent, sends, same, _⟩
  · rw [same] at reported
    exact .inl reported
  · rw [same] at reported
    rcases Authority.World.reported_of_step sound.authority (event.1, sent) reported with before | records | ⟨exits, execution, launched, named⟩
    · exact .inl before
    · exact .inr (.inl (sends.records key records))
    · exact .inr (.inr ⟨execution, sends.exits exitCode exits, launched, named⟩)

/-- What is marked for an execution stays so. -/
theorem marked_of_run {world : World isabs sha256 π} {past : List (Observation isabs sha256 π)} (sound : world.Sound past)
    {execution : LocalExecution isabs sha256} (marked : execution.Marked world.authority.ledger) (events : List (π × Event isabs)) :
    execution.Marked (final (step pathlib db) world events).authority.ledger := by
  have kept : (∃ past, (final (step pathlib db) world events).Sound past) ∧ execution.Marked _ :=
    @final_of_step _ _ _ (step pathlib db) (fun world => (∃ past, world.Sound past) ∧ execution.Marked world.authority.ledger)
      (fun world event holds => by
        obtain ⟨⟨past, sound⟩, marked⟩ := holds
        refine ⟨⟨_, sound.step pathlib db event⟩, ?_⟩
        rcases step_projects pathlib db sound event with ⟨same, _⟩ | ⟨sent, _, same, _⟩
        · rw [same]
          exact marked
        · rw [same]
          exact marked.appends (sound.authority.follows (event.1, sent)).transition.wins.1)
      _ ⟨⟨past, sound⟩, marked⟩ events
  exact kept.2

/-- What a client has entered, it has entered with the launch of its command marked. -/
theorem reachable_begun (store : Option Database) (events : List (π × Event isabs)) {process : π}
    {execution : LocalExecution isabs sha256}
    (begun : ((final (step pathlib db) (start store : World isabs sha256 π) events).authority.processes process).stage.Begun execution) :
    .store (.entered process execution) ∈ seen (step pathlib db) (start store : World isabs sha256 π) events ∧
      execution.Marked (final (step pathlib db) (start store : World isabs sha256 π) events).authority.ledger := by
  obtain ⟨sent, same, shown⟩ := reachable_projects pathlib db (store : Option Database) events
  rw [same] at begun ⊢
  have entered : (final Authority.World.step (Authority.World.start store : Authority.World isabs sha256 π) sent).Entered _ :=
    Authority.World.reachable_entered store sent
  obtain ⟨among, marked⟩ := entered.entered process execution begun
  refine ⟨?_, marked⟩
  rw [← shown] at among
  obtain ⟨observed, member, stored⟩ := List.mem_filterMap.mp among
  cases observed with
  | store => exact Option.some.inj stored ▸ member
  | _ => cases stored

/-- The launcher is entered at most once for each key. Behind a status that is posted there is such an entry, for the
command that the store names, and the exit code that it has returned; unless the key was terminal before, or somebody
has reported a result for it without a launch. -/
theorem posted_launched (store : Option Database) (events : List (π × Event isabs)) :
    (∀ key, (seen (step pathlib db) (start store : World isabs sha256 π) events).countP (Observation.enters key) ≤ 1) ∧
    ∀ process url payload, .posted process url payload ∈ seen (step pathlib db) (start store : World isabs sha256 π) events →
      ∃ target contractTree key exitCode launch, target.Authentic target.revision ∧
        executionKey target contractTree = .ok (Str.ofText key) ∧ url = statusUrl target ∧ payload = statusPayload exitCode ∧
        (final (step pathlib db) (start store : World isabs sha256 π) events).authority.ledger.launch key = some launch ∧
        launch.exitCode = some exitCode ∧
        ((start store : World isabs sha256 π).authority.ledger.Exited key exitCode ∨
          (∃ event ∈ events, event.2.Records key) ∨
          ∃ past event rest execution, events = past ++ event :: rest ∧
            (final (step pathlib db) (start store : World isabs sha256 π) past).Returns key exitCode event execution ∧
            .store (.entered event.1 execution) ∈ seen (step pathlib db) (start store : World isabs sha256 π) past ∧
            commandSpecHash sha256 execution.commandSpec.fields = .ok (Str.ofText launch.commandSpecHash)) := by
  refine ⟨fun key => ?_, fun process url payload shown => ?_⟩
  · obtain ⟨sent, _, same⟩ := reachable_projects pathlib db (store : Option Database) events
    rw [countP_stored, same]
    have launches : (final Authority.World.step (Authority.World.start store : Authority.World isabs sha256 π) sent).Launches key _ :=
      Authority.World.reachable_launches key store sent
    exact launches.once
  · have sound : (final (step pathlib db) (start store : World isabs sha256 π) events).Sound _ :=
      reachable_sound pathlib db store events
    obtain ⟨target, tree, _, hash, exitCode, authentic, derived, ⟨key, launch, rfl, found, _, code, _⟩, rfl, rfl⟩ := sound.holds _ shown
    refine ⟨target, tree, key, exitCode, launch, authentic, derived, rfl, rfl, found, code, ?_⟩
    have caused := @cause_of_step _ _ _ (step pathlib db) (fun world : World isabs sha256 π => ∃ past, world.Sound past)
      (fun world => world.authority.Reported key exitCode)
      (fun world event => event.2.Records key ∨ ∃ execution, world.Returns key exitCode event execution)
      (fun world event sound => ⟨_, sound.choose_spec.step pathlib db event⟩)
      (fun world event sound reported => sound.choose_spec.reported_of_step pathlib db event reported)
      (start store) ⟨[], start_sound store⟩ events (.inl ⟨launch, found, code⟩)
    rcases caused with before | ⟨past, event, rest, rfl, records | ⟨execution, returns⟩⟩
    · exact .inl (Authority.World.start_reported before)
    · exact .inr (.inl ⟨event, List.mem_append_right _ (List.mem_cons_self), records⟩)
    · -- the launcher has returned what was recorded
      refine .inr (.inr ⟨past, event, rest, execution, rfl, returns, ?_⟩)
      have begun : ((final (step pathlib db) (start store : World isabs sha256 π) past).authority.processes event.1).stage.Begun execution := by
        rw [returns.2.1]
        rfl
      obtain ⟨entered, marked⟩ := reachable_begun pathlib db store past begun
      refine ⟨entered, ?_⟩
      have later := marked_of_run pathlib db (reachable_sound pathlib db store past) marked (event :: rest)
      rw [← final_append] at later
      obtain ⟨other, launch', named, found', _, hashed⟩ := later
      obtain rfl : other = key := Option.some.inj (named.symm.trans returns.2.2)
      cases found.symm.trans found'
      exact hashed ▸ execution.hashed

end World

end Umbilical.WorkGraph
