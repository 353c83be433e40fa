import Umbilical.Authority.Transitions

set_option autoImplicit false

/-!
# What one step can make durable

A step leaves the store alone, reserves its path, or commits one transaction.
-/

namespace Umbilical.Authority

open Python Execution Interleaving

variable {isabs : Str → Bool} {sha256 : List UInt8 → Text} {π : Type} [DecidableEq π]

/-- The migration that an observation reports as done. -/
def Observation.migration : Observation isabs sha256 π → Option Migration
  | .migrated _ migration => some migration
  | _ => none

def Observation.Unmigrated (seen : List (Observation isabs sha256 π)) : Prop := seen.filterMap Observation.migration = []

/-- All that a step can do to what is durable, with what it lets be seen. -/
inductive Stored : Option Database → Option Database → List (Observation isabs sha256 π) → Prop
  | kept {store : Option Database} {seen : List (Observation isabs sha256 π)} (quiet : Observation.Unmigrated seen) :
      Stored store store seen
  | reserved : Stored none (some .empty) []
  | initialized {database : Database} {seen : List (Observation isabs sha256 π)}
      (ran : initializationBody.eval .empty = .ok () database) (quiet : Observation.Unmigrated seen) :
      Stored (some .empty) (some database) seen
  | served {durable database : Database} {request : Request} {response : Response}
      {seen : List (Observation isabs sha256 π)} (ran : request.body.eval durable = .ok response database)
      (quiet : Observation.Unmigrated seen) : Stored (some durable) (some database) seen
  | migrated {durable database : Database} {migration : Migration} {seen : List (Observation isabs sha256 π)}
      (ran : migration.body.eval durable = .ok () database)
      (told : seen.filterMap Observation.migration = [] ∨ seen.filterMap Observation.migration = [migration]) :
      Stored (some durable) (some database) seen

namespace World

variable {world : World isabs sha256 π} {process : π} {content : Ledger}

omit [DecidableEq π] in
theorem unmigrated_nil : Observation.Unmigrated ([] : List (Observation isabs sha256 π)) := rfl

section Conclusions

variable {α : Type} {task : Task} {next : α → Stage isabs sha256} {seen : α → List (Observation isabs sha256 π)}

theorem conclude_error (error : PyError) (after : Call) : world.conclude process task next seen (.error error after) =
    if error = .processDied then (world.on process .new (some after.durable), [])
    else (world.on process ⟨after.handle, .idle⟩ (some after.durable),
      [.raised process task error after.commitStarted]) := rfl

theorem conclude_store (result : EStateM.Result PyError Call α) :
    (world.conclude process task next seen result).1.store = some (reached result).durable := by
  cases result with
  | ok value after => rfl
  | error error after =>
    rw [conclude_error]
    split_ifs <;> rfl

theorem conclude_error_seen (error : PyError) (after : Call) :
    (world.conclude process task next seen (.error error after)).2 =
      if error = .processDied then [] else [.raised process task error after.commitStarted] := by
  rw [conclude_error]
  split_ifs <;> rfl

theorem conclude_unmigrated {result : EStateM.Result PyError Call α} (quiet : ∀ value, Observation.Unmigrated (seen value)) :
    Observation.Unmigrated (world.conclude process task next seen result).2 := by
  cases result with
  | ok value after => exact quiet value
  | error error after =>
    rw [conclude_error_seen]
    split_ifs <;> rfl

end Conclusions

omit [DecidableEq π] in
/-- A store that is left alone. -/
theorem stored_kept {before after : Option Database} {seen : List (Observation isabs sha256 π)} (same : after = before)
    (quiet : Observation.Unmigrated seen) : Stored before after seen := by
  rw [same]
  exact .kept quiet

theorem serve_stored (process : π) {durable : Database} (there : world.store = some durable) (request : Request)
    (next : Stage isabs sha256) (outcomes : List Outcome) :
    Stored world.store (world.serve process request next outcomes durable).1.store
      (world.serve process request next outcomes durable).2 := by
  have quiet : Observation.Unmigrated (world.serve process request next outcomes durable).2 :=
    conclude_unmigrated fun _ => rfl
  have ended := request.run_concluded (world.callOn process durable outcomes)
  unfold serve at quiet ⊢
  rw [conclude_store, there]
  generalize request.run (world.callOn process durable outcomes) = result at ended quiet
  cases ended with
  | concluded usable concluded =>
    cases concluded with
    | committed evaluated ready => exact .served evaluated quiet
    | uncertain evaluated started settled => exact .served evaluated quiet
    | refused same settled => exact stored_kept (congrArg some same) quiet
    | abandoned same evaluated uncaught usable => exact stored_kept (congrArg some same) quiet
  | unusable unusable => exact stored_kept rfl quiet
  | rejected usable invalid evaluated => exact stored_kept rfl quiet
  | immediate usable evaluated => exact stored_kept rfl quiet

theorem Sound.proceed_stored (sound : world.Sound content) (process : π) {durable : Database}
    (there : world.store = some durable) (outcomes : List Outcome) :
    Stored world.store (world.proceed process outcomes durable).1.store (world.proceed process outcomes durable).2 := by
  unfold proceed
  cases stage : (world.processes process).stage with
  | idle | launched => exact .kept unmigrated_nil
  | launching execution => exact .kept rfl
  | claiming execution => exact serve_stored process there execution.claim _ outcomes
  | marking execution => exact serve_stored process there execution.mark _ outcomes
  | recording execution exitCode => exact serve_stored process there (execution.record exitCode) _ outcomes
  | opening path views =>
    have kept := (openExisting_keeps path views (world.callOn process durable outcomes)).1
    refine stored_kept ?_ (conclude_unmigrated fun _ => rfl)
    rw [conclude_store, kept, there]
    rfl
  | initializing path =>
    -- the path is still reserved, because nobody else writes there before it holds a store
    obtain rfl : durable = .empty := Option.some.inj (there.symm.trans (sound.reserved process path stage))
    have atomic := (initializeReserved_atomic path (world.callOn process .empty outcomes)).1
    have quiet : Observation.Unmigrated (world.conclude process .initializeNew (fun _ => .idle)
        (fun _ => [.initialized process]) (initializeReserved path (world.callOn process .empty outcomes))).2 :=
      conclude_unmigrated fun _ => rfl
    simp only
    rw [conclude_store, there]
    generalize initializeReserved path (world.callOn process .empty outcomes) = result at atomic quiet
    cases atomic with
    | committed evaluated => exact .initialized evaluated quiet
    | uncertain evaluated => exact .initialized evaluated quiet
    | kept same => exact stored_kept (congrArg some same) quiet
  | migrating migration =>
    have ready : (world.callOn process durable outcomes).handle = .ready := sound.connected process migration stage
    have atomic := migration.finish_atomic ready
    simp only
    rw [conclude_store, there]
    generalize migration.finish (world.callOn process durable outcomes) = result at atomic
    cases atomic with
    | committed evaluated => exact .migrated evaluated (.inr rfl)
    | uncertain evaluated =>
      refine .migrated evaluated (.inl ?_)
      rw [conclude_error_seen]
      split_ifs <;> rfl
    | kept same =>
      refine stored_kept (congrArg some same) ?_
      rw [conclude_error_seen]
      split_ifs <;> rfl

theorem begin_stored (event : Event isabs) :
    Stored world.store (world.begin process event).1.store (world.begin process event).2 := by
  cases event with
  | call request outcomes =>
    unfold begin
    cases there : world.store with
    | none => exact stored_kept there unmigrated_nil
    | some durable =>
      have stored := serve_stored process there request .idle outcomes
      rwa [there] at stored
  | execute executionKey authorityScope controllerGeneration commandSpec =>
    unfold begin
    simp only
    split <;> exact .kept unmigrated_nil
  | openExisting path =>
    unfold begin
    cases there : world.store with
    | none => exact stored_kept there rfl
    | some durable => exact stored_kept there rfl
  | reserve path windows reserved =>
    simp only [begin]
    cases reservation : reserve path windows reserved world.store with
    | error error => exact .kept rfl
    | ok durable =>
      obtain ⟨absent, rfl⟩ : world.store = none ∧ Database.empty = durable := by
        simp only [reserve, bind_eq_ok, raiseIf_ok] at reservation
        obtain ⟨_, _, _, free, _, _, ⟨⟩⟩ := reservation
        exact ⟨by simpa using free, rfl⟩
      simp only [absent]
      exact .reserved
  | migrate path migration outcomes =>
    unfold begin
    cases there : world.store with
    | none => exact stored_kept there rfl
    | some durable =>
      have kept := (migration.start_keeps path ((world.become process ⟨.closed, .idle⟩).callOn process durable outcomes)).1
      refine stored_kept ?_ (conclude_unmigrated fun _ => rfl)
      rw [conclude_store, kept]
      rfl
  | close => exact .kept unmigrated_nil
  | look | proceed | exit | crash => exact .kept unmigrated_nil

theorem Sound.step_stored (sound : world.Sound content) (event : π × Event isabs) :
    Stored world.store (world.step event).1.store (world.step event).2 := by
  obtain ⟨process, event⟩ := event
  have begun (begins : event.Begins) : Stored world.store (world.step (process, event)).1.store
      (world.step (process, event)).2 := by
    rcases step_begins world process begins with ⟨_, same⟩ | same
    · rw [same]
      exact begin_stored event
    · rw [same]
      exact .kept unmigrated_nil
  cases event with
  | crash => exact .kept unmigrated_nil
  | look =>
    simp only [step]
    split <;> exact .kept unmigrated_nil
  | exit exitCode =>
    simp only [step]
    split <;> exact .kept unmigrated_nil
  | proceed outcomes =>
    simp only [step]
    cases there : world.store with
    | none => exact stored_kept there unmigrated_nil
    | some durable =>
      have stored := sound.proceed_stored process there outcomes
      rwa [there] at stored
  | call | execute | openExisting | reserve | migrate | close => exact begun trivial

/-- What is durable, for the callers. -/
noncomputable def ledger (world : World isabs sha256 π) : Ledger := (Durable.total world.store).choose

omit [DecidableEq π] in
theorem Sound.ledger_eq (sound : world.Sound content) : world.ledger = content :=
  Durable.unique (Durable.total world.store).choose_spec sound.durable

theorem Sound.follows (sound : world.Sound world.ledger) (event : π × Event isabs) :
    world.Follows world.ledger event.1 event.2 (world.step event) (world.step event).1.ledger := by
  obtain ⟨after, follows⟩ : ∃ after, world.Follows world.ledger event.1 event.2 (world.step event) after :=
    sound.step_follows event.2
  rwa [← follows.sound.ledger_eq] at follows

theorem step_sound (world : World isabs sha256 π) (event : π × Event isabs) (sound : world.Sound world.ledger) :
    (world.step event).1.Sound (world.step event).1.ledger := (sound.follows event).sound

omit [DecidableEq π] in
theorem start_sound_any (store : Option Database) :
    (start store : World isabs sha256 π).Sound (start store : World isabs sha256 π).ledger :=
  start_sound (Durable.total store).choose_spec

/-- Every reachable world is sound, whatever is at the path. -/
theorem reachable_sound (store : Option Database) (events : List (π × Event isabs)) :
    (final step (start store : World isabs sha256 π) events).Sound
      (final step (start store : World isabs sha256 π) events).ledger :=
  final_of_step step_sound (start_sound_any store) events

end World

end Umbilical.Authority
