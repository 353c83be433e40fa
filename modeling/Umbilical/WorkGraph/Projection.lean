import Umbilical.WorkGraph.Verdicts

set_option autoImplicit false

/-!
# The store under the clients

What clients and others do to the store together is a run of processes on the store,
so that whatever holds of those holds under any number of clients.
-/

namespace Umbilical.WorkGraph

open Python Authority Execution Interleaving Program

variable {isabs : Str → Bool} {sha256 : List UInt8 → Text} {π : Type}

/-- What is seen of the store. -/
def Observation.stored : Observation isabs sha256 π → Option (Authority.Observation isabs sha256 π)
  | .store observed => some observed
  | _ => none

/-- A result is reported for a key by somebody who does not run the client. -/
def Event.Records (key : Text) : Event isabs → Prop
  | .other event => event.Records key
  | _ => False

/-- A launcher returns the exit code. -/
def Event.Exits (exitCode : Int) : Event isabs → Prop
  | .go turn => turn.exit = .ok (some exitCode)
  | .other event => event = .exit (some exitCode)
  | _ => False

/-- What the process of a client does to the store at an event. -/
structure Event.Sends (event : Event isabs) (sent : Authority.Event isabs) : Prop where
  records : ∀ key, sent.Records key → event.Records key
  exits : ∀ exitCode, sent = .exit (some exitCode) → event.Exits exitCode

theorem Event.sends_other (event : Authority.Event isabs) : Event.Sends (.other event) event where
  records _ records := records
  exits _ exits := exits

/-- The process does to the store nothing that says where a result comes from. -/
theorem Event.sends_plain (event : Event isabs) {sent : Authority.Event isabs} (unrecorded : ∀ key, ¬ sent.Records key)
    (running : ∀ exitCode, sent ≠ .exit (some exitCode)) : event.Sends sent where
  records key records := absurd records (unrecorded key)
  exits exitCode exits := absurd exits (running exitCode)

variable [DecidableEq π]

/-- The store is left alone, or its process takes a step on it. -/
def Projects (world : World isabs sha256 π) (process : π) (event : Event isabs)
    (result : World isabs sha256 π × List (Observation isabs sha256 π)) : Prop :=
  result.1.authority = world.authority ∧ result.2.filterMap Observation.stored = [] ∨
    ∃ sent, event.Sends sent ∧ result.1.authority = (world.authority.step (process, sent)).1 ∧
      result.2.filterMap Observation.stored = (world.authority.step (process, sent)).2

namespace World

variable {world : World isabs sha256 π} {process : π} {event : Event isabs}

theorem advance_projects {sent : Authority.Event isabs} (sends : event.Sends sent)
    (next : Option (Except PyError (Option Response)) → Option (Thread isabs)) :
    Projects world process event (world.advance process sent next) := by
  refine .inr ⟨sent, sends, rfl, ?_⟩
  simp only [World.advance, List.filterMap_map]
  exact List.filterMap_some

theorem become_projects (thread : Option (Thread isabs)) {shown : List (Observation isabs sha256 π)}
    (beside : shown.filterMap Observation.stored = []) : Projects world process event (world.become process thread, shown) :=
  .inl ⟨rfl, beside⟩

theorem still_projects : Projects world process event (world, []) := .inl ⟨rfl, rfl⟩

theorem advance_plain {sent : Authority.Event isabs} (unrecorded : ∀ key, ¬ sent.Records key)
    (running : ∀ exitCode, sent ≠ .exit (some exitCode))
    (next : Option (Except PyError (Option Response)) → Option (Thread isabs)) :
    Projects world process event (world.advance process sent next) :=
  advance_projects (event.sends_plain unrecorded running) next

theorem goOnExecuting_projects (turn : Turn isabs) (thread : Thread isabs)
    (next : Except ClientError LocalExecutionResult → Thread isabs)
    (executionKey authorityScope controllerGeneration : PyValue) (commandSpec : LocalCommandSpec isabs) :
    Projects world process (.go turn) (world.goOnExecuting process turn thread next executionKey authorityScope
      controllerGeneration commandSpec) := by
  unfold goOnExecuting
  split
  · exact advance_plain (fun _ => id) (fun _ other => by cases other) _
  · exact advance_plain (fun _ => id) (fun _ other => by cases other) _
  · exact advance_plain (fun _ => id) (fun _ other => by cases other) _
  · -- the launcher returns
    split
    · next exitCode returned =>
      refine advance_projects ⟨fun _ => False.elim, fun other same => ?_⟩ _
      cases same
      exact returned
    · exact advance_plain (fun _ => id) (fun _ other => by cases other) _
    · exact advance_plain (fun _ => id) (fun _ other => by cases other) _
  · exact advance_plain (fun _ => id) (fun _ other => by cases other) _
  · split
    · exact become_projects _ rfl
    · exact advance_plain (fun _ => id) (fun _ other => by cases other) _

theorem goOn_projects {past : List (Observation isabs sha256 π)} (sound : world.Sound past) {thread : Thread isabs}
    (own : world.threads process = some thread) (turn : Turn isabs) :
    Projects world process (.go turn) (world.goOn process turn thread) := by
  have safe := sound.safe process thread own
  cases thread with
  | done | raise => exact become_projects _ rfl
  | perform action next =>
    cases action with
    | ask question =>
      refine become_projects _ ?_
      cases question <;> rfl
    | close => exact advance_plain (fun _ => id) (fun _ other => by cases other) _
    | request asked =>
      refine advance_plain (fun key records => ?_) (fun _ other => by cases other) _
      -- a client does not report a result itself
      have allowed := (safe _ (Remembers.refl _)).1
      cases asked with
      | recordExecutionTerminalResult => exact allowed
      | _ => exact records
    | openExisting | initializeNew =>
      simp only [World.goOn]
      split <;> exact advance_plain (fun _ => id) (fun _ other => by cases other) _
    | execute => exact goOnExecuting_projects _ _ _ _ _ _ _

theorem begin_projects (thread : Thread isabs) : Projects world process event (world.begin process thread) := by
  unfold World.begin
  split
  · exact become_projects _ rfl
  · exact still_projects

variable (pathlib : Pathlib) (db : CharacterDatabase)

theorem step_projects {past : List (Observation isabs sha256 π)} (sound : world.Sound past) (event : π × Event isabs) :
    Projects world event.1 event.2 (world.step pathlib db event) := by
  obtain ⟨process, event⟩ := event
  cases event with
  | crash => exact advance_plain (fun _ => id) (fun _ other => by cases other) _
  | run | create =>
    cases own : world.threads process with
    | none =>
      simp only [World.step, own]
      exact begin_projects _
    | some thread =>
      simp only [World.step, own]
      exact still_projects
  | go turn =>
    cases own : world.threads process with
    | none =>
      simp only [World.step, own]
      exact still_projects
    | some thread =>
      simp only [World.step, own]
      exact goOn_projects sound own turn
  | look =>
    cases own : world.threads process with
    | none =>
      simp only [World.step, own]
      exact still_projects
    | some thread =>
      simp only [World.step, own]
      exact advance_plain (fun _ => id) (fun _ other => by cases other) _
  | other event =>
    cases own : world.threads process with
    | none =>
      simp only [World.step, own]
      exact advance_projects (Event.sends_other event) _
    | some thread =>
      simp only [World.step, own]
      exact still_projects

/-- The clients make a run of processes on the store. -/
theorem reachable_projects (store : Option Database) (events : List (π × Event isabs)) : ∃ sent,
    (final (step pathlib db) (start store : World isabs sha256 π) events).authority =
        final Authority.World.step (Authority.World.start store) sent ∧
      (seen (step pathlib db) (start store : World isabs sha256 π) events).filterMap Observation.stored =
        seen Authority.World.step (Authority.World.start store) sent := by
  refine @run_of_step _ _ _ (step pathlib db) _ _ _ Authority.World.step (fun world => ∃ past, world.Sound past) World.authority
    Observation.stored (fun world event sound => ?_) (fun world event sound => ?_) _ ⟨[], start_sound store⟩ events
  · obtain ⟨past, sound⟩ := sound
    exact ⟨_, sound.step pathlib db event⟩
  · obtain ⟨past, sound⟩ := sound
    rcases step_projects pathlib db sound event with ⟨same, silent⟩ | ⟨sent, _, same, shown⟩
    · exact ⟨[], same, silent⟩
    · exact ⟨[(event.1, sent)], same, by rw [shown, seen, seen, List.append_nil]⟩

end World

end Umbilical.WorkGraph
