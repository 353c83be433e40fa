import Umbilical.Authority.Launching

set_option autoImplicit false

/-!
# Where terminal results come from

A launch has the exit code that the launcher of its key has returned, unless
somebody has reported one on his own account.
-/

namespace Umbilical.Authority

open Python Execution Interleaving

variable {isabs : Str → Bool} {sha256 : List UInt8 → Text} {π : Type} [DecidableEq π]

theorem exitCode?_int {value : Int} {code : ExitCode} (reports : exitCode? (.int value) = some code) : code.val = value := by
  unfold exitCode? at reports
  split at reports
  · cases reports
  · next accepted =>
    split_ifs at reports
    cases reports
    unfold validateProcessExitCode at accepted
    dsimp only at accepted
    split_ifs at accepted
    exact (Except.ok.inj accepted).symm

/-- The launch of the key has the exit code. -/
def Ledger.Exited (key : Text) (exitCode : Int) (ledger : Ledger) : Prop :=
  ∃ launch, ledger.launch key = some launch ∧ launch.exitCode = some exitCode

/-- A launch comes to have an exit code only as it is recorded. -/
theorem Effect.exits {before after : Ledger} {request : Request} {response : Response} {key : Text} {exitCode : Int}
    (effect : Effect before request response after) (exited : after.Exited key exitCode) :
    before.Exited key exitCode ∨ ∃ value hash code, request = .recordExecutionTerminalResult value hash code ∧
      (named? (validateExecutionKey value)).map Subtype.val = some key ∧ (exitCode? code).map Subtype.val = some exitCode := by
  obtain ⟨launch, found, has⟩ := exited
  cases effect with
  | claimed names namesScope expects namesHash admitted bound fresh current =>
    rw [Ledger.launch_claim] at found
    split_ifs at found with own
    · cases found
      cases has
    · exact .inl ⟨launch, found, has⟩
  | @marked _ _ name _ launch' _ _ among _ _ =>
    rw [Ledger.markUnknown, Ledger.launch_settle] at found
    split_ifs at found with own
    · rw [among] at found
      cases found
      cases has
    · exact .inl ⟨launch, found, has⟩
  | @recorded value _ code name hash given launch' names namesHash reports among hashed state =>
    rw [Ledger.recordTerminal, Ledger.launch_settle] at found
    split_ifs at found with own
    · rw [among] at found
      cases found
      refine .inr ⟨value, _, code, rfl, by rw [names, own]; rfl, ?_⟩
      rw [reports]
      exact has
    · exact .inl ⟨launch, found, has⟩
  | _ => exact .inl ⟨launch, found, has⟩

omit [DecidableEq π] in
theorem Transition.recording {stage : Stage isabs sha256} {before after : Ledger} {process : π} {event : Event isabs}
    {seen : List (Observation isabs sha256 π)} {execution : LocalExecution isabs sha256} {exitCode : Int}
    (transition : Transition stage before process event (.recording execution exitCode) after seen) :
    stage = .recording execution exitCode ∨ stage = .launched execution := by
  cases transition with
  | answered asks => rcases asks.next_cases with other | ⟨_, other⟩ | ⟨_, other⟩ <;> cases other
  | aside turns =>
    cases turns with
    | still => exact .inl rfl
    | exited => exact .inr rfl

namespace World

/-- The exit code of the key is in the store, or a process is about to record it. -/
def Reported (key : Text) (exitCode : Int) (world : World isabs sha256 π) : Prop :=
  world.ledger.Exited key exitCode ∨
    ∃ process execution, (world.processes process).stage = .recording execution exitCode ∧ execution.key = some key

/-- The launcher of the key returns the exit code to who has entered it. -/
def Exits (key : Text) (exitCode : Int) (world : World isabs sha256 π) (event : π × Event isabs) : Prop :=
  event.2 = .exit (some exitCode) ∧
    ∃ execution, (world.processes event.1).stage = .launched execution ∧ execution.key = some key

variable {key : Text} {exitCode : Int} {world : World isabs sha256 π}

/-- A process is about to record what its launcher has returned. -/
theorem recording_of_step (sound : world.Sound world.ledger) {event : π × Event isabs} {execution : LocalExecution isabs sha256}
    (recording : ((world.step event).1.processes event.1).stage = .recording execution exitCode) :
    (world.processes event.1).stage = .recording execution exitCode ∨
      event.2 = .exit (some exitCode) ∧ (world.processes event.1).stage = .launched execution := by
  have transition := (sound.follows event).transition
  rw [recording] at transition
  rcases transition.recording with before | stage
  · exact .inl before
  · obtain ⟨process, event⟩ := event
    refine .inr ⟨?_, stage⟩
    dsimp only at stage recording ⊢
    cases event with
    | exit code =>
      cases code with
      | none => simp [step, stage, turnTo, World.become] at recording
      | some code =>
        simp only [step, stage, turnTo, World.become, Function.update_self] at recording
        cases recording
        rfl
    | crash => simp [step, World.become, Process.new] at recording
    | proceed outcomes =>
      simp only [step] at recording
      split at recording
      · cases stage.symm.trans recording
      · simp only [proceed, stage] at recording
        cases recording
    | look =>
      simp only [step] at recording
      split at recording
      · next opening => cases stage.symm.trans opening
      · cases stage.symm.trans recording
    | _ =>
      simp only [step, stage] at recording
      cases recording

theorem reported_of_step (sound : world.Sound world.ledger) (event : π × Event isabs)
    (reported : (world.step event).1.Reported key exitCode) :
    world.Reported key exitCode ∨ event.2.Records key ∨ world.Exits key exitCode event := by
  have follows := sound.follows event
  rcases reported with exited | ⟨process, execution, recording, named⟩
  · have served {request : Request} {response : Response} {next : Stage isabs sha256}
        (asks : (world.processes event.1).stage.Asks event.2 request next)
        (effect : Effect world.ledger request response (world.step event).1.ledger) :
        world.Reported key exitCode ∨ event.2.Records key ∨ world.Exits key exitCode event := by
      rcases effect.exits exited with before | ⟨value, hash, code, rfl, names, reports⟩
      · exact .inl (.inl before)
      · generalize stage : (world.processes event.1).stage = current at asks
        generalize event.2 = happened at asks
        cases asks with
        | call => exact .inr (.inl names)
        | record execution given =>
          obtain ⟨code, reads, same⟩ := Option.map_eq_some_iff.mp reports
          rw [exitCode?_int reads] at same
          exact .inl (.inr ⟨event.1, execution, same ▸ stage, names⟩)
    have transition := follows.transition
    generalize (world.step event).1.ledger = reached at transition served exited
    generalize (world.step event).2 = shown at transition
    generalize ((world.step event).1.processes event.1).stage = next at transition
    cases transition with
    | answered asks answer => exact served asks answer.effect
    | failed asks uncertain =>
      rcases uncertain with rfl | ⟨response, answer⟩
      · exact .inl (.inl exited)
      · exact served asks answer.effect
    | entered | aside => exact .inl (.inl exited)
  · by_cases same : process = event.1
    · subst same
      rcases recording_of_step sound recording with before | ⟨exits, launched⟩
      · exact .inl (.inr ⟨event.1, execution, before, named⟩)
      · exact .inr (.inr ⟨exits, execution, launched, named⟩)
    · rw [follows.others process same] at recording
      exact .inl (.inr ⟨process, execution, recording, named⟩)

/-- Who is behind the entry of the launcher has entered it, with the launch of its command marked. -/
structure Entered (world : World isabs sha256 π) (past : List (Observation isabs sha256 π)) : Prop where
  launches : world.Launches [] past
  entered : ∀ process execution, (world.processes process).stage.Begun execution →
    .entered process execution ∈ past ∧ execution.Marked world.ledger

theorem Entered.step_entered {past : List (Observation isabs sha256 π)} (entered : world.Entered past) (event : π × Event isabs) :
    (world.step event).1.Entered (past ++ (world.step event).2) where
  launches := entered.launches.step_launches event
  entered process execution begun := by
    have follows := entered.launches.sound.follows event
    have before (stays : (world.processes process).stage.Begun execution) :
        .entered process execution ∈ past ++ (world.step event).2 ∧ execution.Marked (world.step event).1.ledger := by
      obtain ⟨shown, marked⟩ := entered.entered process execution stays
      exact ⟨List.mem_append_left _ shown, marked.appends follows.transition.wins.1⟩
    by_cases same : process = event.1
    · subst same
      rcases follows.transition.begun begun with stays | shown
      · exact before stays
      · have now : .entered event.1 execution ∈ (world.step event).2 := by
          rw [shown]
          exact List.mem_singleton_self _
        have launching := follows.transition.of_entry now
        exact ⟨List.mem_append_right _ now,
          (entered.launches.marked event.1 execution launching).appends follows.transition.wins.1⟩
    · rw [follows.others process same] at begun
      exact before begun

omit [DecidableEq π] in
theorem start_entered (store : Option Database) : (start store : World isabs sha256 π).Entered [] where
  launches := start_launches [] store
  entered _ _ begun := begun.elim

theorem reachable_entered (store : Option Database) (events : List (π × Event isabs)) :
    (final step (start store : World isabs sha256 π) events).Entered
      (seen step (start store : World isabs sha256 π) events) :=
  @history_of_step _ _ _ step (fun world past => world.Entered past)
    (fun _ _ event entered => entered.step_entered event) _ _ (start_entered store) events

omit [DecidableEq π] in
theorem start_reported {store : Option Database} (reported : (start store : World isabs sha256 π).Reported key exitCode) :
    (start store : World isabs sha256 π).ledger.Exited key exitCode := by
  rcases reported with exited | ⟨_, _, recording, _⟩
  · exact exited
  · cases recording

end World

end Umbilical.Authority
