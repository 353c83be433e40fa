import Umbilical.WorkGraph.Projection
import Umbilical.WorkGraph.Spending

set_option autoImplicit false

/-!
# What clients have been told

In a run, a client has the answers of its own turns and the replies of the store, so
a change of the store by a client has its reasons in the run.
-/

namespace Umbilical.WorkGraph

open Python Authority Execution Program Interleaving

variable {isabs : Str → Bool} {sha256 : List UInt8 → Text} {π : Type}

/-- An answer was given to a process in a run. -/
def HeardIn (process : π) (past : List (π × Event isabs)) (shown : List (Observation isabs sha256 π)) :
    Sigma (Action.Answer isabs) → Prop
  | ⟨.ask question, reply⟩ => ∃ turn, (process, .go turn) ∈ past ∧ turn.answers question = reply
  | ⟨.request asked, .ok response⟩ => .store (.returned process asked response) ∈ shown
  | _ => True

def Heard (process : π) (past : List (π × Event isabs)) (shown : List (Observation isabs sha256 π)) (history : ClientHistory isabs) :
    Prop :=
  ∀ told ∈ history, HeardIn process past shown told

theorem HeardIn.mono {process : π} {past past' : List (π × Event isabs)} {shown shown' : List (Observation isabs sha256 π)}
    (longer : past ⊆ past') (more : shown ⊆ shown') (told : Sigma (Action.Answer isabs)) (heard : HeardIn process past shown told) :
    HeardIn process past' shown' told := by
  obtain ⟨action, reply⟩ := told
  cases action with
  | ask question =>
    obtain ⟨turn, member, same⟩ := heard
    exact ⟨turn, longer member, same⟩
  | request asked =>
    cases reply with
    | ok response => exact more heard
    | error => trivial
  | _ => trivial

section Traces

variable (pathlib : Pathlib) (db : CharacterDatabase)

/-- A thread is what is left of a run, or of the creation of the store, after what its process was told. -/
def Traced (process : π) (past : List (π × Event isabs)) (shown : List (Observation isabs sha256 π)) (thread : Thread isabs) : Prop :=
  ∃ history, Heard process past shown history ∧
    ((∃ asked, (Finished.ran <$> runWorkgraphClient pathlib db sha256 asked : Thread isabs).Told history thread) ∨
      (Finished.initialized <$> initializeWorkgraphClient pathlib : Thread isabs).Told history thread)

variable {pathlib db} {process : π} {past past' : List (π × Event isabs)} {shown shown' : List (Observation isabs sha256 π)}

theorem Traced.mono {thread : Thread isabs} (traced : Traced pathlib db process past shown thread) (longer : past ⊆ past')
    (more : shown ⊆ shown') : Traced pathlib db process past' shown' thread := by
  obtain ⟨history, heard, told⟩ := traced
  exact ⟨history, fun pair member => (heard pair member).mono longer more, told⟩

theorem Traced.answered {action : Action isabs} {next : action.Answer → Thread isabs} {reply : action.Answer}
    (traced : Traced pathlib db process past shown (.perform action next)) (heard : HeardIn process past shown ⟨action, reply⟩) :
    Traced pathlib db process past shown (next reply) := by
  obtain ⟨history, before, told⟩ := traced
  refine ⟨history ++ [⟨action, reply⟩], fun pair member => ?_, ?_⟩
  · rcases List.mem_append.mp member with earlier | now
    · exact before pair earlier
    · rwa [List.mem_singleton.mp now]
  · rcases told with ⟨asked, told⟩ | told
    · exact .inl ⟨asked, told.snoc reply⟩
    · exact .inr (told.snoc reply)

end Traces

namespace World

variable [DecidableEq π] {world : World isabs sha256 π} {process : π}

/-- The response that a client is told is seen, for what it has requested. -/
theorem Sound.told_returned {before : List (Observation isabs sha256 π)} (sound : world.Sound before) {event : Authority.Event isabs}
    {response : Response} (told : conclusion (world.authority.step (process, event)).2 = some (.ok (some response))) :
    ∃ asked next, (world.authority.processes process).stage.Asks event asked next ∧
      (world.authority.step (process, event)).2 = [.returned process asked response] := by
  obtain ⟨who, asked, seen⟩ := conclusion_returned told
  have transition := (sound.authority.follows (process, event)).transition
  rw [seen] at transition ⊢
  generalize (world.authority.step (process, event)).1.ledger = after at transition
  generalize ((world.authority.step (process, event)).1.processes process).stage = reached at transition
  cases transition with
  | answered asks => exact ⟨asked, _, asks, rfl⟩
  | failed _ _ silent => exact (silent _ (List.mem_singleton_self _)).elim
  | aside _ silent => exact (silent _ (List.mem_singleton_self _)).elim

variable (pathlib : Pathlib) (db : CharacterDatabase)

/-- Every thread has a trace. -/
structure Tracing (world : World isabs sha256 π) (past : List (π × Event isabs)) (shown : List (Observation isabs sha256 π)) : Prop where
  sound : world.Sound shown
  traced : ∀ process thread, world.threads process = some thread → Traced pathlib db process past shown thread

variable {pathlib db} {past : List (π × Event isabs)} {shown : List (Observation isabs sha256 π)} {event : π × Event isabs}

/-- The thread of the process that takes the step has a trace again. -/
theorem Tracing.advance (tracing : world.Tracing pathlib db past shown) {sent : Authority.Event isabs}
    {next : Option (Except PyError (Option Response)) → Option (Thread isabs)}
    (goes : ∀ thread, next (conclusion (world.authority.step (process, sent)).2) = some thread →
      Traced pathlib db process (past ++ [event]) (shown ++ (world.advance process sent next).2) thread) :
    ∀ other thread, (world.advance process sent next).1.threads other = some thread →
      Traced pathlib db other (past ++ [event]) (shown ++ (world.advance process sent next).2) thread := by
  intro other thread own
  by_cases same : other = process
  · subst same
    exact goes thread (by simpa [World.advance] using own)
  · exact (tracing.traced other thread (by simpa [World.advance, same] using own)).mono (List.subset_append_left _ _)
      (List.subset_append_left _ _)

theorem Tracing.become (tracing : world.Tracing pathlib db past shown) {next : Option (Thread isabs)}
    {more : List (Observation isabs sha256 π)}
    (goes : ∀ thread, next = some thread → Traced pathlib db process (past ++ [event]) (shown ++ more) thread) :
    ∀ other thread, (world.become process next).threads other = some thread →
      Traced pathlib db other (past ++ [event]) (shown ++ more) thread := by
  intro other thread own
  by_cases same : other = process
  · subst same
    exact goes thread (by simpa [World.become] using own)
  · exact (tracing.traced other thread (by simpa [World.become, same] using own)).mono (List.subset_append_left _ _)
      (List.subset_append_left _ _)

omit [DecidableEq π] in
theorem Tracing.still (tracing : world.Tracing pathlib db past shown) (more : List (Observation isabs sha256 π)) :
    ∀ other thread, world.threads other = some thread → Traced pathlib db other (past ++ [event]) (shown ++ more) thread :=
  fun other thread own => (tracing.traced other thread own).mono (List.subset_append_left _ _) (List.subset_append_left _ _)

omit [DecidableEq π] in
/-- A thread waits, or goes on with an answer that says nothing of the surroundings. -/
theorem Tracing.goesOn (tracing : world.Tracing pathlib db past shown) {more : List (Observation isabs sha256 π)} {action : Action isabs}
    {next : action.Answer → Thread isabs} (own : world.threads process = some (.perform action next))
    (free : ∀ reply, HeardIn process (past ++ [event]) (shown ++ more) ⟨action, reply⟩) {thread : Thread isabs}
    (goes : thread = .perform action next ∨ ∃ reply, thread = next reply) :
    Traced pathlib db process (past ++ [event]) (shown ++ more) thread := by
  have before : Traced pathlib db process (past ++ [event]) (shown ++ more) (.perform action next) := tracing.still more process _ own
  rcases goes with rfl | ⟨reply, rfl⟩
  · exact before
  · exact before.answered (free reply)

theorem whenOpened_goes {waits : Option (Thread isabs)} {next : Except PyError Unit → Thread isabs} {first thread : Thread isabs}
    {told : Option (Except PyError (Option Response))} (waiting : ∀ thread, waits = some thread → thread = first)
    (same : whenOpened waits next told = some thread) : thread = first ∨ ∃ reply, thread = next reply := by
  unfold whenOpened at same
  split at same
  · exact .inr ⟨_, (Option.some.inj same).symm⟩
  · exact .inr ⟨_, (Option.some.inj same).symm⟩
  · exact .inl (waiting thread same)

theorem whenLaunching_goes {first thread : Thread isabs} {next : Except ClientError LocalExecutionResult → Thread isabs}
    {told : Option (Except PyError (Option Response))} (same : whenLaunching first next told = some thread) :
    thread = first ∨ ∃ reply, thread = next reply := by
  unfold whenLaunching at same
  split at same
  · exact .inl (Option.some.inj same).symm
  · exact .inr ⟨_, (Option.some.inj same).symm⟩
  · cases same

theorem whenRecorded_goes {result : LocalExecutionResult} {thread : Thread isabs}
    {next : Except ClientError LocalExecutionResult → Thread isabs} {told : Option (Except PyError (Option Response))}
    (same : whenRecorded result next told = some thread) : ∃ reply, thread = next reply := by
  unfold whenRecorded at same
  split at same
  · exact ⟨_, (Option.some.inj same).symm⟩
  · exact ⟨_, (Option.some.inj same).symm⟩
  · cases same

theorem Tracing.goOnExecuting (tracing : world.Tracing pathlib db past shown) (turn : Turn isabs)
    {executionKey authorityScope controllerGeneration : PyValue} {commandSpec : LocalCommandSpec isabs}
    {next : Except ClientError LocalExecutionResult → Thread isabs}
    (own : world.threads process = some (.perform (.execute executionKey authorityScope controllerGeneration commandSpec) next)) :
    ∀ other thread, (world.goOnExecuting process turn (.perform (.execute executionKey authorityScope controllerGeneration commandSpec)
        next) next executionKey authorityScope controllerGeneration commandSpec).1.threads other = some thread →
      Traced pathlib db other (past ++ [event]) (shown ++ (world.goOnExecuting process turn (.perform (.execute executionKey
        authorityScope controllerGeneration commandSpec) next) next executionKey authorityScope controllerGeneration commandSpec).2)
          thread := by
  have free {more : List (Observation isabs sha256 π)} (reply : Except ClientError LocalExecutionResult) : HeardIn process (past ++ [event])
      (shown ++ more) ⟨.execute executionKey authorityScope controllerGeneration commandSpec, reply⟩ := trivial
  unfold World.goOnExecuting
  split
  · exact tracing.advance fun thread same => tracing.goesOn own free (whenLaunching_goes same)
  · exact tracing.advance fun thread same => tracing.goesOn own free (whenLaunching_goes same)
  · exact tracing.advance fun thread same => tracing.goesOn own free (.inl (Option.some.inj same).symm)
  · split
    · exact tracing.advance fun thread same => tracing.goesOn own free (.inl (Option.some.inj same).symm)
    · exact tracing.advance fun thread same => tracing.goesOn own free (.inr ⟨_, (Option.some.inj same).symm⟩)
    · exact tracing.advance fun thread same => tracing.goesOn own free (.inr ⟨_, (Option.some.inj same).symm⟩)
  · exact tracing.advance fun thread same => tracing.goesOn own free (.inr (whenRecorded_goes same))
  · split
    · exact tracing.become fun thread same => tracing.goesOn own free (.inr ⟨_, (Option.some.inj same).symm⟩)
    · exact tracing.advance fun thread same => tracing.goesOn own free (.inl (Option.some.inj same).symm)

theorem Tracing.goOn (tracing : world.Tracing pathlib db past shown) (turn : Turn isabs) {thread : Thread isabs}
    (own : world.threads process = some thread) :
    ∀ other later, (world.goOn process turn thread).1.threads other = some later →
      Traced pathlib db other (past ++ [(process, .go turn)]) (shown ++ (world.goOn process turn thread).2) later := by
  cases thread with
  | done | raise => exact tracing.become fun thread same => by cases same
  | perform action next =>
    cases action with
    | ask question =>
      refine tracing.become fun thread same => ?_
      cases same
      refine (tracing.still _ process _ own).answered ⟨turn, ?_, rfl⟩
      exact List.mem_append_right _ (List.mem_singleton_self _)
    | close =>
      exact tracing.advance fun thread same => tracing.goesOn own (fun _ => trivial) (.inr ⟨(), (Option.some.inj same).symm⟩)
    | request asked =>
      refine tracing.advance fun thread same => ?_
      unfold whenAnswered at same
      split at same
      · next response told =>
        cases same
        refine (tracing.still _ process _ own).answered ?_
        obtain ⟨other, reached, asks, seen⟩ := tracing.sound.told_returned told
        have idle := asks
        generalize (world.authority.processes process).stage = stage at idle
        cases idle with
        | call =>
          refine List.mem_append_right _ ?_
          simp only [World.advance, seen]
          exact List.mem_singleton_self _
      · cases same
        exact (tracing.still _ process _ own).answered trivial
      · cases same
    | openExisting path =>
      simp only [World.goOn]
      split
      · exact tracing.advance fun thread same => tracing.goesOn own (fun _ => trivial)
          (whenOpened_goes (fun _ other => by cases other) same)
      · exact tracing.advance fun thread same => tracing.goesOn own (fun _ => trivial)
          (whenOpened_goes (fun _ waits => (Option.some.inj waits).symm) same)
    | initializeNew path =>
      simp only [World.goOn]
      split
      · exact tracing.advance fun thread same => tracing.goesOn own (fun _ => trivial)
          (whenOpened_goes (fun _ other => by cases other) same)
      · exact tracing.advance fun thread same => tracing.goesOn own (fun _ => trivial)
          (whenOpened_goes (fun _ waits => (Option.some.inj waits).symm) same)
    | execute => exact tracing.goOnExecuting turn own

theorem Tracing.begin (tracing : world.Tracing pathlib db past shown) {thread : Thread isabs}
    (starts : (∃ asked, thread = (Finished.ran <$> runWorkgraphClient pathlib db sha256 asked : Thread isabs)) ∨
      thread = (Finished.initialized <$> initializeWorkgraphClient pathlib : Thread isabs)) :
    ∀ other later, (world.begin process thread).1.threads other = some later →
      Traced pathlib db other (past ++ [event]) (shown ++ (world.begin process thread).2) later := by
  unfold World.begin
  split
  · refine tracing.become fun other same => ?_
    cases same
    refine ⟨[], List.forall_mem_nil _, ?_⟩
    rcases starts with ⟨asked, rfl⟩ | rfl
    · exact .inl ⟨asked, .still _⟩
    · exact .inr (.still _)
  · exact tracing.still _

theorem Tracing.step (tracing : world.Tracing pathlib db past shown) (event : π × Event isabs) :
    (world.step pathlib db event).1.Tracing pathlib db (past ++ [event]) (shown ++ (world.step pathlib db event).2) where
  sound := tracing.sound.step pathlib db event
  traced := by
    obtain ⟨process, event⟩ := event
    cases event with
    | crash => exact tracing.advance fun thread same => by cases same
    | run asked =>
      cases own : world.threads process with
      | none =>
        simp only [World.step, own]
        exact tracing.begin (.inl ⟨asked, rfl⟩)
      | some thread =>
        simp only [World.step, own]
        exact tracing.still _
    | create =>
      cases own : world.threads process with
      | none =>
        simp only [World.step, own]
        exact tracing.begin (.inr rfl)
      | some thread =>
        simp only [World.step, own]
        exact tracing.still _
    | go turn =>
      cases own : world.threads process with
      | none =>
        simp only [World.step, own]
        exact tracing.still _
      | some thread =>
        simp only [World.step, own]
        exact tracing.goOn turn own
    | look =>
      cases own : world.threads process with
      | none =>
        simp only [World.step, own]
        exact tracing.still _
      | some thread =>
        simp only [World.step, own]
        refine tracing.advance fun later same => ?_
        cases same
        exact tracing.still _ process thread own
    | other sent =>
      cases own : world.threads process with
      | none =>
        simp only [World.step, own]
        exact tracing.advance fun thread same => by cases same
      | some thread =>
        simp only [World.step, own]
        exact tracing.still _

theorem reachable_tracing (store : Option Database) (events : List (π × Event isabs)) :
    (final (World.step pathlib db) (start store : World isabs sha256 π) events).Tracing pathlib db events
      (seen (World.step pathlib db) (start store : World isabs sha256 π) events) :=
  @past_of_step _ _ _ (World.step pathlib db) (fun world past shown => world.Tracing pathlib db past shown)
    (fun _ _ _ event tracing => tracing.step event) _ ⟨start_sound store, fun _ _ own => by cases own⟩ events

end World

/-! ## Steps that change the store -/

theorem served_asksOnly {before after : Ledger} {asked : Request} {response : Response} (served : Served before asked response after)
    (only : AsksOnly asked) : after = before := by
  have effect := served.effect
  cases effect with
  | kept => rfl
  | _ => exact only.elim

namespace World

variable [DecidableEq π] {world : World isabs sha256 π} {process : π} {shown : List (Observation isabs sha256 π)}

/-- A step that asks for no more than what is there changes nothing. -/
theorem Sound.advance_spares (sound : world.Sound shown) {sent : Authority.Event isabs}
    (next : Option (Except PyError (Option Response)) → Option (Thread isabs))
    (only : ∀ asked next, (world.authority.processes process).stage.Asks sent asked next → AsksOnly asked) :
    (world.advance process sent next).1.authority.ledger = world.authority.ledger := by
  have transition := (sound.authority.follows (process, sent)).transition
  simp only [World.advance]
  generalize (world.authority.step (process, sent)).1.ledger = after at transition
  generalize (world.authority.step (process, sent)).2 = seen at transition
  generalize ((world.authority.step (process, sent)).1.processes process).stage = reached at transition
  cases transition with
  | answered asks served => exact served_asksOnly served (only _ _ asks)
  | failed asks uncertain =>
    rcases uncertain with rfl | ⟨response, served⟩
    · rfl
    · exact served_asksOnly served (only _ _ asks)
  | entered | aside => rfl

/-- A client that changes the store performs an action that does. -/
theorem Sound.goOn_changes (sound : world.Sound shown) {thread : Thread isabs} (own : world.threads process = some thread) (turn : Turn isabs)
    (changed : (world.goOn process turn thread).1.authority.ledger ≠ world.authority.ledger) :
    ∃ action next, thread = .perform action next ∧ ¬ action.Spares := by
  have fits := sound.fits process thread own
  cases thread with
  | done | raise => exact absurd rfl changed
  | perform action next =>
    refine ⟨action, next, rfl, fun spares => changed ?_⟩
    generalize stage : (world.authority.processes process).stage = current at fits
    cases action with
    | ask => rfl
    | close =>
      cases fits
      refine sound.advance_spares _ fun asked next asks => ?_
      rw [stage] at asks
      cases asks
    | request asked =>
      cases fits
      refine sound.advance_spares _ fun other next asks => ?_
      rw [stage] at asks
      cases asks
      exact spares
    | openExisting path =>
      simp only [World.goOn, stage]
      cases fits with
      | idle | opening =>
        refine sound.advance_spares _ fun asked next asks => ?_
        rw [stage] at asks
        cases asks
    | initializeNew | execute => exact spares.elim

end World

section Finishing

variable {pathlib : Pathlib} {db : CharacterDatabase}

/-- What a thread performs, its run does. -/
theorem told_map {α β : Type} {f : α → β} {program : Client isabs α} {history : ClientHistory isabs} {action : Action isabs}
    {next : action.Answer → Client isabs β} (told : (f <$> program).Told history (.perform action next)) :
    ∃ rest, program.Told history (.perform action rest) := by
  rcases Told.of_bind told with ⟨middle, before, same⟩ | ⟨_, _, _, _, _, ended⟩
  · cases middle with
    | done | raise => cases same
    | perform _ rest =>
      cases same
      exact ⟨rest, before⟩
  · cases ended

/-- The creation of a store opens it and hands out its first generation. -/
def Action.Creates : Action isabs → Prop
  | .initializeNew _ => True
  | .request asked => asked = .acquireGeneration (textValue authorityScope)
  | _ => False

theorem initialize_creates : (initializeWorkgraphClient pathlib : Client isabs _).Within (fun action => action.Spares ∨ action.Creates)
    fun _ => True := by
  have asking {α : Type} {program : Client isabs α} {returns : α → Prop} (asks : program.Within Action.Asks returns) :
      program.Within (fun action => action.Spares ∨ action.Creates) fun _ => True :=
    (spares_of_asks asks).imp fun _ spares => Or.inl spares
  have creates (path : Path) : (createStore pathlib path : Client isabs _).Within (fun action => action.Spares ∨ action.Creates) fun _ => True :=
    (asking (asks_ask (.mkdir _) trivial)).bind fun _ _ => Within.bind ⟨Or.inr trivial, fun _ => trivial⟩ fun _ _ => asking (asks_inside _)
  unfold initializeWorkgraphClient withStore
  refine (asking asks_requireWindows).bind fun _ _ => (asking (asks_authorityStorePath pathlib)).bind fun path _ =>
    (asking (asks_assertAuthorityStoreOutsideCheckouts pathlib path)).bind fun _ _ => (creates path).bind fun _ _ =>
      Within.ensure ?_ ⟨Or.inl trivial, fun _ => trivial⟩
  have acquires : (request (.acquireGeneration (textValue authorityScope)) : Client isabs _).Within
      (fun action => action.Spares ∨ action.Creates) fun _ => True :=
    Within.bind ⟨Or.inr rfl, fun _ => trivial⟩ fun _ _ => asking (asks_inside _)
  refine acquires.bind fun response _ => ?_
  split <;> trivial

end Finishing

namespace World

variable [DecidableEq π] (pathlib : Pathlib) (db : CharacterDatabase)

omit [DecidableEq π] in
/-- Who has entered the launcher was to execute its command. -/
theorem fits_launching {execution : LocalExecution isabs sha256} {thread : Thread isabs}
    (fits : Fits (.launching execution) thread) : ∃ next, thread = .perform (.execute execution.executionKey
      execution.authorityScope execution.controllerGeneration execution.commandSpec) next := by
  cases fits with
  | @executing _ other executes next =>
    rcases executes with same | same | same | same | ⟨_, same⟩ <;> cases same
    exact ⟨next, rfl⟩

/-- Who enters the launcher was about to. -/
theorem Sound.step_enters {world : World isabs sha256 π} {shown : List (Observation isabs sha256 π)} (sound : world.Sound shown)
    {event : π × Event isabs} {who : π} {execution : LocalExecution isabs sha256}
    (enters : .store (.entered who execution) ∈ (world.step pathlib db event).2) :
    (world.authority.processes event.1).stage = .launching execution := by
  have stored : .entered who execution ∈ (world.step pathlib db event).2.filterMap Observation.stored :=
    List.mem_filterMap.mpr ⟨_, enters, rfl⟩
  rcases step_projects pathlib db sound event with ⟨_, silent⟩ | ⟨sent, _, _, seen⟩
  · rw [silent] at stored
    cases stored
  · rw [seen] at stored
    exact (sound.authority.follows (event.1, sent)).transition.of_entry stored

/-- A client that changes the store has reasons among what it was told in the run. -/
theorem reachable_justified (store : Option Database) (events : List (π × Event isabs)) {process : π} {action : Action isabs}
    {next : action.Answer → Thread isabs}
    (own : (final (step pathlib db) (start store : World isabs sha256 π) events).threads process = some (.perform action next))
    (changes : ¬ action.Spares) : ∃ history,
      Heard process events (seen (step pathlib db) (start store : World isabs sha256 π) events) history ∧
        ((∃ asked, Justified db sha256 asked history action) ∨ action.Creates) := by
  have tracing : (final (step pathlib db) (start store : World isabs sha256 π) events).Tracing pathlib db events _ :=
    reachable_tracing store events
  obtain ⟨history, heard, told⟩ := tracing.traced process _ own
  refine ⟨history, heard, ?_⟩
  rcases told with ⟨asked, told⟩ | told
  · obtain ⟨rest, ran⟩ := told_map told
    exact .inl ⟨asked, runWorkgraphClient_justified ran changes⟩
  · obtain ⟨rest, ran⟩ := told_map told
    exact .inr ((initialize_creates.told ran).1.resolve_left changes)

/-- Whenever a client changes what is durable, it has checked all there is to check, in the answers it was given and the
replies of the store; but who creates a store checks nothing. So it is with a command that it launches. -/
theorem changes_justified (store : Option Database) (events : List (π × Event isabs)) (process : π) (turn : Turn isabs) :
    ((step pathlib db (final (step pathlib db) (start store : World isabs sha256 π) events) (process, .go turn)).1.authority.ledger ≠
        (final (step pathlib db) (start store : World isabs sha256 π) events).authority.ledger →
      ∃ action next history, (final (step pathlib db) (start store : World isabs sha256 π) events).threads process =
          some (.perform action next) ∧
        Heard process events (seen (step pathlib db) (start store : World isabs sha256 π) events) history ∧
          ((∃ asked, Justified db sha256 asked history action) ∨ action.Creates)) ∧
    ∀ (who : π) (execution : LocalExecution isabs sha256), .store (.entered who execution) ∈
        (step pathlib db (final (step pathlib db) (start store : World isabs sha256 π) events) (process, .go turn)).2 →
      ∃ asked history, Heard process events (seen (step pathlib db) (start store : World isabs sha256 π) events) history ∧
        Justified db sha256 asked history (.execute execution.executionKey execution.authorityScope
          execution.controllerGeneration execution.commandSpec) := by
  have sound : (final (step pathlib db) (start store : World isabs sha256 π) events).Sound _ := reachable_sound pathlib db store events
  refine ⟨fun changed => ?_, fun who execution shown => ?_⟩
  · cases own : (final (step pathlib db) (start store : World isabs sha256 π) events).threads process with
    | none =>
      simp only [step, own] at changed
      exact absurd rfl changed
    | some thread =>
      simp only [step, own] at changed
      obtain ⟨action, next, rfl, changes⟩ := sound.goOn_changes own turn changed
      obtain ⟨history, heard, reasons⟩ := reachable_justified pathlib db store events own changes
      exact ⟨action, next, history, rfl, heard, reasons⟩
  · have stage := sound.step_enters pathlib db shown
    cases own : (final (step pathlib db) (start store : World isabs sha256 π) events).threads process with
    | none =>
      simp only [step, own] at shown
      cases shown
    | some thread =>
      have fits := sound.fits process thread own
      rw [stage] at fits
      obtain ⟨next, rfl⟩ := fits_launching fits
      obtain ⟨history, heard, ⟨asked, reasons⟩ | creates⟩ := reachable_justified pathlib db store events own id
      · exact ⟨asked, history, heard, reasons⟩
      · exact creates.elim

end World

end Umbilical.WorkGraph
