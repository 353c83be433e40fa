import Umbilical.Authority.Truthful
import Umbilical.WorkGraph.Publishing
import Umbilical.WorkGraph.System

set_option autoImplicit false

/-!
# What clients publish

In every run of clients and others on one store, whatever is posted or reported is
the exit code of a launch that is terminal from then on.
-/

namespace Umbilical.WorkGraph

open Python Authority Execution Program Interleaving

variable {isabs : Str → Bool} {sha256 : List UInt8 → Text} {π : Type}

/-- The end of a thread. -/
def ThreadEnds (result : Except ClientError Finished) (ledger : Ledger) : Prop :=
  ∀ reported, result = .ok (.ran reported) → reported.Holds ledger

/-- The stage of a process is a part of the action that its client performs. -/
inductive Fits : Stage isabs sha256 → Thread isabs → Prop
  | idle (thread : Thread isabs) : Fits .idle thread
  | opening (path : String) (views : List Database) (asked : Path) (next : Except PyError Unit → Thread isabs) :
      Fits (.opening path views) (.perform (.openExisting asked) next)
  | initializing (path : String) (asked : Path) (next : Except PyError Unit → Thread isabs) :
      Fits (.initializing path) (.perform (.initializeNew asked) next)
  | executing {stage : Stage isabs sha256} {execution : LocalExecution isabs sha256}
      (executes : stage = .claiming execution ∨ stage = .marking execution ∨ stage = .launching execution ∨
        stage = .launched execution ∨ ∃ exitCode, stage = .recording execution exitCode)
      (next : Except ClientError LocalExecutionResult → Thread isabs) :
      Fits stage (.perform (.execute execution.executionKey execution.authorityScope execution.controllerGeneration
        execution.commandSpec) next)

/-- What has been shown is true of the store. -/
def Observation.Holds : Observation isabs sha256 π → Ledger → Prop
  | .posted _ url payload, ledger => Verdict url payload ledger
  | .returned _ (.ran result), ledger => result.Holds ledger
  | _, _ => True

namespace World

variable [DecidableEq π]

structure Sound (world : World isabs sha256 π) (past : List (Observation isabs sha256 π)) : Prop where
  authority : world.authority.Sound world.authority.ledger
  fits : ∀ process thread, world.threads process = some thread → Fits (world.authority.processes process).stage thread
  safe : ∀ process thread, world.threads process = some thread → thread.Safe contract ThreadEnds world.authority.ledger
  holds : ∀ observed ∈ past, observed.Holds world.authority.ledger

variable {world : World isabs sha256 π} {past : List (Observation isabs sha256 π)} {process : π}

omit [DecidableEq π] in
theorem Sound.remembers (sound : world.Sound past) {after : Ledger} (remembers : Remembers world.authority.ledger after)
    {observed : Observation isabs sha256 π} (member : observed ∈ past) : observed.Holds after := by
  have holds := sound.holds observed member
  cases observed with
  | posted _ url payload =>
    obtain ⟨target, tree, key, hash, exitCode, authentic, derived, ended, same⟩ := holds
    exact ⟨target, tree, key, hash, exitCode, authentic, derived, ended.remembered remembers, same⟩
  | returned _ finished =>
    cases finished with
    | ran result =>
      intro exitCode shown
      obtain ⟨state, attempted, hash, hashed, ended⟩ := holds exitCode shown
      exact ⟨state, attempted, hash, hashed, ended.remembered remembers⟩
    | initialized => trivial
  | _ => trivial

/-- A step on the store, after which the client of the process fits where the process is. -/
theorem Sound.advance (sound : world.Sound past) (event : Authority.Event isabs)
    {next : Option (Except PyError (Option Response)) → Option (Thread isabs)}
    (goes : ∀ thread, next (conclusion (world.authority.step (process, event)).2) = some thread →
      Fits ((world.authority.step (process, event)).1.processes process).stage thread ∧
        thread.Safe contract ThreadEnds (world.authority.step (process, event)).1.ledger) :
    (world.advance process event next).1.Sound (past ++ (world.advance process event next).2) := by
  have follows := sound.authority.follows (process, event)
  have remembers := Remembers.of_appends follows.transition.wins.1
  refine ⟨follows.sound, fun other thread own => ?_, fun other thread own => ?_, fun observed member => ?_⟩
  · by_cases same : other = process
    · subst same
      exact (goes thread (by simpa [World.advance] using own)).1
    · have stage := follows.others other same
      have before : world.threads other = some thread := by simpa [World.advance, same] using own
      simp only [World.advance]
      rw [stage]
      exact sound.fits other thread before
  · by_cases same : other = process
    · subst same
      exact (goes thread (by simpa [World.advance] using own)).2
    · have before : world.threads other = some thread := by simpa [World.advance, same] using own
      exact (sound.safe other thread before).rely remembers
  · rcases List.mem_append.mp member with before | now
    · exact sound.remembers remembers before
    · obtain ⟨told, _, rfl⟩ := List.mem_map.mp now
      trivial

/-- A step beside the store. -/
theorem Sound.become (sound : world.Sound past) {next : Option (Thread isabs)} {shown : List (Observation isabs sha256 π)}
    (goes : ∀ thread, next = some thread → Fits (world.authority.processes process).stage thread ∧
      thread.Safe contract ThreadEnds world.authority.ledger)
    (holds : ∀ observed ∈ shown, observed.Holds world.authority.ledger) :
    (world.become process next).Sound (past ++ shown) := by
  refine ⟨sound.authority, fun other thread own => ?_, fun other thread own => ?_, fun observed member => ?_⟩
  · by_cases same : other = process
    · subst same
      exact (goes thread (by simpa [World.become] using own)).1
    · exact sound.fits other thread (by simpa [World.become, same] using own)
  · by_cases same : other = process
    · subst same
      exact (goes thread (by simpa [World.become] using own)).2
    · exact sound.safe other thread (by simpa [World.become, same] using own)
  · rcases List.mem_append.mp member with before | now
    · exact sound.holds observed before
    · exact holds observed now

end World

section Calls

variable [DecidableEq π] {world : Authority.World isabs sha256 π} {process : π}

/-- How a call on the store leaves its process, by what it tells. -/
def Leaves (process : π) (next : Stage isabs sha256) (reply : Option Response → Bool)
    (result : Authority.World isabs sha256 π × List (Authority.Observation isabs sha256 π)) : Prop :=
  (∃ value, (result.1.processes process).stage = next ∧ conclusion result.2 = some (.ok value) ∧ reply value = true) ∨
    (∃ error, (result.1.processes process).stage = .idle ∧ conclusion result.2 = some (.error error)) ∨
      conclusion result.2 = none

theorem conclude_leaves {α : Type} {task : Task} {next : Stage isabs sha256} {reply : Option Response → Bool}
    {seen : α → List (Authority.Observation isabs sha256 π)} (result : EStateM.Result PyError Call α)
    (tells : ∀ value, ∃ told, conclusion (seen value) = some (.ok told) ∧ reply told) :
    Leaves process next reply (world.conclude process task (fun _ => next) seen result) := by
  cases result with
  | ok value after =>
    obtain ⟨told, shown, replies⟩ := tells value
    exact .inl ⟨told, by simp [Authority.World.conclude, Authority.World.become], shown, replies⟩
  | error error after =>
    simp only [Authority.World.conclude]
    split
    · exact .inr (.inr rfl)
    · exact .inr (.inl ⟨error, by simp [Authority.World.become], rfl⟩)

omit [DecidableEq π] in
theorem leaves_ends {result : Authority.World isabs sha256 π × List (Authority.Observation isabs sha256 π)}
    {reply : Option Response → Bool} (leaves : Leaves process .idle reply result) {told : Except PyError (Option Response)}
    (ends : conclusion result.2 = some told) : (result.1.processes process).stage = .idle := by
  rcases leaves with ⟨_, there, _⟩ | ⟨_, there, _⟩ | nothing
  · exact there
  · exact there
  · cases nothing.symm.trans ends

theorem serve_leaves (asked : Request) (next : Stage isabs sha256) (outcomes : List Outcome) (durable : Database) :
    Leaves process next Option.isSome (world.serve process asked next outcomes durable) :=
  conclude_leaves _ fun response => ⟨some response, rfl, rfl⟩

theorem call_leaves (idle : (world.processes process).stage = .idle) (asked : Request) (outcomes : List Outcome) :
    Leaves process .idle Option.isSome (world.step (process, .call asked outcomes)) := by
  simp only [Authority.World.step, idle, Authority.World.begin]
  split
  · exact .inr (.inr rfl)
  · exact serve_leaves asked .idle outcomes _

theorem proceed_leaves {stage next : Stage isabs sha256} (own : (world.processes process).stage = stage) {asked : Request}
    {outcomes : List Outcome} (asks : stage.Asks (.proceed outcomes) asked next) :
    Leaves process next Option.isSome (world.step (process, .proceed outcomes)) := by
  simp only [Authority.World.step]
  split
  · exact .inr (.inr rfl)
  · simp only [Authority.World.proceed, own]
    cases asks with
    | claim | mark | record => exact serve_leaves _ _ outcomes _

theorem opening_leaves {path : String} {views : List Database} (own : (world.processes process).stage = .opening path views)
    (outcomes : List Outcome) : Leaves process .idle Option.isNone (world.step (process, .proceed outcomes)) := by
  simp only [Authority.World.step]
  split
  · exact .inr (.inr rfl)
  · simp only [Authority.World.proceed, own]
    exact conclude_leaves _ fun _ => ⟨none, rfl, rfl⟩

theorem initializing_leaves {path : String} (own : (world.processes process).stage = .initializing path)
    (outcomes : List Outcome) : Leaves process .idle Option.isNone (world.step (process, .proceed outcomes)) := by
  simp only [Authority.World.step]
  split
  · exact .inr (.inr rfl)
  · simp only [Authority.World.proceed, own]
    exact conclude_leaves _ fun _ => ⟨none, rfl, rfl⟩

/-- Opening the store begins, or is refused. -/
theorem openExisting_begins (idle : (world.processes process).stage = .idle) (path : String) :
    ((world.step (process, .openExisting path)).1.processes process).stage = .opening path [] ∧
        conclusion (world.step (process, .openExisting path)).2 = none ∨
      ((world.step (process, .openExisting path)).1.processes process).stage = .idle ∧
        ∃ error, conclusion (world.step (process, .openExisting path)).2 = some (.error error) := by
  simp only [Authority.World.step, idle, Authority.World.begin]
  split
  · exact .inr ⟨idle, _, rfl⟩
  · exact .inl ⟨by simp [Authority.World.become], rfl⟩

theorem reserve_begins (idle : (world.processes process).stage = .idle) (path : String) (windows reserved : Bool) :
    ((world.step (process, .reserve path windows reserved)).1.processes process).stage = .initializing path ∧
        conclusion (world.step (process, .reserve path windows reserved)).2 = none ∨
      ((world.step (process, .reserve path windows reserved)).1.processes process).stage = .idle ∧
        ∃ error, conclusion (world.step (process, .reserve path windows reserved)).2 = some (.error error) := by
  simp only [Authority.World.step, idle, Authority.World.begin]
  split
  · exact .inr ⟨idle, _, rfl⟩
  · exact .inl ⟨by simp [Authority.World.become], rfl⟩

theorem execute_begins (idle : (world.processes process).stage = .idle) (executionKey authorityScope controllerGeneration : PyValue)
    {commandSpec : LocalCommandSpec isabs} {hash : Str} (hashed : commandSpecHash sha256 commandSpec.fields = .ok hash) :
    ((world.step (process, .execute executionKey authorityScope controllerGeneration commandSpec)).1.processes process).stage =
      .claiming ⟨executionKey, authorityScope, controllerGeneration, commandSpec, hash, hashed⟩ := by
  simp only [Authority.World.step, idle, Authority.World.begin]
  split
  · next failed => cases failed.symm.trans hashed
  · next other returned =>
    obtain rfl : other = hash := Except.ok.inj (returned.symm.trans hashed)
    simp [Authority.World.turnTo, Authority.World.become]

theorem launching_stage {execution : LocalExecution isabs sha256} (own : (world.processes process).stage = .launching execution)
    (outcomes : List Outcome) : ((world.step (process, .proceed outcomes)).1.processes process).stage = .launched execution ∨
      ((world.step (process, .proceed outcomes)).1.processes process).stage = .launching execution := by
  simp only [Authority.World.step]
  split
  · exact .inr own
  · simp only [Authority.World.proceed, own]
    exact .inl (by simp [Authority.World.turnTo, Authority.World.become])

end Calls

namespace World

variable [DecidableEq π] {world : World isabs sha256 π} {past : List (Observation isabs sha256 π)} {process : π}

omit [DecidableEq π] in
theorem conclusion_returned {seen : List (Authority.Observation isabs sha256 π)} {response : Response}
    (told : conclusion seen = some (.ok (some response))) : ∃ who asked, seen = [.returned who asked response] := by
  unfold conclusion at told
  split at told
  · cases told
    exact ⟨_, _, rfl⟩
  all_goals cases told

/-- An answer that the client is told is one that the store has given to what its process asked. -/
theorem Sound.told (sound : world.Sound past) {event : Authority.Event isabs} {response : Response}
    (told : conclusion (world.authority.step (process, event)).2 = some (.ok (some response))) :
    ∃ asked next, (world.authority.processes process).stage.Asks event asked next ∧
      Served world.authority.ledger asked response (world.authority.step (process, event)).1.ledger := by
  obtain ⟨who, asked, seen⟩ := conclusion_returned told
  have transition := (sound.authority.follows (process, event)).transition
  rw [seen] at transition
  generalize (world.authority.step (process, event)).1.ledger = after at transition
  generalize ((world.authority.step (process, event)).1.processes process).stage = reached at transition
  cases transition with
  | answered asks served => exact ⟨asked, _, asks, served⟩
  | failed _ _ silent => exact (silent _ (List.mem_singleton_self _)).elim
  | aside _ silent => exact (silent _ (List.mem_singleton_self _)).elim

/-- What the store tells about a recorded result. -/
theorem ended_of_served {before after : Ledger} {execution : LocalExecution isabs sha256} {exitCode : Int} {response : Response}
    (served : Served before (execution.record exitCode) response after) (text : Str) (named : execution.executionKey = .str text) :
    Ended text execution.frozenHash exitCode after := by
  rcases served with ⟨⟨_, _, other⟩, _⟩ | served
  · cases other
  · obtain ⟨key, names, served⟩ := Option.bind_eq_some_iff.mp served
    obtain ⟨hash, namesHash, served⟩ := Option.bind_eq_some_iff.mp served
    obtain ⟨code, reports, served⟩ := Option.bind_eq_some_iff.mp served
    obtain ⟨launch, unknown, same⟩ := Option.map_eq_some_iff.mp served
    obtain ⟨found, hashed, state⟩ := Ledger.launchIn_eq_some.mp unknown
    cases same
    have exactly : code.val = exitCode := exitCode?_int reports
    obtain ⟨_, _, _, given⟩ := validateCommandSpecHash_ok (named?_eq_some.mp namesHash)
    refine ⟨key.val, launch.settled .terminal (some code.val), ?_, ?_, rfl, by rw [exactly]; rfl, ?_⟩
    · exact PyValue.str.inj (named.symm.trans (validateExecutionKey_ok.mp (named?_eq_some.mp names)).1)
    · rw [Ledger.recordTerminal, Ledger.launch_settle, if_pos rfl, found]
      rfl
    · rw [PyValue.str.inj given, ← hashed]
      rfl

/-- An action that opens a store, one step further. -/
theorem Sound.opens (sound : world.Sound past) (event : Authority.Event isabs) {waits : Option (Thread isabs)}
    {next : Except PyError Unit → Thread isabs}
    (waiting : ∀ thread, waits = some thread → conclusion (world.authority.step (process, event)).2 = none →
      Fits ((world.authority.step (process, event)).1.processes process).stage thread ∧
        thread.Safe contract ThreadEnds (world.authority.step (process, event)).1.ledger)
    (ends : ∀ reply, conclusion (world.authority.step (process, event)).2 = some reply →
      ((world.authority.step (process, event)).1.processes process).stage = .idle)
    (goesOn : ∀ reply, (next reply).Safe contract ThreadEnds (world.authority.step (process, event)).1.ledger) :
    (world.advance process event (whenOpened waits next)).1.Sound (past ++ (world.advance process event (whenOpened waits next)).2) := by
  refine sound.advance event fun thread same => ?_
  unfold whenOpened at same
  split at same
  · next told =>
    cases same
    exact ⟨ends _ told ▸ .idle _, goesOn _⟩
  · next told =>
    cases same
    exact ⟨ends _ told ▸ .idle _, goesOn _⟩
  · next told => exact waiting thread same told

/-- One step of `execute_local_command`. -/
theorem Sound.goOnExecuting (sound : world.Sound past) {executionKey authorityScope controllerGeneration : PyValue}
    {commandSpec : LocalCommandSpec isabs} {next : Except ClientError LocalExecutionResult → Thread isabs}
    {current : Stage isabs sha256}
    (fits : Fits current (.perform (.execute executionKey authorityScope controllerGeneration commandSpec) next))
    (stage : (world.authority.processes process).stage = current)
    (safe : (Program.perform (.execute executionKey authorityScope controllerGeneration commandSpec) next).Safe contract
      ThreadEnds world.authority.ledger) (turn : Turn isabs) :
    (world.goOnExecuting process turn (.perform (.execute executionKey authorityScope controllerGeneration commandSpec) next)
      next executionKey authorityScope controllerGeneration commandSpec).1.Sound (past ++
        (world.goOnExecuting process turn (.perform (.execute executionKey authorityScope controllerGeneration commandSpec) next)
          next executionKey authorityScope controllerGeneration commandSpec).2) := by
  have went {event : Authority.Event isabs} : Remembers world.authority.ledger (world.authority.step (process, event)).1.ledger :=
    .of_appends (sound.authority.follows (process, event)).transition.wins.1
  have fails (event : Authority.Event isabs) (error : ClientError) :
      (next (.error error)).Safe contract ThreadEnds (world.authority.step (process, event)).1.ledger :=
    (safe _ (Remembers.refl _)).2 (.error error) _ ⟨went, fun _ returned => by cases returned⟩
  have still (event : Authority.Event isabs) := safe.rely (went : Remembers _ (world.authority.step (process, event)).1.ledger)
  cases fits with
  | idle =>
    simp only [World.goOnExecuting, stage]
    split
    · next error failed =>
      refine sound.become (fun thread same => ?_) (List.forall_mem_nil _)
      cases same
      exact ⟨stage ▸ .idle _, (safe _ (Remembers.refl _)).2 _ _ ⟨Remembers.refl _, fun _ returned => by cases returned⟩⟩
    · next hash hashed =>
      refine sound.advance _ fun thread same => ?_
      cases same
      have claiming := execute_begins stage executionKey authorityScope controllerGeneration hashed
      exact ⟨claiming ▸ .executing (.inl rfl) next, still _⟩
  | @executing _ execution executes =>
    -- a transaction goes on to its next stage, or ends the execution
    have transacts {later : Stage isabs sha256} (leaves : Leaves process later Option.isSome
        (world.authority.step (process, .proceed turn.outcomes))) (fits : Fits later (.perform (.execute execution.executionKey
          execution.authorityScope execution.controllerGeneration execution.commandSpec) next)) :
        ∀ thread, whenLaunching (.perform (.execute execution.executionKey execution.authorityScope
            execution.controllerGeneration execution.commandSpec) next) next
              (conclusion (world.authority.step (process, .proceed turn.outcomes)).2) = some thread →
          Fits ((world.authority.step (process, .proceed turn.outcomes)).1.processes process).stage thread ∧
            thread.Safe contract ThreadEnds (world.authority.step (process, .proceed turn.outcomes)).1.ledger := by
      intro thread same
      rcases leaves with ⟨value, there, told, _⟩ | ⟨error, there, told⟩ | told
      · rw [told] at same
        cases same
        exact ⟨there ▸ fits, still _⟩
      · rw [told] at same
        cases same
        exact ⟨there ▸ .idle _, fails _ _⟩
      · rw [told] at same
        cases same
    rcases executes with rfl | rfl | rfl | rfl | ⟨exitCode, rfl⟩
    · simp only [World.goOnExecuting, stage]
      exact sound.advance _ (transacts (proceed_leaves stage (.claim execution turn.outcomes))
        (.executing (.inr (.inl rfl)) next))
    · simp only [World.goOnExecuting, stage]
      exact sound.advance _ (transacts (proceed_leaves stage (.mark execution turn.outcomes))
        (.executing (.inr (.inr (.inl rfl))) next))
    · simp only [World.goOnExecuting, stage]
      refine sound.advance _ fun thread same => ?_
      cases same
      refine ⟨?_, still _⟩
      rcases launching_stage stage turn.outcomes with there | there
      · exact there ▸ .executing (.inr (.inr (.inr (.inl rfl)))) next
      · exact there ▸ .executing (.inr (.inr (.inl rfl))) next
    · simp only [World.goOnExecuting, stage]
      have exited (exitCode : Option Int) : ((world.authority.step (process, .exit exitCode)).1.processes process).stage =
          exitCode.elim .idle (.recording execution) := by
        cases exitCode <;> simp [Authority.World.step, stage, Authority.World.turnTo, Authority.World.become]
      split
      · refine sound.advance _ fun thread same => ?_
        cases same
        exact ⟨exited _ ▸ .executing (.inr (.inr (.inr (.inr ⟨_, rfl⟩)))) next, still _⟩
      · refine sound.advance _ fun thread same => ?_
        cases same
        exact ⟨exited _ ▸ .idle _, fails _ _⟩
      · refine sound.advance _ fun thread same => ?_
        cases same
        exact ⟨exited _ ▸ .idle _, fails _ _⟩
    · simp only [World.goOnExecuting, stage]
      refine sound.advance _ fun thread same => ?_
      rcases proceed_leaves stage (.record execution exitCode turn.outcomes) with ⟨value, there, told, replies⟩ |
        ⟨error, there, told⟩ | told
      · rw [told] at same
        cases value with
        | none => cases replies
        | some response =>
          cases same
          refine ⟨there ▸ .idle _, (safe _ (Remembers.refl _)).2 _ _ ⟨went, fun result returned text named => ?_⟩⟩
          cases returned
          obtain ⟨asked, reached, asks, served⟩ := sound.told told
          rw [stage] at asks
          cases asks
          exact ended_of_served served text named
      · rw [told] at same
        cases same
        exact ⟨there ▸ .idle _, fails _ _⟩
      · rw [told] at same
        cases same

theorem Sound.goOn (sound : world.Sound past) {thread : Thread isabs} (own : world.threads process = some thread)
    (turn : Turn isabs) : (world.goOn process turn thread).1.Sound (past ++ (world.goOn process turn thread).2) := by
  have fits := sound.fits process thread own
  have safe := sound.safe process thread own
  cases thread with
  | done finished =>
    refine sound.become (fun thread same => by cases same) fun observed member => ?_
    rw [List.mem_singleton.mp member]
    cases finished with
    | ran result => exact safe _ (Remembers.refl _) result rfl
    | initialized => trivial
  | raise error =>
    refine sound.become (fun thread same => by cases same) fun observed member => ?_
    rw [List.mem_singleton.mp member]
    trivial
  | perform action next =>
    obtain ⟨allowed, goesOn⟩ := safe _ (Remembers.refl _)
    have went {event : Authority.Event isabs} : Remembers world.authority.ledger (world.authority.step (process, event)).1.ledger :=
      .of_appends (sound.authority.follows (process, event)).transition.wins.1
    generalize stage : (world.authority.processes process).stage = current at fits
    cases action with
    | ask question =>
      cases fits
      refine sound.become (fun thread same => ?_) fun observed member => ?_
      · cases same
        exact ⟨stage ▸ .idle _, goesOn _ _ ⟨Remembers.refl _, trivial⟩⟩
      · cases question with
        | post url token payload =>
          rw [List.mem_singleton.mp member]
          exact allowed
        | _ => cases member
    | close =>
      cases fits
      refine sound.advance .close fun thread same => ?_
      cases same
      refine ⟨?_, goesOn () _ ⟨went, trivial⟩⟩
      simp only [Authority.World.step, stage, Authority.World.begin, Authority.World.become, Function.update_self]
      exact .idle _
    | request asked =>
      cases fits
      refine sound.advance (.call asked turn.outcomes) fun thread same => ?_
      rcases call_leaves stage asked turn.outcomes with ⟨value, there, told, replies⟩ | ⟨error, there, told⟩ | told
      · rw [told] at same
        cases value with
        | none => cases replies
        | some response =>
          cases same
          refine ⟨there ▸ .idle _, goesOn _ _ ⟨went, fun other returned => ?_⟩⟩
          cases returned
          obtain ⟨other, next, asks, served⟩ := sound.told told
          rw [stage] at asks
          cases asks
          exact served
      · rw [told] at same
        cases same
        exact ⟨there ▸ .idle _, goesOn _ _ ⟨went, fun response returned => by cases returned⟩⟩
      · rw [told] at same
        cases same
    | openExisting path =>
      have safely (event : Authority.Event isabs) (reply : Except PyError Unit) :
          (next reply).Safe contract ThreadEnds (world.authority.step (process, event)).1.ledger :=
        goesOn reply _ ⟨went, trivial⟩
      have still (event : Authority.Event isabs) : (Program.perform (.openExisting path) next).Safe contract ThreadEnds
          (world.authority.step (process, event)).1.ledger := safe.rely went
      cases fits with
      | idle =>
        simp only [World.goOn, stage]
        refine sound.opens _ (fun thread same none_ => ?_) (fun reply told => ?_) (safely _)
        · cases same
          rcases openExisting_begins stage (String.ofList path) with ⟨there, _⟩ | ⟨there, _, told⟩
          · exact ⟨there ▸ .opening _ _ _ _, still _⟩
          · exact ⟨there ▸ .idle _, still _⟩
        · rcases openExisting_begins stage (String.ofList path) with ⟨_, none_⟩ | ⟨there, _⟩
          · cases none_.symm.trans told
          · exact there
      | opening where_ views =>
        simp only [World.goOn, stage]
        exact sound.opens _ (fun thread same => by cases same) (fun _ told => leaves_ends (opening_leaves stage turn.outcomes) told)
          (safely _)
    | initializeNew path =>
      have safely (event : Authority.Event isabs) (reply : Except PyError Unit) :
          (next reply).Safe contract ThreadEnds (world.authority.step (process, event)).1.ledger :=
        goesOn reply _ ⟨went, trivial⟩
      have still (event : Authority.Event isabs) : (Program.perform (.initializeNew path) next).Safe contract ThreadEnds
          (world.authority.step (process, event)).1.ledger := safe.rely went
      cases fits with
      | idle =>
        simp only [World.goOn, stage]
        refine sound.opens _ (fun thread same none_ => ?_) (fun reply told => ?_) (safely _)
        · cases same
          rcases reserve_begins stage (String.ofList path) turn.windows turn.reserved with ⟨there, _⟩ | ⟨there, _, told⟩
          · exact ⟨there ▸ .initializing _ _ _, still _⟩
          · exact ⟨there ▸ .idle _, still _⟩
        · rcases reserve_begins stage (String.ofList path) turn.windows turn.reserved with ⟨_, none_⟩ | ⟨there, _⟩
          · cases none_.symm.trans told
          · exact there
      | initializing where_ =>
        simp only [World.goOn, stage]
        exact sound.opens _ (fun thread same => by cases same)
          (fun _ told => leaves_ends (initializing_leaves stage turn.outcomes) told) (safely _)
    | execute executionKey authorityScope controllerGeneration commandSpec =>
      exact sound.goOnExecuting fits stage safe turn

theorem look_fits {thread : Thread isabs} (fits : Fits (world.authority.processes process).stage thread) :
    Fits ((world.authority.step (process, .look)).1.processes process).stage thread := by
  simp only [Authority.World.step]
  split
  · next durable path views there stage =>
    rw [stage] at fits
    cases fits with
    | opening =>
      simp only [Authority.World.turnTo, Authority.World.become, Function.update_self]
      exact .opening _ _ _ _
    | executing executes => rcases executes with other | other | other | other | ⟨_, other⟩ <;> cases other
  · exact fits

variable (pathlib : Pathlib) (db : CharacterDatabase)

theorem safe_ran (asked : WorkGraphRequest) (ledger : Ledger) :
    (Finished.ran <$> runWorkgraphClient pathlib db sha256 asked : Thread isabs).Safe contract ThreadEnds ledger := by
  refine (safe_runWorkgraphClient pathlib db sha256 asked).bind (fun result later stably => ?_) fun error later _ => ?_
  · intro after remembers reported same
    cases same
    exact stably after remembers result rfl
  · intro reported same
    cases same

theorem safe_initialized (ledger : Ledger) :
    (Finished.initialized <$> initializeWorkgraphClient pathlib : Thread isabs).Safe contract ThreadEnds ledger := by
  have mute : (Finished.initialized <$> initializeWorkgraphClient pathlib : Thread isabs).Within Action.Mute
      fun finished => ∃ generation, finished = .initialized generation :=
    (mute_initializeWorkgraphClient pathlib).bind fun generation _ => ⟨generation, rfl⟩
  have safe : (Finished.initialized <$> initializeWorkgraphClient pathlib : Thread isabs).Safe contract _ ledger :=
    mute.safe mute_harmless (show Lasting (fun _ => True) ledger from fun _ _ => trivial)
  refine safe.mono fun result later ended reported same => ?_
  obtain ⟨_, other⟩ := ended.2 _ same
  cases other

theorem Sound.begin (sound : world.Sound past) {thread : Thread isabs}
    (safe : thread.Safe contract ThreadEnds world.authority.ledger) :
    (world.begin process thread).1.Sound (past ++ (world.begin process thread).2) := by
  unfold World.begin
  split
  · next idle =>
    refine sound.become (fun other same => ?_) (List.forall_mem_nil _)
    cases same
    exact ⟨idle ▸ .idle _, safe⟩
  · simpa using sound

theorem Sound.step (sound : world.Sound past) (event : π × Event isabs) :
    (world.step pathlib db event).1.Sound (past ++ (world.step pathlib db event).2) := by
  obtain ⟨process, event⟩ := event
  have still : world.Sound (past ++ []) := by simpa using sound
  cases event with
  | crash => exact sound.advance .crash fun thread same => by cases same
  | run asked =>
    cases own : world.threads process with
    | none =>
      simp only [World.step, own]
      exact sound.begin (safe_ran pathlib db asked _)
    | some thread =>
      simp only [World.step, own]
      exact still
  | create =>
    cases own : world.threads process with
    | none =>
      simp only [World.step, own]
      exact sound.begin (safe_initialized pathlib _)
    | some thread =>
      simp only [World.step, own]
      exact still
  | go turn =>
    cases own : world.threads process with
    | none =>
      simp only [World.step, own]
      exact still
    | some thread =>
      simp only [World.step, own]
      exact sound.goOn own turn
  | look =>
    cases own : world.threads process with
    | none =>
      simp only [World.step, own]
      exact still
    | some thread =>
      simp only [World.step, own]
      refine sound.advance .look fun thread same => ?_
      cases same
      have remembers := Remembers.of_appends (sound.authority.follows (process, .look)).transition.wins.1
      exact ⟨look_fits (sound.fits process thread own), (sound.safe process thread own).rely remembers⟩
  | other event =>
    cases own : world.threads process with
    | none =>
      simp only [World.step, own]
      exact sound.advance event fun thread same => by cases same
    | some thread =>
      simp only [World.step, own]
      exact still

omit [DecidableEq π] in
theorem start_sound (store : Option Database) : (start store : World isabs sha256 π).Sound [] where
  authority := Authority.World.start_sound_any store
  fits _ _ own := by cases own
  safe _ _ own := by cases own
  holds := List.forall_mem_nil _

theorem reachable_sound (store : Option Database) (events : List (π × Event isabs)) :
    (final (step pathlib db) (start store : World isabs sha256 π) events).Sound
      (seen (step pathlib db) (start store : World isabs sha256 π) events) :=
  @history_of_step _ _ _ (step pathlib db) (fun world past => world.Sound past)
    (fun _ _ event sound => sound.step pathlib db event) _ _ (start_sound store) events

/-- Whatever clients and others do: a status that is posted is that of a launch that is terminal, for the target it
is posted for, and a result that is reported has the exit code of its key. They stay true, so no two of them disagree. -/
theorem published_terminal (store : Option Database) (events : List (π × Event isabs)) :
    (∀ process url payload, .posted process url payload ∈ seen (step pathlib db) (start store : World isabs sha256 π) events →
      Verdict url payload (final (step pathlib db) (start store : World isabs sha256 π) events).authority.ledger) ∧
    (∀ process result, .returned process (.ran result) ∈ seen (step pathlib db) (start store : World isabs sha256 π) events →
      result.Holds (final (step pathlib db) (start store : World isabs sha256 π) events).authority.ledger) ∧
    ∀ process process' result result' exitCode exitCode',
      .returned process (.ran result) ∈ seen (step pathlib db) (start store : World isabs sha256 π) events →
      .returned process' (.ran result') ∈ seen (step pathlib db) (start store : World isabs sha256 π) events →
      result.executionKey = result'.executionKey → result.exitCode = some exitCode → result'.exitCode = some exitCode' →
        exitCode = exitCode' ∧ result.commandSpecHash = result'.commandSpecHash := by
  have sound : (final (step pathlib db) (start store : World isabs sha256 π) events).Sound _ :=
    reachable_sound pathlib db store events
  refine ⟨fun process url payload shown => sound.holds _ shown, fun process result shown => sound.holds _ shown,
    fun process process' result result' exitCode exitCode' shown shown' same has has' => ?_⟩
  obtain ⟨_, _, hash, hashed, ended⟩ := sound.holds _ shown exitCode has
  obtain ⟨_, _, hash', hashed', ended'⟩ := sound.holds _ shown' exitCode' has'
  rw [same] at ended
  obtain ⟨rfl, rfl⟩ := ended.unique ended'
  exact ⟨rfl, hashed.trans hashed'.symm⟩

end World

end Umbilical.WorkGraph
