import Umbilical.Authority.System
import Umbilical.Authority.History

set_option autoImplicit false

/-!
# What one step can do

Every invariant of the processes on a store follows from what a step does to the
ledger, to the stage of its process, and lets be seen.
-/

namespace Umbilical.Authority

open Python Execution

variable {isabs : Str → Bool} {sha256 : List UInt8 → Text} {π : Type} [DecidableEq π]

/-- The request that a process makes at a stage, and the stage that it comes to when it is answered. -/
inductive Stage.Asks : Stage isabs sha256 → Event isabs → Request → Stage isabs sha256 → Prop
  | call (request : Request) (outcomes : List Outcome) : Asks .idle (.call request outcomes) request .idle
  | claim (execution : LocalExecution isabs sha256) (outcomes : List Outcome) :
      Asks (.claiming execution) (.proceed outcomes) execution.claim (.marking execution)
  | mark (execution : LocalExecution isabs sha256) (outcomes : List Outcome) :
      Asks (.marking execution) (.proceed outcomes) execution.mark (.launching execution)
  | record (execution : LocalExecution isabs sha256) (exitCode : Int) (outcomes : List Outcome) :
      Asks (.recording execution exitCode) (.proceed outcomes) (execution.record exitCode) .idle

theorem Stage.Asks.next_cases {stage next : Stage isabs sha256} {event : Event isabs} {request : Request}
    (asks : stage.Asks event request next) :
    next = .idle ∨ (∃ execution, next = .marking execution) ∨ ∃ execution, next = .launching execution := by
  cases asks with
  | call | record => exact .inl rfl
  | claim execution => exact .inr (.inl ⟨execution, rfl⟩)
  | mark execution => exact .inr (.inr ⟨execution, rfl⟩)

/-- Stages that may be left and come to without a request. -/
inductive Stage.Turns : Stage isabs sha256 → Stage isabs sha256 → Prop
  | still (stage : Stage isabs sha256) : Turns stage stage
  | stops (stage : Stage isabs sha256) : Turns stage .idle
  | execute (execution : LocalExecution isabs sha256) : Turns .idle (.claiming execution)
  | exited (execution : LocalExecution isabs sha256) (exitCode : Int) :
      Turns (.launched execution) (.recording execution exitCode)
  | opening {stage : Stage isabs sha256} (path : String) (views : List Database) : Turns stage (.opening path views)
  | initializing (path : String) : Turns .idle (.initializing path)
  | migrating (migration : Migration) : Turns .idle (.migrating migration)

/-- Neither an answer nor an entry. -/
def Observation.Silent : Observation isabs sha256 π → Prop
  | .returned _ _ _ | .entered _ _ => False
  | _ => True

/-- An answer. One question is answered whatever is durable. -/
def Served (before : Ledger) (request : Request) (response : Response) (after : Ledger) : Prop :=
  (∃ scope generation, request = .isCurrentGeneration scope generation) ∧ response = .current false ∧ after = before ∨
    before.serve request = some (response, after)

theorem Served.effect {before after : Ledger} {request : Request} {response : Response}
    (served : Served before request response after) : Effect before request response after := by
  rcases served with ⟨_, rfl, rfl⟩ | served
  · exact .kept rfl
  · exact Ledger.effect_of_serve served

inductive Transition (stage : Stage isabs sha256) (before : Ledger) (process : π) (event : Event isabs) :
    Stage isabs sha256 → Ledger → List (Observation isabs sha256 π) → Prop
  | answered {request : Request} {response : Response} {next : Stage isabs sha256} {after : Ledger}
      (asks : stage.Asks event request next) (served : Served before request response after) :
      Transition stage before process event next after [.returned process request response]
  /-- The request may have taken effect. -/
  | failed {request : Request} {next : Stage isabs sha256} {after : Ledger} {seen : List (Observation isabs sha256 π)}
      (asks : stage.Asks event request next) (uncertain : after = before ∨ ∃ response, Served before request response after)
      (silent : ∀ observed ∈ seen, observed.Silent) : Transition stage before process event .idle after seen
  | entered {execution : LocalExecution isabs sha256} (launching : stage = .launching execution) :
      Transition stage before process event (.launched execution) before [.entered process execution]
  | aside {next : Stage isabs sha256} {seen : List (Observation isabs sha256 π)} (turns : stage.Turns next)
      (silent : ∀ observed ∈ seen, observed.Silent) : Transition stage before process event next before seen

/-- What an idle process may begin. -/
def Event.Begins : Event isabs → Prop
  | .look | .proceed _ | .exit _ | .crash => False
  | _ => True

namespace World

variable {world : World isabs sha256 π} {process : π} {event : Event isabs} {ledger : Ledger}

/-- What the processes rely on between their steps. -/
structure Sound (world : World isabs sha256 π) (ledger : Ledger) : Prop where
  durable : Durable world.store ledger
  reserved : ∀ process path, (world.processes process).stage = .initializing path → world.store = some .empty
  alone : ∀ process path other path', (world.processes process).stage = .initializing path →
    (world.processes other).stage = .initializing path' → process = other
  connected : ∀ process migration, (world.processes process).stage = .migrating migration →
    (world.processes process).handle = .ready

omit [DecidableEq π] in
theorem start_sound {store : Option Database} (durable : Durable store ledger) :
    (start store : World isabs sha256 π).Sound ledger where
  durable := durable
  reserved := nofun
  alone := nofun
  connected := nofun

/-- One process goes on, with what is durable now. -/
def on (world : World isabs sha256 π) (process : π) (next : Process isabs sha256) (store : Option Database) :
    World isabs sha256 π :=
  { world.become process next with store := store }

@[simp] theorem on_self (next : Process isabs sha256) (store : Option Database) :
    (world.on process next store).processes process = next := by
  simp [on, become]

theorem on_other {other : π} (different : other ≠ process) (next : Process isabs sha256) (store : Option Database) :
    (world.on process next store).processes other = world.processes other := by
  simp [on, become, different]

theorem Sound.on {after : Ledger} {store : Option Database} {next : Process isabs sha256} (sound : world.Sound ledger)
    (durable : Durable store after) (emptied : world.store = some .empty → store = some .empty ∨
      ∃ path, (world.processes process).stage = .initializing path)
    (fresh : ∀ path, next.stage ≠ .initializing path)
    (connected : ∀ migration, next.stage = .migrating migration → next.handle = .ready) :
    (world.on process next store).Sound after where
  durable := durable
  reserved := by
    intro other path initializing
    by_cases same : other = process
    · subst same
      rw [on_self] at initializing
      exact absurd initializing (fresh path)
    · rw [on_other same] at initializing
      rcases emptied (sound.reserved other path initializing) with empty | ⟨path', also⟩
      · exact empty
      · exact absurd (sound.alone other path process path' initializing also) same
  alone := by
    intro one path other path' initializing initializing'
    by_cases same : one = process
    · subst same
      rw [on_self] at initializing
      exact absurd initializing (fresh path)
    · by_cases same' : other = process
      · subst same'
        rw [on_self] at initializing'
        exact absurd initializing' (fresh path')
      · rw [on_other same] at initializing
        rw [on_other same'] at initializing'
        exact sound.alone one path other path' initializing initializing'
  connected := by
    intro other migration migrating
    by_cases same : other = process
    · subst same
      rw [on_self] at migrating ⊢
      exact connected migration migrating
    · rw [on_other same] at migrating ⊢
      exact sound.connected other migration migrating

/-- A step from one world to another in which others keep their stages. -/
structure Follows (world : World isabs sha256 π) (ledger : Ledger) (process : π) (event : Event isabs)
    (result : World isabs sha256 π × List (Observation isabs sha256 π)) (after : Ledger) : Prop where
  transition : Transition (world.processes process).stage ledger process event (result.1.processes process).stage after result.2
  others : ∀ other, other ≠ process → (result.1.processes other).stage = (world.processes other).stage
  sound : result.1.Sound after

omit [DecidableEq π] in
theorem Follows.still (sound : world.Sound ledger) {seen : List (Observation isabs sha256 π)}
    (silent : ∀ observed ∈ seen, observed.Silent) : world.Follows ledger process event (world, seen) ledger where
  transition := .aside (.still _) silent
  others _ _ := rfl
  sound := sound

variable (world process) in
/-- However a call fails, its process comes to be idle or new. -/
theorem exists_failed {α : Type} (task : Task) (next : α → Stage isabs sha256)
    (seen : α → List (Observation isabs sha256 π)) (error : PyError) (after : Call) :
    ∃ handle shown, world.conclude process task next seen (.error error after) =
      (world.on process ⟨handle, .idle⟩ (some after.durable), shown) ∧ ∀ observed ∈ shown, observed.Silent := by
  have ended : world.conclude process task next seen (.error error after) =
      if error = .processDied then (world.on process .new (some after.durable), [])
      else (world.on process ⟨after.handle, .idle⟩ (some after.durable),
        [.raised process task error after.commitStarted]) := rfl
  rw [ended]
  split_ifs
  · exact ⟨.closed, [], rfl, List.forall_mem_nil _⟩
  · refine ⟨after.handle, [.raised process task error after.commitStarted], rfl, fun observed member => ?_⟩
    rw [List.mem_singleton.mp member]
    trivial

theorem served_of_eval {database reached : Database} (durable : Durable (some database) ledger) {request : Request}
    {response : Response} (evaluated : request.body.eval database = .ok response reached) :
    ∃ after, Served ledger request response after ∧ Durable (some reached) after ∧
      (database = .empty → reached = .empty) := by
  rcases request.holds_of_eval evaluated with ⟨ledger', held⟩ | ⟨quick, rfl, rfl⟩
  · obtain rfl := durable.ledger_eq held
    obtain ⟨after, served, rfl⟩ := (request.eval_ok_iff held).mp evaluated
    refine ⟨after, .inr served, .held (by decide) le_rfl (held.store after), ?_⟩
    rintro rfl
    exact absurd held (Database.empty_not_holds (by decide))
  · exact ⟨ledger, .inl ⟨quick, rfl, rfl⟩, durable, id⟩

/-- The end of a request: an answer, or a failure that may have come too late. -/
theorem Sound.serve_follows (sound : world.Sound ledger) {durable : Database} (there : world.store = some durable)
    {request : Request} {next : Stage isabs sha256} (asks : (world.processes process).stage.Asks event request next)
    (outcomes : List Outcome) : ∃ after, world.Follows ledger process event (world.serve process request next outcomes durable) after := by
  have durableNow : Durable (some durable) ledger := there ▸ sound.durable
  have emptied {reached : Database} (kept : durable = .empty → reached = .empty) :
      world.store = some .empty → some reached = some .empty ∨ ∃ path, (world.processes process).stage = .initializing path :=
    fun empty => .inl (by rw [kept (Option.some.inj (there.symm.trans empty))])
  have asked : (∀ path, next ≠ .initializing path) ∧ ∀ migration, next ≠ .migrating migration := by
    rcases asks.next_cases with rfl | ⟨execution, rfl⟩ | ⟨execution, rfl⟩ <;> exact ⟨nofun, nofun⟩
  -- an answer
  have ok {response : Response} {call : Call} (evaluated : request.body.eval durable = .ok response call.durable) :
      ∃ after, world.Follows ledger process event (world.conclude process (.request request) (fun _ => next)
        (fun response => [.returned process request response]) (.ok response call)) after := by
    obtain ⟨after, served, durableLater, kept⟩ := served_of_eval durableNow evaluated
    refine ⟨after, ?_, fun other different => ?_, ?_⟩
    · change Transition _ _ _ _ ((world.on process _ _).processes process).stage _ _
      rw [on_self]
      exact .answered asks served
    · exact congrArg Process.stage (on_other different _ _)
    · exact sound.on durableLater (emptied kept) asked.1 fun migration same => absurd same (asked.2 migration)
  -- an error
  have error {raised : PyError} {call : Call} (ended : call.durable = durable ∨
      ∃ response, request.body.eval durable = .ok response call.durable) :
      ∃ after, world.Follows ledger process event (world.conclude process (.request request) (fun _ => next)
        (fun response => [.returned process request response]) (.error raised call)) after := by
    obtain ⟨handle, shown, result, silent⟩ := exists_failed world process (.request request) (fun _ : Response => next)
      (fun response => [.returned process request response]) raised call
    rw [result]
    have rest {after : Ledger} (durableLater : Durable (some call.durable) after)
        (kept : durable = .empty → call.durable = .empty)
        (uncertain : after = ledger ∨ ∃ response, Served ledger request response after) :
        world.Follows ledger process event (world.on process ⟨handle, .idle⟩ (some call.durable), shown) after := by
      refine ⟨?_, fun other different => ?_, ?_⟩
      · simp only [on_self]
        exact .failed asks uncertain silent
      · exact congrArg Process.stage (on_other different _ _)
      · exact sound.on durableLater (emptied kept) nofun nofun
    rcases ended with kept | ⟨response, evaluated⟩
    · exact ⟨ledger, rest (kept ▸ durableNow) (fun empty => kept.trans empty) (.inl rfl)⟩
    · obtain ⟨after, served, durableLater, kept⟩ := served_of_eval durableNow evaluated
      exact ⟨after, rest durableLater kept (.inr ⟨response, served⟩)⟩
  unfold serve
  have answered := request.run_concluded (world.callOn process durable outcomes)
  generalize request.run (world.callOn process durable outcomes) = result at answered
  cases answered with
  | concluded usable concluded =>
    cases concluded with
    | committed evaluated ready => exact ok evaluated
    | uncertain evaluated started settled => exact error (.inr ⟨_, evaluated⟩)
    | refused kept settled => exact error (.inl kept)
    | abandoned kept evaluated uncaught usable => exact error (.inl kept)
  | unusable unusable => exact error (.inl rfl)
  | rejected usable invalid evaluated => exact error (.inl rfl)
  | immediate usable evaluated => exact ok evaluated

section Aside

/-- The end of a call that is no request and leaves the ledger as it is. -/
theorem Sound.conclude_aside (sound : world.Sound ledger) {α : Type} (task : Task) {next : α → Stage isabs sha256}
    {seen : α → List (Observation isabs sha256 π)} {result : EStateM.Result PyError Call α}
    (durable : Durable (some (reached result).durable) ledger)
    (emptied : world.store = some .empty → some (reached result).durable = some .empty ∨
      ∃ path, (world.processes process).stage = .initializing path)
    (turns : ∀ value, (world.processes process).stage.Turns (next value))
    (fresh : ∀ value path, next value ≠ .initializing path)
    (connected : ∀ value after, result = .ok value after → ∀ migration, next value = .migrating migration →
      after.handle = .ready)
    (silent : ∀ value, ∀ observed ∈ seen value, observed.Silent) :
    world.Follows ledger process event (world.conclude process task next seen result) ledger := by
  cases result with
  | ok value after =>
    refine ⟨?_, fun other different => congrArg Process.stage (on_other different _ _), ?_⟩
    · change Transition _ _ _ _ ((world.on process _ _).processes process).stage _ _
      rw [on_self]
      exact .aside (turns value) (silent value)
    · exact sound.on durable emptied (fresh value) (connected value after rfl)
  | error error after =>
    obtain ⟨handle, shown, same, silentShown⟩ := exists_failed world process task next seen error after
    rw [same]
    refine ⟨?_, fun other different => congrArg Process.stage (on_other different _ _), ?_⟩
    · simp only [on_self]
      exact .aside (.stops _) silentShown
    · exact sound.on durable emptied nofun nofun

/-- A process turns to something else, and what is durable stays. -/
theorem Sound.turn_follows (sound : world.Sound ledger) (next : Process isabs sha256)
    (turns : (world.processes process).stage.Turns next.stage) (fresh : ∀ path, next.stage ≠ .initializing path)
    (connected : ∀ migration, next.stage = .migrating migration → next.handle = .ready)
    {seen : List (Observation isabs sha256 π)} (silent : ∀ observed ∈ seen, observed.Silent) :
    world.Follows ledger process event (world.become process next, seen) ledger := by
  have same : world.become process next = world.on process next world.store := rfl
  rw [same]
  refine ⟨?_, fun other different => congrArg Process.stage (on_other different _ _), ?_⟩
  · simp only [on_self]
    exact .aside turns silent
  · exact sound.on sound.durable .inl fresh connected

theorem Follows.of_idle {handle : Handle} {result : World isabs sha256 π × List (Observation isabs sha256 π)} {after : Ledger}
    (idle : (world.processes process).stage = .idle)
    (follows : (world.become process ⟨handle, .idle⟩).Follows ledger process event result after) :
    world.Follows ledger process event result after where
  transition := by
    have moved := follows.transition
    rw [show (world.become process ⟨handle, .idle⟩).processes process = _ from on_self _ world.store] at moved
    rwa [idle]
  others other different := (follows.others other different).trans (congrArg Process.stage (on_other different _ world.store))
  sound := follows.sound

theorem durable_initialized {database : Database} {nothing : Unit}
    (evaluated : initializationBody.eval .empty = .ok nothing database) : Durable (some database) .empty := by
  rw [initializationBody_eval] at evaluated
  cases evaluated
  exact .held (by decide) le_rfl (Ledger.database_holds .empty)

theorem durable_migrated {migration : Migration} {durable database : Database} {nothing : Unit}
    (durableNow : Durable (some durable) ledger) (evaluated : migration.body.eval durable = .ok nothing database) :
    Durable (some database) ledger ∧ durable ≠ .empty := by
  obtain ⟨⟨ledger', held⟩, rfl⟩ := migration.body_ok.mp evaluated
  have since : 1 ≤ migration.source := by cases migration <;> decide
  have known : migration.target ≤ 5 := by cases migration <;> decide
  obtain rfl : ledger = ledger' := durableNow.unique (.held since (Nat.le_of_succ_le known) held)
  refine ⟨.held (Nat.le_succ_of_le since) known (migration.migrate_holds held), ?_⟩
  rintro rfl
  exact Database.empty_not_holds since held

end Aside

theorem Sound.proceed_follows (sound : world.Sound ledger) {durable : Database} (there : world.store = some durable)
    (outcomes : List Outcome) : ∃ after, world.Follows ledger process (.proceed outcomes) (world.proceed process outcomes durable) after := by
  have durableNow : Durable (some durable) ledger := there ▸ sound.durable
  unfold proceed
  cases stage : (world.processes process).stage with
  | idle | launched => exact ⟨ledger, .still sound (List.forall_mem_nil _)⟩
  | opening path views =>
    have kept := (openExisting_keeps path views (world.callOn process durable outcomes)).1
    refine ⟨ledger, sound.conclude_aside _ ?_ (fun empty => .inl ?_) (fun _ => .stops _) (fun _ => nofun)
      (fun _ _ _ => nofun) fun _ observed member => ?_⟩
    · rw [kept]
      exact durableNow
    · rw [kept]
      exact there.symm.trans empty
    · rw [List.mem_singleton.mp member]
      trivial
  | initializing path =>
    have empty : durable = .empty := Option.some.inj (there.symm.trans (sound.reserved process path stage))
    subst empty
    have atomic := (initializeReserved_atomic path (world.callOn process .empty outcomes)).1
    obtain rfl : Ledger.empty = ledger := Durable.reserved.unique durableNow
    refine ⟨.empty, sound.conclude_aside _ ?_ (fun _ => .inr ⟨path, stage⟩) (fun _ => .stops _) (fun _ => nofun)
      (fun _ _ _ => nofun) fun _ observed member => ?_⟩
    · generalize initializeReserved path (world.callOn process .empty outcomes) = result at atomic
      cases atomic with
      | committed evaluated => exact durable_initialized evaluated
      | uncertain evaluated => exact durable_initialized evaluated
      | @kept error after kept =>
        change Durable (some after.durable) _
        rw [kept]
        exact .reserved
    · rw [List.mem_singleton.mp member]
      trivial
  | migrating migration =>
    have ready : (world.callOn process durable outcomes).handle = .ready := sound.connected process migration stage
    have atomic := migration.finish_atomic ready
    have after : Durable (some (reached (migration.finish (world.callOn process durable outcomes))).durable) ledger ∧
        (durable = .empty → (reached (migration.finish (world.callOn process durable outcomes))).durable = .empty) := by
      generalize migration.finish (world.callOn process durable outcomes) = result at atomic
      cases atomic with
      | committed evaluated =>
        obtain ⟨later, filled⟩ := durable_migrated durableNow evaluated
        exact ⟨later, fun empty => absurd empty filled⟩
      | uncertain evaluated =>
        obtain ⟨later, filled⟩ := durable_migrated durableNow evaluated
        exact ⟨later, fun empty => absurd empty filled⟩
      | @kept error after kept =>
        change Durable (some after.durable) _ ∧ (durable = .empty → after.durable = .empty)
        rw [kept]
        exact ⟨durableNow, id⟩
    refine ⟨ledger, sound.conclude_aside _ after.1 (fun empty => .inl ?_) (fun _ => .stops _) (fun _ => nofun)
      (fun _ _ _ => nofun) fun _ observed member => ?_⟩
    · rw [after.2 (Option.some.inj (there.symm.trans empty))]
    · rw [List.mem_singleton.mp member]
      trivial
  | claiming execution => exact sound.serve_follows there (stage ▸ .claim execution outcomes) outcomes
  | marking execution => exact sound.serve_follows there (stage ▸ .mark execution outcomes) outcomes
  | recording execution exitCode => exact sound.serve_follows there (stage ▸ .record execution exitCode outcomes) outcomes
  | launching execution =>
    refine ⟨ledger, ?_⟩
    change world.Follows ledger process (.proceed outcomes) (world.on process ⟨(world.processes process).handle, .launched execution⟩
      world.store, [.entered process execution]) ledger
    refine ⟨?_, fun other different => congrArg Process.stage (on_other different _ _), ?_⟩
    · simp only [on_self]
      exact .entered stage
    · exact sound.on sound.durable .inl nofun nofun

theorem Sound.begin_follows (sound : world.Sound ledger) (idle : (world.processes process).stage = .idle)
    (event : Event isabs) : ∃ after, world.Follows ledger process event (world.begin process event) after := by
  have still {seen : List (Observation isabs sha256 π)} (silent : ∀ observed ∈ seen, observed.Silent) :
      ∃ after, world.Follows ledger process event (world, seen) after := ⟨ledger, .still sound silent⟩
  have single {task : Task} {error : PyError} {started : Bool} :
      ∀ observed ∈ [(Observation.raised process task error started : Observation isabs sha256 π)], observed.Silent :=
    fun observed member => by
      rw [List.mem_singleton.mp member]
      trivial
  cases event with
  | call request outcomes =>
    unfold begin
    cases there : world.store with
    | none => exact still (List.forall_mem_nil _)
    | some durable => exact sound.serve_follows there (idle ▸ .call request outcomes) outcomes
  | execute executionKey authorityScope controllerGeneration commandSpec =>
    unfold begin
    simp only
    split
    · exact still (List.forall_mem_nil _)
    · exact ⟨ledger, sound.turn_follows ⟨_, .claiming _⟩ (idle ▸ .execute _) (by simp) (by simp)
        (List.forall_mem_nil _)⟩
  | openExisting path =>
    unfold begin
    cases world.store with
    | none => exact still single
    | some durable =>
      exact ⟨ledger, sound.turn_follows ⟨.closed, .opening path []⟩ (.opening path []) (by simp)
        (by simp) (List.forall_mem_nil _)⟩
  | reserve path windows reserved =>
    simp only [begin]
    cases reservation : reserve path windows reserved world.store with
    | error error => exact still single
    | ok durable =>
      obtain ⟨absent, rfl⟩ : world.store = none ∧ Database.empty = durable := by
        simp only [reserve, bind_eq_ok, raiseIf_ok] at reservation
        obtain ⟨_, _, _, free, _, _, ⟨⟩⟩ := reservation
        exact ⟨by simpa using free, rfl⟩
      have empty : Ledger.empty = ledger := Durable.missing.unique (absent ▸ sound.durable)
      -- nobody else can be initializing, because there was no file
      have only : ∀ other path', ((world.on process ⟨.closed, .initializing path⟩ (some .empty)).processes other).stage =
          .initializing path' → other = process := by
        intro other path' initializing
        by_contra different
        rw [on_other different] at initializing
        cases absent.symm.trans (sound.reserved other path' initializing)
      refine ⟨ledger, ?_, fun other different => congrArg Process.stage (on_other different _ _), ?_⟩
      · change Transition _ _ _ _ ((world.on process _ _).processes process).stage _ _
        rw [on_self, idle]
        exact .aside (.initializing path) (List.forall_mem_nil _)
      · change (world.on process ⟨.closed, .initializing path⟩ (some .empty)).Sound ledger
        refine ⟨empty ▸ .reserved, fun _ _ _ => rfl, ?_, fun other migration migrating => ?_⟩
        · exact fun one path other path' initializing initializing' =>
            (only one path initializing).trans (only other path' initializing').symm
        · by_cases same : other = process
          · subst same
            rw [on_self] at migrating
            cases migrating
          · rw [on_other same] at migrating ⊢
            exact sound.connected other migration migrating
  | migrate path migration outcomes =>
    unfold begin
    cases there : world.store with
    | none => exact still single
    | some durable =>
      have closes : world.Follows ledger process .close (world.become process ⟨.closed, .idle⟩, []) ledger :=
        sound.turn_follows ⟨.closed, .idle⟩ (.stops _) (by simp) (by simp) (List.forall_mem_nil _)
      have closed : (world.become process ⟨.closed, .idle⟩).Sound ledger := closes.sound
      have kept := (migration.start_keeps path ((world.become process ⟨.closed, .idle⟩).callOn process durable outcomes)).1
      have durableLater : (reached (migration.start path ((world.become process ⟨.closed, .idle⟩).callOn process durable
          outcomes))).durable = durable := kept
      refine ⟨ledger, .of_idle idle (closed.conclude_aside _ ?_ (fun empty => .inl ?_) (fun _ => ?_) (by simp) ?_
        fun _ => List.forall_mem_nil _)⟩
      · rw [durableLater]
        exact there ▸ sound.durable
      · rw [durableLater]
        exact there.symm.trans empty
      · rw [show (world.become process ⟨.closed, .idle⟩).processes process = _ from on_self _ world.store]
        exact .migrating migration
      · exact fun _ after ran _ _ => migration.start_ready ran
  | close =>
    exact ⟨ledger, sound.turn_follows ⟨.closed, .idle⟩ (.stops _) (by simp) (by simp) (List.forall_mem_nil _)⟩
  | look | proceed | exit | crash => exact still (List.forall_mem_nil _)

omit [DecidableEq π] in
variable (world process) in
/-- A process begins something only while it is idle. -/
theorem step_begins [DecidableEq π] {event : Event isabs} (begins : event.Begins) :
    (world.processes process).stage = .idle ∧ world.step (process, event) = world.begin process event ∨
      world.step (process, event) = (world, []) := by
  cases stage : (world.processes process).stage with
  | idle =>
    refine .inl ⟨rfl, ?_⟩
    cases event with
    | crash | look | exit | proceed => cases begins
    | call | execute | openExisting | reserve | migrate | close => simp only [step, stage]
  | _ =>
    refine .inr ?_
    cases event with
    | crash | look | exit | proceed => cases begins
    | call | execute | openExisting | reserve | migrate | close => simp only [step, stage]

/-- Every step of a process is one of those, and keeps what the processes rely on. -/
theorem Sound.step_follows (sound : world.Sound ledger) (event : Event isabs) :
    ∃ after, world.Follows ledger process event (world.step (process, event)) after := by
  have still : ∃ after, world.Follows ledger process event (world, []) after := ⟨ledger, .still sound (List.forall_mem_nil _)⟩
  have begun (begins : event.Begins) : ∃ after, world.Follows ledger process event (world.step (process, event)) after := by
    rcases step_begins world process begins with ⟨idle, same⟩ | same
    · rw [same]
      exact sound.begin_follows idle event
    · rw [same]
      exact still
  cases event with
  | crash =>
    exact ⟨ledger, sound.turn_follows .new (.stops _) (by simp [Process.new]) (by simp [Process.new]) (List.forall_mem_nil _)⟩
  | look =>
    simp only [step]
    split
    · exact ⟨ledger, sound.turn_follows ⟨_, .opening _ _⟩ (.opening _ _) (by simp) (by simp)
        (List.forall_mem_nil _)⟩
    · exact still
  | exit exitCode =>
    simp only [step]
    split
    · rename_i execution exitCode launched
      exact ⟨ledger, sound.turn_follows ⟨_, .recording execution exitCode⟩ (launched ▸ .exited execution exitCode)
        (by simp) (by simp) (List.forall_mem_nil _)⟩
    · exact ⟨ledger, sound.turn_follows ⟨_, .idle⟩ (.stops _) (by simp) (by simp) (List.forall_mem_nil _)⟩
    · exact still
  | proceed outcomes =>
    simp only [step]
    cases there : world.store with
    | none => exact still
    | some durable => exact sound.proceed_follows there outcomes
  | call | execute | openExisting | reserve | migrate | close => exact begun trivial

end World

end Umbilical.Authority
