import Umbilical.Authority.AppendOnly
import Umbilical.Authority.Reopening

set_option autoImplicit false

/-!
# The store never rejects its own history

Whatever the operations make of a store that this code has created, every later
call accepts it.
-/

namespace Umbilical.Authority

open Python Execution Interleaving

/-- A store of an earlier version, and what a chain of migrations has made of it. -/
inductive Historical : Nat → Database → Prop
  | valid (migration : Migration) {database : Database}
      (accepted : migration.sourceValidator.eval database = .ok () database) : Historical migration.source database
  | migrated (migration : Migration) {before after : Database} (historical : Historical migration.source before)
      (ran : migration.body.eval before = .ok () after) : Historical migration.target after

/-- A store of the current version as this code creates one. -/
inductive Created (database : Database) : Prop
  | initialized (ran : initializationBody.eval .empty = .ok () database)
  | migrated (historical : Historical 5 database)

theorem Historical.holds {version : Nat} {database : Database} (historical : Historical version database) :
    ∃ ledger, database.Holds version ledger := by
  cases historical with
  | valid migration accepted => exact (migration.sourceValidator_ok.mp accepted).1
  | migrated migration _ ran =>
    obtain ⟨⟨ledger, held⟩, rfl⟩ := migration.body_ok.mp ran
    exact ⟨ledger, migration.migrate_holds held⟩

theorem Created.valid {database : Database} (created : Created database) : database.Valid := by
  cases created with
  | initialized ran => exact ⟨.empty, initialized_holds ran⟩
  | migrated historical => exact historical.holds

variable {isabs : Str → Bool} {sha256 : List UInt8 → Text} {π : Type} [DecidableEq π]

omit [DecidableEq π] in
theorem Stored.valid {before : Database} {after : Option Database} {seen : List (Observation isabs sha256 π)}
    (stored : Stored (some before) after seen) (valid : before.Valid) : ∃ database, after = some database ∧ database.Valid := by
  obtain ⟨ledger, held⟩ := valid
  cases stored with
  | kept => exact ⟨before, rfl, ledger, held⟩
  | initialized => exact absurd held (Database.empty_not_holds (by decide))
  | @served _ database request response _ ran =>
    obtain ⟨later, served, rfl⟩ := (request.eval_ok_iff held).mp ran
    exact ⟨_, rfl, later, held.store later⟩
  | @migrated _ database migration _ ran =>
    obtain ⟨⟨ledger', held'⟩, rfl⟩ := migration.body_ok.mp ran
    have same : 5 = migration.source := (held.unique held').1
    cases migration <;> cases same

/-- `isinstance(error, AuthorityStoreMalformedError)`. -/
def isMalformed : PyError → Bool
  | .store kind _ => kind.isMalformed
  | _ => false

theorem Refusal.not_malformed {error : PyError} (refusal : Refusal error) : isMalformed error = false := by
  cases error with
  | store => exact refusal
  | _ => rfl

theorem Surfaces.not_malformed {error surfaced : PyError} (surfaces : Surfaces error surfaced)
    (sound : isMalformed error = false) : isMalformed surfaced = false := by
  rcases surfaces with rfl | ⟨_, message, rfl⟩
  · exact sound
  · rfl

/-- A call whose statements do not fail finds nothing wrong with a valid store. -/
theorem Request.accepted (request : Request) (call : Call) {after : Call} (valid : call.durable.Valid) (calm : Calm call.outcomes)
    (unstarted : call.commitStarted = false) {error : PyError} (ended : request.run call = .error error after) :
    isMalformed error = false := by
  obtain ⟨ledger, held⟩ := valid
  have answered := request.run_calm calm unstarted
  rw [ended] at answered
  cases answered with
  | concluded usable concluded =>
    cases concluded with
    | refused evaluated caught surfaces => exact surfaces.not_malformed (Request.eval_error held evaluated).1.not_malformed
    | abandoned evaluated => exact (Request.eval_error held evaluated).1.not_malformed
    | blocked blocked surfaces => exact surfaces.not_malformed rfl
  | unusable => rfl
  | rejected usable invalid evaluated => exact (Request.eval_error held evaluated).1.not_malformed

/-- No statement of the call that the event begins or goes on with fails. -/
def Event.Calm : Event isabs → Prop
  | .call _ outcomes | .proceed outcomes => Umbilical.Calm outcomes
  | _ => True

/-- What is done with a store that is there. -/
def Task.Later : Task → Prop
  | .request _ | .openExisting => True
  | _ => False

def Stage.isOpening : Stage isabs sha256 → Bool
  | .opening _ _ => true
  | _ => false

namespace World

variable {world : World isabs sha256 π} {process : π}

@[simp] theorem become_self (next : Process isabs sha256) : (world.become process next).processes process = next := by
  simp [become]

/-- A call that ends leaves its process idle, or at the next stage. -/
theorem conclude_stage {α : Type} {task : Task} {next : α → Stage isabs sha256}
    {seen : α → List (Observation isabs sha256 π)} (result : EStateM.Result PyError Call α) :
    ((world.conclude process task next seen result).1.processes process).stage = .idle ∨
      ∃ value, ((world.conclude process task next seen result).1.processes process).stage = next value := by
  cases result with
  | ok value after => exact .inr ⟨value, congrArg Process.stage (on_self _ (some after.durable))⟩
  | error error after =>
    rw [conclude_error]
    split_ifs
    · exact .inl (congrArg Process.stage (on_self _ _))
    · exact .inl (congrArg Process.stage (on_self _ _))

/-- What a process that is opening the store has seen of it. -/
inductive Sees (world : World isabs sha256 π) (process : π) (path : String) : List Database → Prop
  | nothing : Sees world process path []
  | still {views : List Database} (opening : (world.processes process).stage = .opening path views) :
      Sees world process path views
  | more {views : List Database} {database : Database} (opening : (world.processes process).stage = .opening path views)
      (there : world.store = some database) : Sees world process path (views ++ [database])

theorem conclude_not_opening {α : Type} {task : Task} {next : α → Stage isabs sha256}
    {seen : α → List (Observation isabs sha256 π)} (elsewhere : ∀ value, (next value).isOpening = false)
    {result : EStateM.Result PyError Call α} {path : String} {views : List Database}
    (opens : ((world.conclude process task next seen result).1.processes process).stage = .opening path views) : False := by
  have ended : ((world.conclude process task next seen result).1.processes process).stage = .idle ∨ _ := conclude_stage result
  rcases ended with idle | ⟨value, same⟩
  · cases idle.symm.trans opens
  · have elsewhere := elsewhere value
    rw [← same, opens] at elsewhere
    cases elsewhere

theorem serve_not_opening {request : Request} {next : Stage isabs sha256} (elsewhere : next.isOpening = false)
    {outcomes : List Outcome} {durable : Database} {path : String} {views : List Database}
    (opens : ((world.serve process request next outcomes durable).1.processes process).stage = .opening path views) :
    False := conclude_not_opening (fun _ => elsewhere) opens

theorem proceed_sees {outcomes : List Outcome} {durable : Database} {path : String} {views : List Database}
    (opens : ((world.proceed process outcomes durable).1.processes process).stage = .opening path views) :
    world.Sees process path views := by
  unfold proceed at opens
  cases stage : (world.processes process).stage with
  | idle | launched => simp only [stage, reduceCtorEq] at opens
  | opening path' views' | initializing path' | migrating migration =>
    rw [stage] at opens
    exact (conclude_not_opening (fun _ => rfl) opens).elim
  | claiming execution | marking execution | recording execution exitCode =>
    rw [stage] at opens
    exact (serve_not_opening rfl opens).elim
  | launching execution =>
    simp only [stage, turnTo, become_self, reduceCtorEq] at opens

theorem begin_sees {event : Event isabs} {path : String} {views : List Database}
    (opens : ((world.begin process event).1.processes process).stage = .opening path views) :
    world.Sees process path views := by
  cases event with
  | call request outcomes =>
    simp only [begin] at opens
    split at opens
    · exact .still opens
    · exact (serve_not_opening rfl opens).elim
  | execute executionKey authorityScope controllerGeneration commandSpec =>
    simp only [begin] at opens
    split at opens
    · exact .still opens
    · simp only [turnTo, become_self, reduceCtorEq] at opens
  | openExisting path' =>
    simp only [begin] at opens
    split at opens
    · exact .still opens
    · rw [become_self] at opens
      cases opens
      exact .nothing
  | reserve path' windows reserved =>
    simp only [begin] at opens
    split at opens
    · exact .still opens
    · have turned : ((world.become process ⟨.closed, .initializing path'⟩).processes process).stage = .opening path views :=
        opens
      simp only [become_self, reduceCtorEq] at turned
  | migrate path' migration outcomes =>
    simp only [begin] at opens
    split at opens
    · exact .still opens
    · exact (conclude_not_opening (fun _ => rfl) opens).elim
  | close => simp only [begin, become_self, reduceCtorEq] at opens
  | look | proceed | exit | crash => exact .still opens

/-- A process that is opening the store has seen what was durable at some of its steps. -/
theorem step_sees {event : Event isabs} {path : String} {views : List Database}
    (opens : ((world.step (process, event)).1.processes process).stage = .opening path views) :
    world.Sees process path views := by
  have begun (begins : event.Begins) : world.Sees process path views := by
    rcases step_begins world process begins with ⟨_, same⟩ | same
    · rw [same] at opens
      exact begin_sees opens
    · rw [same] at opens
      exact .still opens
  cases event with
  | crash =>
    simp only [step, become_self] at opens
    cases opens
  | look =>
    simp only [step] at opens
    split at opens
    · rename_i durable path' earlier there opening
      rw [turnTo, become_self] at opens
      cases opens
      exact .more opening there
    · exact .still opens
  | exit exitCode =>
    simp only [step] at opens
    split at opens
    · simp only [turnTo, become_self, reduceCtorEq] at opens
    · simp only [turnTo, become_self, reduceCtorEq] at opens
    · exact .still opens
  | proceed outcomes =>
    simp only [step] at opens
    cases there : world.store with
    | none =>
      rw [there] at opens
      exact .still opens
    | some durable =>
      rw [there] at opens
      exact proceed_sees opens
  | call | execute | openExisting | reserve | migrate | close => exact begun trivial

/-- A store of the current version, and nobody has seen another one. -/
structure Current (world : World isabs sha256 π) : Prop where
  sound : world.Sound world.ledger
  valid : ∃ database, world.store = some database ∧ database.Valid
  views : ∀ process path views, (world.processes process).stage = .opening path views → ∀ view ∈ views, view.Valid

theorem Current.stays (current : world.Current) (event : π × Event isabs) : (world.step event).1.Current where
  sound := step_sound world event current.sound
  valid := by
    obtain ⟨database, there, valid⟩ := current.valid
    have stored := current.sound.step_stored event
    rw [there] at stored
    exact stored.valid valid
  views other path views opening view member := by
    obtain ⟨database, there, valid⟩ := current.valid
    by_cases same : other = event.1
    · subst same
      cases step_sees opening with
      | nothing => cases member
      | still before => exact current.views _ path views before view member
      | @more earlier durable before now =>
        rcases List.mem_append.mp member with seen | last
        · exact current.views _ path earlier before view seen
        · obtain rfl := List.mem_singleton.mp last
          exact Option.some.inj (there.symm.trans now) ▸ valid
    · rw [(current.sound.follows event).others other same] at opening
      exact current.views other path views opening view member

omit [DecidableEq π] in
theorem start_current {database : Database} (created : Created database) :
    (start (some database) : World isabs sha256 π).Current where
  sound := start_sound_any _
  valid := ⟨database, rfl, created.valid⟩
  views := nofun

/-- An error that is seen is the one the call ended with. -/
theorem conclude_raised {α : Type} {task : Task} {next : α → Stage isabs sha256}
    {seen : α → List (Observation isabs sha256 π)} {result : EStateM.Result PyError Call α} {who : π} {other : Task}
    {error : PyError} {started : Bool} (shown : .raised who other error started ∈ (world.conclude process task next seen result).2)
    (silent : ∀ value, .raised who other error started ∉ seen value) :
    other = task ∧ ∃ after, result = .error error after := by
  cases result with
  | ok value after => exact absurd shown (silent value)
  | error raised after =>
    rw [conclude_error_seen] at shown
    split_ifs at shown
    · cases shown
    · cases List.mem_singleton.mp shown
      exact ⟨rfl, after, rfl⟩

omit [DecidableEq π] in
theorem not_mem_singleton {who : π} {task : Task} {error : PyError} {started : Bool}
    {observed : Observation isabs sha256 π} (other : .raised who task error started ≠ observed) :
    .raised who task error started ∉ [observed] := fun member => other (List.mem_singleton.mp member)

theorem serve_accepted {durable : Database} (valid : durable.Valid) {request : Request} {next : Stage isabs sha256}
    {outcomes : List Outcome} (calm : Calm outcomes) {who : π} {task : Task} {error : PyError} {started : Bool}
    (shown : .raised who task error started ∈ (world.serve process request next outcomes durable).2) :
    isMalformed error = false := by
  obtain ⟨_, after, ended⟩ := conclude_raised shown fun _ => not_mem_singleton nofun
  exact request.accepted (world.callOn process durable outcomes) valid calm rfl ended

theorem proceed_accepted {durable : Database} (valid : durable.Valid) {outcomes : List Outcome} (calm : Calm outcomes)
    (views : ∀ path views, (world.processes process).stage = .opening path views → ∀ view ∈ views, view.Valid)
    {who : π} {task : Task} {error : PyError} {started : Bool} (later : task.Later)
    (shown : .raised who task error started ∈ (world.proceed process outcomes durable).2) : isMalformed error = false := by
  unfold proceed at shown
  cases stage : (world.processes process).stage with
  | idle | launched =>
    simp only [stage, List.not_mem_nil] at shown
  | launching execution =>
    simp only [stage, List.mem_singleton, reduceCtorEq] at shown
  | claiming execution | marking execution | recording execution exitCode =>
    rw [stage] at shown
    exact serve_accepted valid calm shown
  | opening path seen =>
    rw [stage] at shown
    obtain ⟨_, after, ended⟩ := conclude_raised shown fun _ => not_mem_singleton (by simp)
    have opens : ∃ opened, openExisting path seen (world.callOn process durable outcomes) = .ok () opened ∧ _ :=
      openExisting_calm path calm (views path seen stage) valid
    obtain ⟨_, opened, _⟩ := opens
    cases opened.symm.trans ended
  | initializing path =>
    rw [stage] at shown
    obtain ⟨rfl, _⟩ := conclude_raised shown fun _ => not_mem_singleton (by simp)
    cases later
  | migrating migration =>
    rw [stage] at shown
    obtain ⟨rfl, _⟩ := conclude_raised shown fun _ => not_mem_singleton (by simp)
    cases later

theorem begin_accepted {durable : Database} (there : world.store = some durable) (valid : durable.Valid)
    {event : Event isabs} (calm : event.Calm) {who : π} {task : Task} {error : PyError} {started : Bool}
    (later : task.Later) (shown : .raised who task error started ∈ (world.begin process event).2) :
    isMalformed error = false := by
  cases event with
  | call request outcomes =>
    simp only [begin, there] at shown
    exact serve_accepted valid calm shown
  | execute executionKey authorityScope controllerGeneration commandSpec =>
    simp only [begin] at shown
    split at shown <;> cases shown
  | openExisting path =>
    simp only [begin, there, List.not_mem_nil] at shown
  | reserve path windows reserved =>
    simp only [begin] at shown
    split at shown
    · cases List.mem_singleton.mp shown
      cases later
    · cases shown
  | migrate path migration outcomes =>
    simp only [begin, there] at shown
    obtain ⟨rfl, _⟩ := conclude_raised shown fun _ => List.not_mem_nil
    cases later
  | close | look | proceed | exit | crash => cases shown

/-- Where no statement fails, no call on a store of the current version finds it malformed. -/
theorem Current.accepted (current : world.Current) {event : π × Event isabs} (calm : event.2.Calm) {who : π} {task : Task}
    {error : PyError} {started : Bool} (later : task.Later)
    (shown : .raised who task error started ∈ (world.step event).2) : isMalformed error = false := by
  obtain ⟨durable, there, valid⟩ := current.valid
  obtain ⟨process, event⟩ := event
  have begun (begins : event.Begins) : isMalformed error = false := by
    rcases step_begins world process begins with ⟨_, same⟩ | same
    · rw [same] at shown
      exact begin_accepted there valid calm later shown
    · rw [same] at shown
      cases shown
  cases event with
  | crash => cases shown
  | look =>
    simp only [step] at shown
    split at shown <;> cases shown
  | exit exitCode =>
    simp only [step] at shown
    split at shown <;> cases shown
  | proceed outcomes =>
    simp only [step, there] at shown
    exact proceed_accepted valid calm (current.views process) later shown
  | call | execute | openExisting | reserve | migrate | close => exact begun trivial

/-- In every run on a store that this code has created, the store stays valid, and no later call of an
operation or of `open_existing` finds it malformed. -/
theorem never_rejected {database : Database} (created : Created database) (events : List (π × Event isabs)) :
    (∃ later ledger, (final step (start (some database) : World isabs sha256 π) events).store = some later ∧
      later.Holds 5 ledger ∧ validateCurrentStore.eval later = .ok () later) ∧
    ∀ event : π × Event isabs, event.2.Calm → ∀ who task error started, task.Later →
      .raised who task error started ∈ (step (final step (start (some database) : World isabs sha256 π) events) event).2 →
        isMalformed error = false := by
  have current : (final step (start (some database) : World isabs sha256 π) events).Current :=
    final_of_step (fun _ event current => current.stays event) (start_current created) events
  refine ⟨?_, fun event calm who task error started later shown => current.accepted calm later shown⟩
  obtain ⟨later, there, ledger, held⟩ := current.valid
  exact ⟨later, ledger, there, held, validateCurrentStore_ok.mpr ⟨⟨ledger, held⟩, rfl⟩⟩

/-- A store that `initialize_new` has just created, opened by another process. -/
theorem new_never_rejected : ∃ later ledger,
    (final step (start (some Ledger.empty.database) : World (fun _ => true) (fun _ => []) Unit)
      [((), .openExisting "authority"), ((), .look), ((), .proceed [])]).store = some later ∧
      later.Holds 5 ledger ∧ validateCurrentStore.eval later = .ok () later :=
  (never_rejected (.initialized initializationBody_eval) _).1

end World

end Umbilical.Authority
