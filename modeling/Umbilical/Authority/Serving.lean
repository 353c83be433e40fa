import Umbilical.Authority.Validity

set_option autoImplicit false

/-!
# Steps that nothing disturbs

While no statement fails and nobody holds a transaction open, a request is
answered as its service says.
-/

namespace Umbilical.Authority

open Python Execution Interleaving

/-- A request that the ledger serves is answered. -/
theorem Request.run_served (request : Request) (call : Call) {ledger after : Ledger} {response : Response}
    (held : call.durable.Holds 5 ledger) (served : ledger.serve request = some (response, after)) (calm : Calm call.outcomes)
    (unstarted : call.commitStarted = false) (ready : call.handle = .ready) (unlocked : call.locked = false) :
    ∃ ended, request.run call = .ok response ended ∧ ended.durable = call.durable.store after ∧ ended.handle = .ready := by
  have evaluated := (request.eval_ok_iff held).mpr ⟨after, served, rfl⟩
  have answered := request.run_calm calm unstarted
  generalize request.run call = result at answered
  cases answered with
  | concluded usable concluded =>
    cases concluded with
    | committed evaluated' ready' =>
      injection evaluated'.symm.trans evaluated with value reached
      exact ⟨_, by rw [value], reached, ready'⟩
    | refused evaluated' => cases evaluated'.symm.trans evaluated
    | abandoned evaluated' => cases evaluated'.symm.trans evaluated
    | blocked blocked =>
      rcases blocked with inside | other
      · simp [Call.transaction, ready, Handle.ready] at inside
      · rw [unlocked] at other
        cases other
  | unusable unusable => exact absurd (ready ▸ Handle.ready_usable) unusable
  | rejected _ _ evaluated' => cases evaluated'.symm.trans evaluated
  | immediate _ evaluated' =>
    injection evaluated'.symm.trans evaluated with value reached
    exact ⟨_, by rw [value], reached, ready⟩

variable {isabs : Str → Bool} {sha256 : List UInt8 → Text} {π : Type} [DecidableEq π]

namespace World

/-- Nobody holds a transaction open on a store of the current version. -/
structure Quiet (world : World isabs sha256 π) (ledger : Ledger) : Prop where
  held : ∃ database, world.store = some database ∧ database.Holds 5 ledger
  free : world.writer = none

variable {world : World isabs sha256 π} {process : π} {ledger after : Ledger}

omit [DecidableEq π] in
theorem Quiet.ledger_eq (quiet : world.Quiet ledger) : world.ledger = ledger := by
  obtain ⟨database, there, held⟩ := quiet.held
  have durable : Durable world.store ledger := there ▸ .held (by decide) le_rfl held
  exact Durable.unique (Durable.total world.store).choose_spec durable

/-- One process comes to be another, with the store of the current version, and nobody else notices. -/
structure Moves (world : World isabs sha256 π) (process : π) (next : Process isabs sha256) (after : Ledger)
    (world' : World isabs sha256 π) : Prop where
  quiet : world'.Quiet after
  own : world'.processes process = next
  others : ∀ other, other ≠ process → world'.processes other = world.processes other

theorem Quiet.on (quiet : world.Quiet ledger) (process : π) {next : Process isabs sha256} {database : Database}
    (free : next.handle.connection.bind Connection.transaction = none) (held : database.Holds 5 after) :
    world.Moves process next after (world.on process next (some database)) where
  quiet := ⟨⟨database, rfl, held⟩, by simp [World.on, become, free, quiet.free]⟩
  own := on_self next _
  others _ different := on_other different next _

theorem Quiet.become (quiet : world.Quiet ledger) (process : π) {next : Process isabs sha256}
    (free : next.handle.connection.bind Connection.transaction = none) :
    world.Moves process next ledger (world.become process next) := by
  obtain ⟨database, there, held⟩ := quiet.held
  have moves := quiet.on process free held
  rwa [World.on, ← there] at moves

omit [DecidableEq π] in
theorem free_ready : Handle.ready.connection.bind Connection.transaction = none := rfl

theorem Quiet.unlocked (quiet : world.Quiet ledger) (database : Database) (outcomes : List Outcome) :
    (world.callOn process database outcomes).locked = false := by
  simp [callOn, quiet.free]

/-- A served request, and the stage it brings its process to. -/
theorem Quiet.step_served (quiet : world.Quiet ledger) {stage next : Stage isabs sha256}
    (own : world.processes process = ⟨.ready, stage⟩) {event : Event isabs} {request : Request}
    (asks : stage.Asks event request next) (calm : event.Calm) {response : Response}
    (served : ledger.serve request = some (response, after)) :
    world.Moves process ⟨.ready, next⟩ after (world.step (process, event)).1 ∧
      (world.step (process, event)).2 = [.returned process request response] := by
  obtain ⟨database, there, held⟩ := quiet.held
  have serves {outcomes : List Outcome} (calm : Calm outcomes) : world.serve process request next outcomes database =
      (world.on process ⟨.ready, next⟩ (some (database.store after)), [.returned process request response]) := by
    obtain ⟨ended, ran, durable, handle⟩ := request.run_served (world.callOn process database outcomes) held served
      calm rfl (congrArg Process.handle own) (quiet.unlocked database outcomes)
    simp only [serve, ran, conclude, durable, handle]
    rfl
  have same : world.step (process, event) =
      (world.on process ⟨.ready, next⟩ (some (database.store after)), [.returned process request response]) := by
    cases asks with
    | call => simp only [step, own, begin, there, serves calm]
    | claim | mark | record => simp only [step, there, proceed, own, serves calm]
  rw [same]
  exact ⟨quiet.on process free_ready (held.store after), rfl⟩

/-- A process opens the store. -/
theorem Quiet.opens (quiet : world.Quiet ledger) {handle : Handle} (own : world.processes process = ⟨handle, .idle⟩)
    (path : String) :
    world.Moves process ⟨.ready, .idle⟩ ledger (final step world [(process, .openExisting path), (process, .proceed [])]) := by
  obtain ⟨database, there, held⟩ := quiet.held
  have begun : world.step (process, .openExisting path) = (world.become process ⟨.closed, .opening path []⟩, []) := by
    simp only [step, own, begin, there]
  have moved : world.Moves process ⟨.closed, .opening path []⟩ ledger (world.become process ⟨.closed, .opening path []⟩) :=
    quiet.become process rfl
  have opens : ∃ opened, openExisting path [] ((world.become process ⟨.closed, .opening path []⟩).callOn process database []) =
      .ok () opened ∧ _ := openExisting_calm path Calm.nil (List.forall_mem_nil _) ⟨ledger, held⟩
  obtain ⟨ended, ran, durable, ready⟩ := opens
  have opened : (world.become process ⟨.closed, .opening path []⟩).step (process, .proceed []) =
      ((world.become process ⟨.closed, .opening path []⟩).on process ⟨.ready, .idle⟩ (some database), [.opened process]) := by
    have there' : (world.become process ⟨.closed, .opening path []⟩).store = some database := there
    simp only [step, there', proceed, become_self, ran, conclude, durable, ready]
    rfl
  simp only [final, begun, opened]
  have ready : Moves _ process ⟨.ready, .idle⟩ ledger _ := moved.quiet.on process free_ready held
  exact ⟨ready.quiet, ready.own, fun other different => (ready.others other different).trans (moved.others other different)⟩

/-- A process begins to execute a command. -/
theorem Quiet.executes (quiet : world.Quiet ledger) (own : world.processes process = ⟨.ready, .idle⟩)
    (execution : LocalExecution isabs sha256) :
    world.Moves process ⟨.ready, .claiming execution⟩ ledger (world.step (process, .execute execution.executionKey
      execution.authorityScope execution.controllerGeneration execution.commandSpec)).1 := by
  have begun : world.step (process, .execute execution.executionKey execution.authorityScope
      execution.controllerGeneration execution.commandSpec) =
      (world.become process ⟨.ready, .claiming execution⟩, []) := by
    obtain ⟨executionKey, authorityScope, controllerGeneration, commandSpec, frozenHash, hashed⟩ := execution
    simp only [step, own, begin]
    split
    · rename_i error failed
      cases failed.symm.trans hashed
    · rename_i other returned
      obtain rfl : other = frozenHash := Except.ok.inj (returned.symm.trans hashed)
      simp only [turnTo, own]
  rw [begun]
  exact quiet.become process free_ready

/-- A process enters the launcher. -/
theorem Quiet.enters (quiet : world.Quiet ledger) {execution : LocalExecution isabs sha256}
    (own : world.processes process = ⟨.ready, .launching execution⟩) :
    (world.step (process, .proceed [])).2 = [.entered process execution] := by
  obtain ⟨database, there, _⟩ := quiet.held
  simp only [step, there, proceed, own]

end World

end Umbilical.Authority
