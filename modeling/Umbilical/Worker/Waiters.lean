import Umbilical.Worker.Moves

set_option autoImplicit false

/-!
# Nobody waits for a latent worker for ever

Whoever waits on `_substantiation_notifier` waits in a state out of which every transition
notifies, or behind a forced insubstantiation that is to bring such a state about.
-/

namespace Umbilical.Worker

open Interleaving
open Umbilical.Worker.Core

/-- A forced insubstantiation has the lock handed over to it, or waits for it. -/
def Core.Forced (core : Core) : Prop := ∃ fast build,
  core.lock = .granted (.insubstantiate fast (some build)) ∨ .insubstantiate fast (some build) ∈ core.waiting

/-- Those that wait do so for something to happen. A forced insubstantiation does not return early in
`SUBSTANTIATED`. -/
def Core.Attended (core : Core) : Prop :=
  core.waiters ≠ 0 → core.Attending ∨ core.state = .substantiated ∧ core.Forced

/-- A plain insubstantiation does not clean a worker up before a forced one that waits behind it, and there is a build
to force the substantiation of a worker with. -/
def patient : Policy where
  requests := True
  asks build := build ≠ none
  takes state waiting task :=
    match task with
    | .insubstantiate _ none => state = .substantiated → ∀ fast build, .insubstantiate fast (some build) ∉ waiting
    | _ => True
  attaches := True

theorem patient_lawful : patient.Lawful where
  plain _ _ _ _ _ := List.not_mem_nil
  forced fast build asks := by
    cases build with
    | none => exact absurd rfl asks
    | some build => trivial
  check _ := trivial
  stop _ := trivial
  starting _ _ _ _ := trivial

/-- No call of `substantiate`. -/
def unasked : Policy where
  requests := False
  asks _ := True
  takes _ _ _ := True
  attaches := True

theorem unasked_lawful : unasked.Lawful where
  plain _ _ := trivial
  forced _ _ _ := trivial
  check _ := trivial
  stop _ := trivial
  starting _ _ _ _ := trivial

namespace Core

variable {core last : Core} {calls : List Call} {task : Task}

theorem forced_join_self (fast : Bool) (build : Nat) : (core.join (.insubstantiate fast (some build))).Forced := by
  refine ⟨fast, build, ?_⟩
  unfold join
  split
  · exact .inl rfl
  · exact .inr (List.mem_append_right _ (List.mem_singleton_self _))

theorem Forced.join (forced : core.Forced) (tidy : core.Tidy) (task : Task) : (core.join task).Forced := by
  obtain ⟨fast, build, here⟩ := forced
  refine ⟨fast, build, ?_⟩
  unfold Core.join
  split
  · rename_i free
    rcases here with granted | member
    · simp [free] at granted
    · simp [tidy free] at member
  · exact here.imp id (List.mem_append_left _)

/-- A release that is not that of a forced insubstantiation. -/
theorem Forced.release (forced : core.Forced)
    (other : ∀ fast build, core.lock ≠ .granted (.insubstantiate fast (some build))) : core.release.Forced := by
  obtain ⟨fast, build, here⟩ := forced
  have member := here.resolve_left (other fast build)
  refine ⟨fast, build, ?_⟩
  unfold Core.release
  split
  · rename_i nobody
    simp [nobody] at member
  · rename_i first rest waiting
    rw [waiting] at member
    exact (List.mem_cons.mp member).imp (fun same => by rw [same]) id

theorem Attended.release (attended : core.Attended)
    (other : core.state = .substantiated → ∀ fast build, core.lock ≠ .granted (.insubstantiate fast (some build))) :
    core.release.Attended := by
  intro some
  rcases attended (by simpa using some) with attending | ⟨state, forced⟩
  · exact .inl (by simpa [Attending] using attending)
  · exact .inr ⟨by simpa using state, forced.release (other state)⟩

/-- Nobody waits in any other state. -/
theorem Attended.nobody (attended : core.Attended)
    (state : core.state = .notSubstantiated ∨ core.state = .insubstantiating ∨ core.state = .shutDown) : core.waiters = 0 := by
  by_contra some
  rcases attended some with (now | now | now) | ⟨now, _⟩ <;> simp [now] at state

theorem Move.attended (move : core.Move patient calls last) (tidy : core.Tidy) (attended : core.Attended) :
    last.Attended := by
  cases move with
  | notifies | attaches | cancels => exact fun some => absurd rfl some
  | waits _ attending => exact fun _ => .inl attending
  | begins => exact fun _ => .inl (.inl rfl)
  | reverses => exact fun _ => .inl (.inr (.inr rfl))
  | asks build requests asks state =>
    cases build with
    | none => exact absurd rfl asks
    | some build => exact fun _ => .inr ⟨by simpa using state, forced_join_self false build⟩
  | joins task =>
    intro some
    rcases attended (by simpa using some) with attending | ⟨state, forced⟩
    · exact .inl (by simpa [Attending] using attending)
    · exact .inr ⟨by simpa using state, forced.join tidy task⟩
  | passes task granted idle =>
    apply attended.release
    intro state fast build forced
    have same : task = .insubstantiate fast (some build) := by simpa [granted] using forced
    rcases idle fast build same with other | other <;> simp [state] at other
  | contradicts fast build granted contradiction =>
    apply attended.release
    intro state
    simp [state] at contradiction
  | checks granted | reports granted =>
    intro some
    rcases attended some with attending | ⟨state, fast, build, here⟩
    · exact .inl attending
    · exact .inr ⟨state, fast, build, .inr (here.resolve_left (by simp [granted]))⟩
  | checked checking =>
    apply attended.release
    rintro state fast build granted
    simp [granted] at checking
  | starts => exact fun _ => .inl (.inr (.inl rfl))
  | started dont_wait_to_attach starting => exact attended.release (by simp [starting])
  | cleansUp fast build granted takes state =>
    cases build with
    | some build => exact fun _ => .inl (.inr (.inr rfl))
    | none =>
      -- whoever waits would wait for a forced one behind this one
      intro some
      rcases attended some with (now | now | now) | ⟨_, fast', build, here | member⟩
      · simp [state] at now
      · simp [state] at now
      · simp [state] at now
      · simp [granted] at here
      · exact absurd member (takes state fast' build)
  | aborts => exact fun some => absurd rfl some
  | ends stopping lock state =>
    intro some
    exact absurd (attended.nobody (.inr (.inl state))) (by simpa [moveTo] using some)
  | endsAgain => exact fun _ => .inl (.inl (by simp))
  | misses stopping lock => exact attended.release (by simp [lock])
  | shutsDown state => exact fun some => absurd (attended.nobody (.inl state)) some

/-- Without a new request, those that wait are notified when the last of their states is left. -/
theorem Move.notified (move : core.Move unasked calls last) (before : core.Attending ∨ core.waiters = 0) :
    last.Attending ∨ last.waiters = 0 := by
  have stays {after : Core} (state : after.state = core.state) (waiters : after.waiters = core.waiters) :
      after.Attending ∨ after.waiters = 0 := by
    unfold Attending
    rw [state, waiters]
    exact before
  have nobody (state : ¬ core.Attending) : core.waiters = 0 := before.resolve_left state
  cases move with
  | notifies | attaches | cancels | aborts => exact .inr rfl
  | waits requests | begins requests | reverses requests | asks _ requests => exact requests.elim
  | joins task => exact stays join_state join_waiters
  | passes | contradicts | checked | started | misses => exact stays release_state release_waiters
  | checks | reports => exact stays rfl rfl
  | starts => exact .inl (.inr (.inl rfl))
  | cleansUp fast build granted takes state => exact .inr (nobody (by simp [Attending, state]))
  | ends stopping lock state =>
    right
    simpa [moveTo] using nobody (by simp [Attending, state])
  | endsAgain => exact .inl (.inl (by simp))
  | shutsDown state => exact .inr (nobody (by simp [Attending, state]))

end Core

namespace Latent

variable {settings : Settings} {worker : Latent}

theorem undisturbed_unasked {event : Event} (other : ∀ build, event ≠ .substantiate build) :
    worker.Undisturbed unasked event := by
  cases event with
  | substantiate build => exact absurd rfl (other build)
  | resume => exact fun _ _ => trivial
  | machineReturns run start_success =>
    cases start_success with
    | none => trivial
    | some => exact fun _ _ _ _ => trivial
  | attachedReturns => exact fun _ => trivial
  | _ => trivial

/-- Whatever happens to a worker in one of the states in which it may be waited for, it stays in them or notifies. -/
theorem leaves_notified (settings : Settings) (tidy : worker.core.Tidy) (attending : worker.core.Attending) (event : Event) :
    (worker.step settings event).1.core.Attending ∨ (worker.step settings event).1.core.waiters = 0 := by
  by_cases asked : ∃ build, event = .substantiate build
  · -- a further request waits with the others
    obtain ⟨build, rfl⟩ := asked
    left
    rcases attending with state | state | state <;> simp [Latent.step, Latent.substantiate, Attending, state]
  · have other : ∀ build, event ≠ .substantiate build := fun build same => asked ⟨build, same⟩
    have path : worker.core.Path unasked _ _ := step_path settings unasked_lawful tidy (undisturbed_unasked other)
    exact path.preserves Move.notified (.inl attending)

end Latent

/-- In every patient run somebody waits only in the states that are left with a notification, or while a forced
insubstantiation is about to bring one of them about, which never returns early then. -/
theorem nobody_left_waiting (settings : Settings) (events : List Event)
    (undisturbed : Always (Latent.step settings) (Latent.Undisturbed patient) .new events) :
    let worker := final (Latent.step settings) .new events
    worker.core.Attended ∧
      (∀ fast build, worker.core.lock = .granted (.insubstantiate fast (some build)) → worker.core.waiters ≠ 0 →
        worker.core.state ≠ .notSubstantiated ∧ worker.core.state ≠ .shutDown) ∧
      ∀ event, worker.core.Attending → ¬ (worker.step settings event).1.core.Attending →
        (worker.step settings event).1.core.waiters = 0 := by
  intro worker
  let invariant := fun (worker : Latent) => worker.core.Tidy ∧ worker.core.Attended
  have preserved : ∀ worker event, invariant worker → worker.Undisturbed patient event →
      invariant (Latent.step settings worker event).1 := by
    rintro worker event ⟨tidy, attended⟩ now
    have path : worker.core.Path patient _ _ := Latent.step_path settings patient_lawful tidy now
    have moved : ∀ {core last : Core} {calls : List Call}, core.Move patient calls last →
        core.Tidy ∧ core.Attended → last.Tidy ∧ last.Attended :=
      fun move both => ⟨move.tidy both.1, move.attended both.1 both.2⟩
    exact path.preserves moved ⟨tidy, attended⟩
  have initially : invariant .new := ⟨fun _ => rfl, fun some => absurd rfl some⟩
  obtain ⟨tidy, attended⟩ : invariant worker := invariant_of_always preserved initially undisturbed
  refine ⟨attended, fun fast build _ some => ⟨fun state => ?_, fun state => ?_⟩, fun event attending left => ?_⟩
  · exact some (attended.nobody (.inl state))
  · exact some (attended.nobody (.inr (.inr state)))
  · exact (Latent.leaves_notified settings tidy attending event).resolve_left left

/-- A worker that loses its connection while nothing else goes on, and is wanted again. -/
def reconnects : List Event :=
  [.substantiate (some 1), .startInstanceReturns true, .runGoesOn 0, .attached, .attachedReturns true, .detached,
    .substantiate (some 2)]

theorem reconnects_attended :
    let worker := final (Latent.step .cloud) .new reconnects
    worker.core.Attended ∧
      (∀ fast build, worker.core.lock = .granted (.insubstantiate fast (some build)) → worker.core.waiters ≠ 0 →
        worker.core.state ≠ .notSubstantiated ∧ worker.core.state ≠ .shutDown) ∧
      ∀ event, worker.core.Attending → ¬ (worker.step .cloud event).1.core.Attending →
        (worker.step .cloud event).1.core.waiters = 0 := by
  refine nobody_left_waiting .cloud reconnects ?_
  exact ⟨⟨trivial, nofun⟩, trivial, trivial, trivial, fun _ => trivial, trivial, ⟨trivial, fun _ _ => nofun⟩, trivial⟩

/-- The worker attaches before `start_instance` has returned, and loses its connection again. An insubstantiation
waits for the lock, and behind it the one that a new build forces. -/
def overtaken : List Event :=
  [.substantiate (some 1), .attached, .attachedReturns true, .detached, .insubstantiate false, .substantiate (some 2),
    .startInstanceReturns true, .resume, .insubstantiated, .resume]

/-- The second build waits, and nothing is going on. -/
theorem overtaken_waits :
    let worker := final (Latent.step .cloud) .new overtaken
    worker.core = ⟨.notSubstantiated, .free, [], 1⟩ ∧ ¬ worker.core.Attended := by
  refine ⟨by decide, fun attended => ?_⟩
  rcases attended (by decide) with (now | now | now) | ⟨now, _⟩ <;> exact absurd now (by decide)

end Umbilical.Worker
