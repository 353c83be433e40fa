import Umbilical.Worker.Moves

set_option autoImplicit false

/-!
# Instances are started and stopped in turn

Two observers of a latent worker. One sees to it that the calls for its instance never
overlap and that no assertion fails, which holds of every run. The other one wants strict
alternation, no start after a cancellation, and none but the documented transitions.
-/

namespace Umbilical.Worker

open Interleaving
open Umbilical.Worker.Core

/-- The transitions that the class documents. -/
def documented : States → States → Bool
  -- substantiate()
  | .notSubstantiated, .substantiating | .insubstantiating, .insubstantiatingSubstantiating => true
  -- _substantiate() and attached()
  | .substantiating, .substantiatingStarting => true
  | .substantiating, .substantiated | .substantiatingStarting, .substantiated => true
  -- insubstantiate()
  | .substantiated, .insubstantiating | .insubstantiatingSubstantiating, .insubstantiating => true
  | .substantiating, .insubstantiating | .substantiating, .insubstantiatingSubstantiating => true
  | .substantiatingStarting, .insubstantiating | .substantiatingStarting, .insubstantiatingSubstantiating => true
  | .insubstantiatingSubstantiating, .substantiating | .insubstantiating, .notSubstantiated => true
  -- stopService()
  | .notSubstantiated, .shutDown => true
  | _, _ => false

/-- The other transition, of a worker that is substantiated again because its connection dropped. -/
def transition (forced : Bool) (before after : States) : Bool :=
  documented before after || (forced && decide (before = .substantiated ∧ after = .insubstantiatingSubstantiating))

inductive Instance where
  | down
  | starting
  | up
  | stopping
  deriving DecidableEq

structure Phase where
  running : Instance
  cancelled : Bool
  deriving DecidableEq

/-- A call for the instance is in progress or not. -/
def serial : Bool → Call → Option Bool
  | busy, .start_instance _ | busy, .stop_instance _ => if busy then none else some true
  | busy, .started | busy, .stopped => if busy then some false else none
  | _, .assertionFails => none
  | busy, _ => some busy

def alternates (forced : Bool) (phase : Phase) : Call → Option Phase
  | .requested => some { phase with cancelled := false }
  | .cancelled => some { phase with cancelled := true }
  | .start_instance _ =>
      if phase.running = .down ∧ phase.cancelled = false then some { phase with running := .starting } else none
  | .started => if phase.running = .starting then some { phase with running := .up } else none
  | .stop_instance _ => if phase.running = .up then some { phase with running := .stopping } else none
  | .stopped => if phase.running = .stopping then some { phase with running := .down } else none
  | .moved before after => if transition forced before after then some phase else none
  | .assertionFails => none

/-- Everything may happen. -/
def unrestricted : Policy where
  requests := True
  asks _ := True
  takes _ _ _ := True
  attaches := True

/-- A substantiation starts an instance only while it is wanted, a forced insubstantiation cancels no
substantiation, and no worker attaches before there is an instance. -/
def orderly (forced : Bool) : Policy where
  requests := True
  asks build := forced = true ∨ build = none
  takes state _ task :=
    match task with
    | .substantiate _ true _ => state = .substantiating
    | .insubstantiate _ (some _) => forced = true ∧ state ≠ .substantiating ∧ state ≠ .substantiatingStarting
    | _ => True
  attaches := False

theorem unrestricted_lawful : unrestricted.Lawful where
  plain _ _ := trivial
  forced _ _ _ := trivial
  check _ := trivial
  stop _ := trivial
  starting _ _ _ _ := trivial

theorem orderly_lawful (forced : Bool) : (orderly forced).Lawful where
  plain _ _ := trivial
  forced fast build asks := by
    cases build with
    | none => trivial
    | some build => exact ⟨asks.resolve_right nofun, nofun, nofun⟩
  check _ := trivial
  stop _ := trivial
  starting _ _ start_success _ := by
    cases start_success with
    | false => trivial
    | true => rfl

def Lock.insubstantiates : Lock → Bool
  | .insubstantiating _ => true
  | _ => false

def Lock.busy : Lock → Bool
  | .starting _ => true
  | .insubstantiating stopping => stopping
  | _ => false

namespace Lock

@[simp] theorem insubstantiates_granted (task : Task) : (granted task).insubstantiates = false := rfl
@[simp] theorem insubstantiates_starting (dont_wait_to_attach : Bool) : (starting dont_wait_to_attach).insubstantiates = false := rfl
@[simp] theorem insubstantiates_insubstantiating (stopping : Bool) : (insubstantiating stopping).insubstantiates = true := rfl
@[simp] theorem insubstantiates_checking : checking.insubstantiates = false := rfl
@[simp] theorem insubstantiates_reporting : reporting.insubstantiates = false := rfl
@[simp] theorem busy_granted (task : Task) : (granted task).busy = false := rfl
@[simp] theorem busy_starting (dont_wait_to_attach : Bool) : (starting dont_wait_to_attach).busy = true := rfl
@[simp] theorem busy_insubstantiating (stopping : Bool) : (insubstantiating stopping).busy = stopping := rfl
@[simp] theorem busy_checking : checking.busy = false := rfl
@[simp] theorem busy_reporting : reporting.busy = false := rfl

end Lock

namespace Core

variable {core last : Core} {calls : List Call} {task : Task}

@[simp] theorem release_insubstantiates : core.release.lock.insubstantiates = false := by
  unfold release
  split <;> rfl

@[simp] theorem release_busy : core.release.lock.busy = false := by
  unfold release
  split <;> rfl

@[simp] theorem join_insubstantiates : (core.join task).lock.insubstantiates = core.lock.insubstantiates := by
  unfold join
  split
  · rename_i free
    rw [free]
    rfl
  · rfl

@[simp] theorem join_busy : (core.join task).lock.busy = core.lock.busy := by
  unfold join
  split
  · rename_i free
    rw [free]
    rfl
  · rfl

/-! ## Every run -/

/-- The lock is held by an insubstantiation exactly in its two states. -/
def Exclusive (core : Core) : Prop := core.lock.insubstantiates = true ↔
  core.state = .insubstantiating ∨ core.state = .insubstantiatingSubstantiating

theorem Exclusive.release (exclusive : core.Exclusive) (other : core.lock.insubstantiates = false) :
    core.release.Exclusive := by
  simpa [Exclusive, other] using exclusive

theorem Move.exclusive {policy : Policy} (move : core.Move policy calls last) (exclusive : core.Exclusive) :
    last.Exclusive := by
  cases move with
  | notifies | waits => exact exclusive
  | begins _ state | reverses _ state | cancels state => simpa [Exclusive, state] using exclusive
  | attaches state =>
    rcases state with ⟨state, _⟩ | state
    · simpa [Exclusive, state] using exclusive
    · simpa [Exclusive, state] using exclusive
  | shutsDown state => simpa [Exclusive, moveTo, state] using exclusive
  | asks | joins => simpa [Exclusive] using exclusive
  | passes task granted | contradicts fast build granted => exact exclusive.release (by simp [granted])
  | checks granted => simpa [Exclusive, granted] using exclusive
  | reports checking => simpa [Exclusive, checking] using exclusive
  | checked checking =>
    rcases checking with checking | checking
    · exact exclusive.release (by simp [checking])
    · exact exclusive.release (by simp [checking])
  | starts build dont_wait_to_attach => simp [Exclusive]
  | started dont_wait_to_attach starting => exact exclusive.release (by simp [starting])
  | cleansUp fast build | aborts fast build => cases build <;> simp [Exclusive]
  | ends | endsAgain => simp [Exclusive, moveTo]
  | misses stopping lock state other => simp [Exclusive, state, other]

theorem serial_cancels (busy : Bool) : core.cancels.foldlM serial busy = some busy := by
  unfold cancels
  split <;> rfl

theorem serial_ended (stopping : Bool) : (ended stopping).foldlM serial stopping = some false := by
  cases stopping <;> rfl

theorem Move.serial {policy : Policy} (move : core.Move policy calls last) (exclusive : core.Exclusive) :
    calls.foldlM serial core.lock.busy = some last.lock.busy := by
  cases move with
  | notifies | waits | begins | reverses | attaches | shutsDown => rfl
  | asks | joins => simp [Umbilical.Worker.serial]
  | passes task granted => simp [granted]
  | contradicts fast build granted state =>
    have held := exclusive.mpr state
    simp [granted] at held
  | checks granted => simp [granted]
  | reports checking => simp [checking]
  | checked checking => rcases checking with checking | checking <;> simp [checking]
  | starts build dont_wait_to_attach granted => simp [Umbilical.Worker.serial, granted]
  | started dont_wait_to_attach starting => simp [Umbilical.Worker.serial, starting]
  | cleansUp fast build granted => simp [Umbilical.Worker.serial, granted]
  | aborts fast build granted takes state =>
    rw [List.foldlM_append, List.foldlM_cons]
    simp only [Umbilical.Worker.serial, granted, Option.bind_eq_bind, Option.bind_some, serial_cancels]
    by_cases starting : core.state = .substantiatingStarting
    · simp [starting, Umbilical.Worker.serial]
    · simp [starting]
  | ends stopping lock | endsAgain stopping _ lock =>
    rw [List.foldlM_append, lock]
    simp [serial_ended, Umbilical.Worker.serial]
  | misses stopping lock state other =>
    have held := exclusive.mp (by simp [lock])
    rcases held with now | now
    · exact absurd now state
    · exact absurd now other
  | cancels state =>
    rw [List.foldlM_cons]
    simp [Umbilical.Worker.serial, serial_cancels]

/-! ## Orderly runs -/

/-- How far the calls for the instance are. -/
def running (core : Core) : Instance :=
  match core.lock with
  | .starting _ => .starting
  | .insubstantiating true => .stopping
  | _ => if core.state = .substantiatingStarting ∨ core.state = .substantiated then .up else .down

structure Alternating (core : Core) (phase : Phase) : Prop where
  exclusive : core.Exclusive
  starting : ∀ dont_wait_to_attach, core.lock = .starting dont_wait_to_attach →
    core.state = .substantiatingStarting ∨ core.state = .substantiated
  running : phase.running = core.running
  cancelled : phase.cancelled = true →
    core.state = .insubstantiating ∨ core.state = .notSubstantiated ∨ core.state = .shutDown

variable {phase : Phase} {forced : Bool}

theorem running_idle {core : Core} (idle : core.lock.busy = false) :
    core.running = if core.state = .substantiatingStarting ∨ core.state = .substantiated then .up else .down := by
  unfold running
  split
  · rename_i lock
    simp [lock] at idle
  · rename_i lock
    simp [lock] at idle
  · rfl

theorem running_join : (core.join task).running = core.running := by
  unfold running join
  cases lock : core.lock <;> simp

theorem Alternating.busy (alternating : core.Alternating phase) (busy : core.lock.busy = true) :
    (∃ dont_wait_to_attach, core.lock = .starting dont_wait_to_attach) ∧
        (core.state = .substantiatingStarting ∨ core.state = .substantiated) ∨
      core.lock = .insubstantiating true ∧
        (core.state = .insubstantiating ∨ core.state = .insubstantiatingSubstantiating) := by
  cases lock : core.lock with
  | starting dont_wait_to_attach => exact .inl ⟨⟨_, rfl⟩, alternating.starting _ lock⟩
  | insubstantiating stopping =>
    obtain rfl : stopping = true := by simpa [lock] using busy
    exact .inr ⟨rfl, alternating.exclusive.mp (by simp [lock])⟩
  | free | granted | checking | reporting => simp [lock, Lock.busy] at busy

/-- In a state of which nothing is being started or stopped. -/
theorem Alternating.idle (alternating : core.Alternating phase)
    (state : core.state = .notSubstantiated ∨ core.state = .substantiating ∨ core.state = .shutDown) :
    core.lock.busy = false ∧ phase.running = .down := by
  have idle : core.lock.busy = false := by
    by_contra busy
    rcases alternating.busy (by simpa using busy) with ⟨_, other | other⟩ | ⟨_, other | other⟩ <;>
      simp [other] at state
  refine ⟨idle, ?_⟩
  rw [alternating.running, running_idle idle]
  rcases state with state | state | state <;> simp [state]

/-- A step that leaves the state as it is, and the lock as busy as it is. -/
theorem Alternating.quiet (alternating : core.Alternating phase) (state : last.state = core.state)
    (exclusive : last.Exclusive) (before : core.lock.busy = false) (after : last.lock.busy = false) :
    last.Alternating phase where
  exclusive := exclusive
  starting _ starting := by simp [starting] at after
  running := by rw [alternating.running, running_idle before, running_idle after, state]
  cancelled := by simpa only [state] using alternating.cancelled

/-- A new request puts an earlier cancellation to rest. -/
theorem Alternating.request (alternating : core.Alternating phase) :
    { core with waiters := core.waiters + 1 }.Alternating { phase with cancelled := false } where
  exclusive := alternating.exclusive
  starting := alternating.starting
  running := alternating.running
  cancelled := nofun

theorem Alternating.join (alternating : core.Alternating phase) (task : Task) : (core.join task).Alternating phase where
  exclusive := by simpa [Exclusive] using alternating.exclusive
  starting dont_wait_to_attach starting := by
    unfold Core.join at starting
    split at starting
    · cases starting
    · simpa using alternating.starting _ starting
  running := by rw [alternating.running, running_join]
  cancelled := by simpa using alternating.cancelled

theorem alternates_cancels (core : Core) (forced : Bool) (phase : Phase) :
    ∃ cancelled, core.cancels.foldlM (alternates forced) phase = some { phase with cancelled := cancelled } := by
  unfold cancels
  split
  · exact ⟨phase.cancelled, rfl⟩
  · exact ⟨true, rfl⟩

theorem alternates_ended {stopping : Bool} (running : stopping = true → phase.running = .stopping)
    (down : stopping = false → phase.running = .down) :
    (ended stopping).foldlM (alternates forced) phase = some { phase with running := .down } := by
  cases stopping with
  | false =>
    have same : { phase with running := .down } = phase := by rw [← down rfl]
    rw [same]
    rfl
  | true => simp [ended, alternates, running rfl]

theorem Alternating.insubstantiating (alternating : core.Alternating phase) {stopping : Bool}
    (lock : core.lock = .insubstantiating stopping) :
    (stopping = true → phase.running = .stopping) ∧ (stopping = false → phase.running = .down) := by
  have state := alternating.exclusive.mp (by simp [lock])
  rw [alternating.running]
  unfold Core.running
  rw [lock]
  cases stopping with
  | true => exact ⟨fun _ => rfl, nofun⟩
  | false =>
    refine ⟨nofun, fun _ => ?_⟩
    rcases state with state | state <;> simp [state]

theorem Move.alternates (move : core.Move (orderly forced) calls last) (alternating : core.Alternating phase) :
    ∃ next, calls.foldlM (alternates forced) phase = some next ∧ last.Alternating next := by
  have exclusive := move.exclusive alternating.exclusive
  cases move with
  | notifies => exact ⟨phase, rfl, alternating.exclusive, alternating.starting, alternating.running, alternating.cancelled⟩
  | waits => exact ⟨_, rfl, alternating.request⟩
  | begins _ state =>
    obtain ⟨idle, down⟩ := alternating.idle (.inl state)
    refine ⟨{ phase with cancelled := false }, by simp [Umbilical.Worker.alternates, transition, documented], exclusive,
      fun _ starting => ?_, ?_, nofun⟩
    · have lock : core.lock = .starting _ := starting
      simp [lock] at idle
    · have idle' : { core with state := .substantiating, waiters := core.waiters + 1 }.lock.busy = false := idle
      rw [running_idle idle']
      simpa using down
  | reverses _ state =>
    refine ⟨{ phase with cancelled := false }, by simp [Umbilical.Worker.alternates, transition, documented], exclusive,
      fun _ starting => ?_, ?_, nofun⟩
    · have other := alternating.starting _ starting
      simp [state] at other
    · have before := alternating.running
      unfold running at before ⊢
      simpa [state] using before
  | asks build => exact ⟨_, rfl, alternating.request.join _⟩
  | joins task => exact ⟨_, rfl, alternating.join task⟩
  | passes task granted => exact ⟨_, rfl, alternating.quiet (by simp) exclusive (by simp [granted]) (by simp)⟩
  | contradicts fast build granted state =>
    have held := alternating.exclusive.mpr state
    simp [granted] at held
  | checks granted => exact ⟨_, rfl, alternating.quiet rfl exclusive (by simp [granted]) (by simp)⟩
  | reports checking => exact ⟨_, rfl, alternating.quiet rfl exclusive (by simp [checking]) (by simp)⟩
  | checked checking =>
    have idle : core.lock.busy = false := by rcases checking with lock | lock <;> simp [lock]
    exact ⟨_, rfl, alternating.quiet (by simp) exclusive idle (by simp)⟩
  | starts build dont_wait_to_attach granted takes =>
    have state : core.state = .substantiating := takes
    have down := (alternating.idle (.inr (.inl state))).2
    have wanted : phase.cancelled = false := by
      by_contra cancelled
      rcases alternating.cancelled (by simpa using cancelled) with other | other | other <;> simp [state] at other
    refine ⟨{ phase with running := .starting }, ?_, exclusive, fun _ _ => .inl rfl, rfl, fun cancelled => ?_⟩
    · simp [Umbilical.Worker.alternates, transition, documented, state, down, wanted]
    · simp [wanted] at cancelled
  | started dont_wait_to_attach starting =>
    have state := alternating.starting _ starting
    have running : phase.running = .starting := by
      rw [alternating.running]
      simp [Core.running, starting]
    refine ⟨{ phase with running := .up }, by simp [Umbilical.Worker.alternates, running], exclusive, fun _ lock => ?_, ?_, ?_⟩
    · have idle : core.release.lock.busy = false := release_busy
      simp [lock] at idle
    · rw [running_idle release_busy]
      simp [state]
    · simpa using alternating.cancelled
  | cleansUp fast build granted takes state =>
    have up : phase.running = .up := by
      rw [alternating.running, running_idle (by simp [granted])]
      simp [state]
    have wanted : phase.cancelled = false := by
      by_contra cancelled
      rcases alternating.cancelled (by simpa using cancelled) with other | other | other <;> simp [state] at other
    refine ⟨{ phase with running := .stopping }, ?_, exclusive, nofun, rfl, fun cancelled => ?_⟩
    · cases build with
      | none => simp [Umbilical.Worker.alternates, transition, documented, up]
      | some build =>
        have allowed : forced = true := takes.1
        simp [Umbilical.Worker.alternates, transition, documented, up, allowed]
    · simp [wanted] at cancelled
  | aborts fast build granted takes state =>
    cases build with
    | some build =>
      rcases state with state | state
      · exact absurd state takes.2.1
      · exact absurd state takes.2.2
    | none =>
      obtain ⟨cancelled, accepted⟩ := core.alternates_cancels forced phase
      have moves : transition forced core.state .insubstantiating = true := by
        rcases state with state | state <;> simp [transition, documented, state]
      have first : (.moved core.state (if (none : Option Nat).isSome then .insubstantiatingSubstantiating
          else .insubstantiating) :: core.cancels).foldlM (Umbilical.Worker.alternates forced) phase =
          some { phase with cancelled := cancelled } := by
        rw [List.foldlM_cons]
        simp [Umbilical.Worker.alternates, moves, accepted]
      by_cases starting : core.state = .substantiatingStarting
      · have up : phase.running = .up := by
          rw [alternating.running, running_idle (by simp [granted])]
          simp [starting]
        refine ⟨{ running := .stopping, cancelled := cancelled }, ?_, exclusive, nofun, ?_, fun _ => .inl rfl⟩
        · rw [List.foldlM_append, first]
          simp [Umbilical.Worker.alternates, starting, up]
        · simp [Core.running, starting]
      · have waits : core.state = .substantiating := state.resolve_right starting
        have down := (alternating.idle (.inr (.inl waits))).2
        refine ⟨{ phase with cancelled := cancelled }, ?_, exclusive, nofun, ?_, fun _ => .inl rfl⟩
        · rw [List.foldlM_append, first]
          simp [starting]
        · simp [Core.running, starting, down]
  | ends stopping lock state =>
    obtain ⟨stops, down⟩ := alternating.insubstantiating lock
    refine ⟨{ phase with running := .down }, ?_, exclusive, fun _ starting => ?_, ?_, fun _ => by simp [moveTo]⟩
    · rw [List.foldlM_append, alternates_ended stops down]
      simp [Umbilical.Worker.alternates, transition, documented]
    · have idle : (core.moveTo .notSubstantiated).release.lock.busy = false := release_busy
      simp [starting] at idle
    · rw [running_idle release_busy]
      simp [moveTo]
  | endsAgain stopping tasks lock state =>
    obtain ⟨stops, down⟩ := alternating.insubstantiating lock
    refine ⟨{ phase with running := .down }, ?_, exclusive, fun _ starting => ?_, ?_, fun cancelled => ?_⟩
    · rw [List.foldlM_append, alternates_ended stops down]
      simp [Umbilical.Worker.alternates, transition, documented]
    · have idle : { core with state := .substantiating, waiting := core.waiting ++ tasks }.release.lock.busy = false :=
        release_busy
      simp [starting] at idle
    · rw [running_idle release_busy]
      simp
    · rcases alternating.cancelled cancelled with other | other | other <;> simp [state] at other
  | misses stopping lock state other =>
    rcases alternating.exclusive.mp (by simp [lock]) with now | now
    · exact absurd now state
    · exact absurd now other
  | attaches state =>
    have starting : core.state = .substantiatingStarting := state.resolve_left fun now => now.2.elim
    refine ⟨phase, ?_, exclusive, fun _ _ => .inr rfl, ?_, fun cancelled => ?_⟩
    · simp [Umbilical.Worker.alternates, transition, documented, starting]
    · have before := alternating.running
      unfold running at before ⊢
      simpa [starting] using before
    · rcases alternating.cancelled cancelled with other | other | other <;> simp [starting] at other
  | shutsDown state =>
    obtain ⟨idle, down⟩ := alternating.idle (.inl state)
    refine ⟨phase, by simp [Umbilical.Worker.alternates, transition, documented], exclusive, fun _ starting => ?_, ?_,
      fun _ => .inr (.inr rfl)⟩
    · have lock : core.lock = .starting _ := starting
      simp [lock] at idle
    · have idle' : (core.moveTo .shutDown).lock.busy = false := idle
      rw [down, running_idle idle']
      simp [moveTo]
  | cancels state =>
    obtain ⟨cancelled, accepted⟩ := core.alternates_cancels forced phase
    refine ⟨{ phase with cancelled := cancelled }, ?_, exclusive, fun _ starting => ?_, ?_, fun _ => .inl rfl⟩
    · rw [List.foldlM_cons]
      simp [Umbilical.Worker.alternates, transition, documented, accepted]
    · have other := alternating.starting _ starting
      simp [state] at other
    · have before := alternating.running
      unfold running at before ⊢
      simpa [state] using before

end Core

theorem undisturbed_unrestricted (worker : Latent) (event : Event) : worker.Undisturbed unrestricted event := by
  cases event with
  | substantiate => exact ⟨trivial, fun _ _ => trivial⟩
  | resume => exact fun _ _ => trivial
  | machineReturns run start_success =>
    cases start_success with
    | none => trivial
    | some => exact fun _ _ _ _ => trivial
  | attachedReturns => exact fun _ => trivial
  | _ => trivial

/-- In every run the calls for the instance do not overlap and no assertion fails. In orderly runs they also alternate
strictly from a start on, nothing is started after a cancellation until the worker is requested again, and the state
only moves along the documented transitions, or from `SUBSTANTIATED` to `INSUBSTANTIATING_SUBSTANTIATING`. -/
theorem instances_alternate (settings : Settings) (events : List Event) :
    (∃ busy, (seen (Latent.step settings) .new events).foldlM serial false = some busy) ∧
    ∀ forced, Always (Latent.step settings) (Latent.Undisturbed (orderly forced)) .new events →
      ∃ phase, (seen (Latent.step settings) .new events).foldlM (alternates forced) ⟨.down, false⟩ = some phase := by
  have tidy : Latent.new.core.Tidy := fun _ => rfl
  have exclusive : Latent.new.core.Exclusive := by simp [Exclusive, Latent.new, Lock.insubstantiates]
  constructor
  · let related := fun (worker : Latent) (busy : Bool) =>
      worker.core.Tidy ∧ worker.core.Exclusive ∧ worker.core.lock.busy = busy
    have followed : ∀ worker event busy, related worker busy → True →
        ∃ next, (Latent.step settings worker event).2.foldlM serial busy = some next ∧
          related (Latent.step settings worker event).1 next := by
      rintro worker event _ ⟨tidy, exclusive, rfl⟩ _
      have path : worker.core.Path unrestricted _ _ :=
        Latent.step_path settings unrestricted_lawful tidy (undisturbed_unrestricted worker event)
      have moved : ∀ {core last : Core} {calls : List Call} {busy : Bool}, core.Move unrestricted calls last →
          core.Exclusive ∧ core.lock.busy = busy →
          ∃ next, calls.foldlM serial busy = some next ∧ last.Exclusive ∧ last.lock.busy = next := by
        rintro core last calls _ move ⟨exclusive, rfl⟩
        exact ⟨_, move.serial exclusive, move.exclusive exclusive, rfl⟩
      obtain ⟨next, accepted, kept⟩ := path.observed moved ⟨exclusive, rfl⟩
      exact ⟨next, accepted, path.tidy tidy, kept⟩
    obtain ⟨busy, accepted, _⟩ :=
      observed_of_always followed (⟨tidy, exclusive, rfl⟩ : related .new false) (always_true _ events)
    exact ⟨busy, accepted⟩
  · intro forced undisturbed
    let related := fun (worker : Latent) (phase : Phase) => worker.core.Tidy ∧ worker.core.Alternating phase
    have followed : ∀ worker event phase, related worker phase → worker.Undisturbed (orderly forced) event →
        ∃ next, (Latent.step settings worker event).2.foldlM (alternates forced) phase = some next ∧
          related (Latent.step settings worker event).1 next := by
      rintro worker event phase ⟨tidy, alternating⟩ now
      have path : worker.core.Path (orderly forced) _ _ := Latent.step_path settings (orderly_lawful forced) tidy now
      obtain ⟨next, accepted, kept⟩ := path.observed Move.alternates alternating
      exact ⟨next, accepted, path.tidy tidy, kept⟩
    have initially : related .new ⟨.down, false⟩ := ⟨tidy, exclusive, nofun, rfl, nofun⟩
    obtain ⟨phase, accepted, _⟩ := observed_of_always followed initially undisturbed
    exact ⟨phase, accepted⟩

/-- An instance that is started for a build, attaches, and is stopped in the end. -/
def served : List Event :=
  [.substantiate (some 1), .startInstanceReturns true, .runGoesOn 0, .attached, .attachedReturns true, .insubstantiate false,
    .insubstantiated]

theorem served_alternates :
    ∃ phase, (seen (Latent.step .cloud) .new served).foldlM (alternates false) ⟨.down, false⟩ = some phase := by
  refine (instances_alternate .cloud served).2 false ?_
  refine ⟨⟨trivial, nofun⟩, trivial, trivial, trivial, ?_, trivial, trivial, trivial⟩
  intro state
  exact absurd state (by decide)

/-- Two insubstantiations, the second of which waits for the first one and cancels the substantiation that was asked
for in between. -/
def recalled : List Event :=
  served.dropLast ++ [.insubstantiate false, .substantiate (some 2), .insubstantiated, .resume, .insubstantiated, .resume]

/-- The instance is started although its substantiation has been cancelled. -/
theorem recalled_starts :
    (seen (Latent.step .cloud) .new recalled).drop 8 =
      [.requested, .moved .insubstantiating .insubstantiatingSubstantiating, .stopped,
        .moved .insubstantiatingSubstantiating .substantiating, .moved .substantiating .insubstantiating, .cancelled,
        .moved .insubstantiating .notSubstantiated, .moved .notSubstantiated .substantiatingStarting,
        .start_instance (some 2)] ∧
      (seen (Latent.step .cloud) .new recalled).foldlM (alternates true) ⟨.down, false⟩ = none := by
  decide

end Umbilical.Worker
