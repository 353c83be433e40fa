import Mathlib.Logic.Function.Basic
import Umbilical.Requests.Severity
import Umbilical.Shared.Interleaving

set_option autoImplicit false

/-!
# Cancelling a request while its build is started

The distributor, `_buildrequest_canceled` and `Build.startBuild` hand a marker for each
request over in `_starting_brid_to_cancel`. Between any two events below the code waits:
for the database, for the properties of the build, or for a callback.
-/

namespace Umbilical.Process

namespace Cancellation

open Interleaving
open Umbilical.Requests (CANCELLED)

/-- A value, as far as `isinstance(value, str)` can tell. `False` is one of the others. -/
inductive Reason where
  | text (reason : String)
  | other
  deriving DecidableEq

/-- Who inserted the row into `buildrequest_claims`. The row itself only names the master. -/
inductive Claimant where
  | handler
  | cancel
  | elsewhere
  deriving DecidableEq

/-- Where `_maybeStartBuildsOnBuilder` is with a request, and then the build that it has started. -/
inductive Stage where
  | idle
  | claiming
  | claimed (ok : Bool)
  | starting
  | unclaiming
  | unclaimed
  | adding
  | added
  | running
  | raised
  deriving DecidableEq

namespace Stage

def inProgress : Stage → Bool
  | .claiming | .claimed _ | .starting | .unclaiming | .unclaimed | .adding | .added => true
  | _ => false

/-- The handler has the claim and no build takes messages yet. -/
def starts : Stage → Bool
  | .claimed true | .starting | .unclaiming | .adding | .added => true
  | _ => false

end Stage

/-- Where a call of `_buildrequest_canceled` is. -/
inductive Call where
  | none
  | claiming (reason : Reason)
  | won
  | refused (reason : Reason)
  | querying
  | found (builds : Bool)
  | returned
  deriving DecidableEq

def Call.inFlight : Call → Bool
  | .none | .returned => false
  | _ => true

structure Request where
  claim : Option Claimant
  -- the results, once it is complete
  complete : Option Int
  -- _starting_brid_to_cancel.get(brid)
  marker : Option Reason
  handler : Stage
  cancels : Nat → Call
  -- a build of the request has been added
  builds : Bool
  -- stopBuild has been called
  stopped : Bool
  -- another master has had the claim since the cancel was delivered
  elsewhere : Nat → Bool

/-- The events of a cancel carry its number. -/
inductive Event where
  | choose
  | claimTransaction
  | claimReturns
  | maybeStartBuildReturns (started : Bool)
  | unclaimTransaction
  | unclaimReturns
  | addBuild
  | startConsuming
  | raises
  | deliver (cancel : Nat) (reason : Reason)
  | cancelTransaction (cancel : Nat)
  | cancelRefused (cancel : Nat)
  | cancelCompletes (cancel : Nat)
  | query (cancel : Nat)
  | produce (cancel : Nat)
  | otherClaims
  | otherUnclaims
  | otherCompletes (results : Int)
  deriving DecidableEq

namespace Request

def new : Request where
  claim := none
  complete := none
  marker := none
  handler := .idle
  cancels := fun _ => .none
  builds := false
  stopped := false
  elsewhere := fun _ => false

variable (request : Request)

def add_in_progress_buildrequest : Request := { request with marker := some .other }

def remove_in_progress_buildrequest : Request := { request with marker := none }

def maybe_cancel_in_progress_buildrequest (reason : Reason) : Request :=
  if request.marker.isSome then { request with marker := some reason } else request

/-- The end of the start-up that the build's own consumer is part of. -/
def checkCancelled : Request :=
  { request.remove_in_progress_buildrequest with
    stopped := match request.marker with
      | some (.text _) => true
      | _ => request.stopped }

def setCancel (cancel : Nat) (call : Call) : Request :=
  { request with cancels := Function.update request.cancels cancel call }

def step : Event → Request
  | .choose =>
      match request.handler with
      | .idle => { request.add_in_progress_buildrequest with handler := .claiming }
      | _ => request
  | .claimTransaction =>
      match request.handler, request.claim with
      | .claiming, none => { request with handler := .claimed true, claim := some .handler }
      | .claiming, some _ => { request with handler := .claimed false }
      | _, _ => request
  | .claimReturns =>
      match request.handler with
      | .claimed true => { request with handler := .starting }
      -- the distributor starts over with a new chooser
      | .claimed false => { request with handler := .idle }
      | _ => request
  | .maybeStartBuildReturns started =>
      match request.handler with
      | .starting => { request with handler := if started then .adding else .unclaiming }
      | _ => request
  | .unclaimTransaction =>
      match request.handler with
      | .unclaiming => { request with handler := .unclaimed, claim := none }
      | _ => request
  | .unclaimReturns =>
      match request.handler with
      | .unclaimed => { request.remove_in_progress_buildrequest with handler := .idle }
      | _ => request
  | .addBuild =>
      match request.handler with
      | .adding => { request with handler := .added, builds := true }
      | _ => request
  | .startConsuming =>
      match request.handler with
      | .added => { request.checkCancelled with handler := .running }
      | _ => request
  | .raises => if request.handler.inProgress then { request with handler := .raised } else request
  | .deliver cancel reason =>
      match request.cancels cancel with
      | .none =>
          { request.setCancel cancel (.claiming reason) with
            elsewhere := Function.update request.elsewhere cancel (request.claim = some .elsewhere) }
      | _ => request
  | .cancelTransaction cancel =>
      match request.cancels cancel, request.claim with
      | .claiming _, none => { request.setCancel cancel .won with claim := some .cancel }
      | .claiming reason, some _ => request.setCancel cancel (.refused reason)
      | _, _ => request
  | .cancelRefused cancel =>
      match request.cancels cancel with
      | .refused reason => (request.maybe_cancel_in_progress_buildrequest reason).setCancel cancel .querying
      | _ => request
  | .cancelCompletes cancel =>
      match request.cancels cancel with
      | .won => { request.setCancel cancel .returned with complete := request.complete.or (some CANCELLED) }
      | _ => request
  | .query cancel =>
      match request.cancels cancel with
      | .querying => request.setCancel cancel (.found request.builds)
      | _ => request
  | .produce cancel =>
      match request.cancels cancel with
      -- a message only reaches a consumer that is there already
      | .found builds =>
          { request.setCancel cancel .returned with
            stopped := request.stopped || (builds && decide (request.handler = .running)) }
      | _ => request
  | .otherClaims =>
      match request.claim with
      | none =>
          { request with
            claim := some .elsewhere
            elsewhere := fun cancel => request.elsewhere cancel || decide (request.cancels cancel ≠ .none) }
      | _ => request
  | .otherUnclaims =>
      match request.claim, request.complete with
      | some .elsewhere, none => { request with claim := none }
      | _, _ => request
  | .otherCompletes results =>
      match request.claim, request.complete with
      | some .elsewhere, none => { request with complete := some results }
      | _, _ => request

/-- Nothing is in flight: no cancel is being handled, and the request is neither claimed nor started. -/
def Settled : Prop := (∀ cancel, (request.cancels cancel).inFlight = false) ∧
  (request.handler = .idle ∨ request.handler = .running)

/-- The cancel was not in vain. -/
def Answered (cancel : Nat) : Prop :=
  request.complete = some CANCELLED ∨ request.stopped = true ∨ request.elsewhere cancel = true

/-- The marker is there exactly while the request is claimed or started. -/
def Exact : Prop := request.marker.isSome = true ↔ request.handler.inProgress = true

/-- The handler's claim has turned this cancel away. -/
def TurnedAway (cancel : Nat) : Prop :=
  request.elsewhere cancel = false ∧
    match request.cancels cancel with
    | .refused _ | .querying | .found _ | .returned => True
    | _ => False

/-- Nothing raises, a start that fails has turned no cancel away, and the reason of a cancel that marks a
start is a `str`. -/
def Undisturbed : Event → Prop
  | .raises => request.handler.inProgress = false
  | .unclaimTransaction => request.handler = .unclaiming → ∀ cancel, ¬ request.TurnedAway cancel
  | .cancelRefused cancel =>
      request.cancels cancel = .refused .other → request.handler.starts = false
  | _ => True

/-- Nothing raises, and no claim fails. -/
def Orderly : Event → Prop
  | .raises => request.handler.inProgress = false
  | .claimReturns => request.handler ≠ .claimed false
  | _ => True

/-! ## What undisturbed events keep -/

def Marked : Prop := (∃ reason, request.marker = some (.text reason)) ∧ request.handler.starts = true

/-- The cancel has been answered, or will be by what is in flight. -/
def Covered (cancel : Nat) : Prop :=
  request.Answered cancel ∨ (∃ other, request.cancels other = .won) ∨ request.Marked

/-- What holds of a cancel at each point of its handling. -/
def Fine (cancel : Nat) : Prop :=
  match request.cancels cancel with
  | .none | .claiming _ => True
  | .won => request.claim = some .cancel
  | .refused _ => request.Covered cancel ∨ request.claim = some .handler
  | .querying => request.Covered cancel ∨ request.handler = .running
  | .found builds => request.Covered cancel ∨ (request.handler = .running ∧ builds = true)
  | .returned => request.Covered cancel

structure Sound (request : Request) : Prop where
  held : request.claim = some .handler ↔ request.handler.starts = true ∨ request.handler = .running
  calm : request.handler ≠ .raised
  mine : request.claim = some .cancel →
    request.complete = some CANCELLED ∨ request.complete = none ∧ ∃ cancel, request.cancels cancel = .won
  incomplete : request.claim = none ∨ request.claim = some .handler → request.complete = none
  away : request.claim = some .elsewhere → ∀ cancel, request.cancels cancel ≠ .none → request.elsewhere cancel = true
  built : request.handler = .added ∨ request.handler = .running → request.builds = true
  marked : request.handler.inProgress = true → request.marker.isSome = true
  fine : ∀ cancel, request.Fine cancel

theorem new_sound : new.Sound where
  held := by simp [new, Stage.starts]
  calm := nofun
  mine := nofun
  incomplete _ := rfl
  away := nofun
  built := by simp [new]
  marked := nofun
  fine _ := trivial

variable {request} {after : Request} {cancel : Nat}

theorem Covered.mono (covered : request.Covered cancel)
    (complete : request.complete = some CANCELLED → after.complete = some CANCELLED)
    (stopped : request.stopped = true → after.stopped = true)
    (elsewhere : request.elsewhere cancel = true → after.elsewhere cancel = true)
    (won : ∀ other, request.cancels other = .won → after.Covered cancel)
    (marked : request.Marked → after.Covered cancel) : after.Covered cancel := by
  rcases covered with (done | done | done) | ⟨other, done⟩ | done
  · exact .inl (.inl (complete done))
  · exact .inl (.inr (.inl (stopped done)))
  · exact .inl (.inr (.inr (elsewhere done)))
  · exact won other done
  · exact marked done

/-- A cancel that a step leaves where it is. -/
theorem Fine.mono (fine : request.Fine cancel) (same : after.cancels cancel = request.cancels cancel)
    (covered : request.Covered cancel → after.Covered cancel)
    (claimed : request.claim = some .cancel → after.claim = some .cancel)
    (held : request.claim = some .handler → after.claim = some .handler)
    (running : request.handler = .running → after.handler = .running) : after.Fine cancel := by
  unfold Fine at fine ⊢
  rw [same]
  cases call : request.cancels cancel with
  | none | claiming => trivial
  | won => exact claimed (by simpa [call] using fine)
  | refused reason =>
    have now : request.Covered cancel ∨ request.claim = some .handler := by simpa [call] using fine
    exact now.imp covered held
  | querying =>
    have now : request.Covered cancel ∨ request.handler = .running := by simpa [call] using fine
    exact now.imp covered running
  | found builds =>
    have now : request.Covered cancel ∨ (request.handler = .running ∧ builds = true) := by simpa [call] using fine
    exact now.imp covered (And.imp_left running)
  | returned =>
    have now : request.Covered cancel := by simpa [call] using fine
    exact covered now

/-- The handler goes on while the marker, the claim and the cancels stay. -/
theorem Sound.moves (sound : request.Sound) {handler : Stage}
    (held : handler.starts = true ∨ handler = .running ↔ request.handler.starts = true ∨ request.handler = .running)
    (calm : handler ≠ .raised) (built : handler = .added ∨ handler = .running → request.builds = true)
    (marked : handler.inProgress = true → request.handler.inProgress = true)
    (starts : request.handler.starts = true → handler.starts = true)
    (running : request.handler = .running → handler = .running) :
    ({ request with handler := handler } : Request).Sound where
  held := sound.held.trans held.symm
  calm := calm
  mine := sound.mine
  incomplete := sound.incomplete
  away := sound.away
  built := built
  marked now := sound.marked (marked now)
  fine cancel := by
    refine (sound.fine cancel).mono rfl (fun covered => ?_) id id running
    exact covered.mono id id id (fun other won => .inr (.inl ⟨other, won⟩))
      (fun marker => .inr (.inr ⟨marker.1, starts marker.2⟩))

/-- A step of one cancel, as far as the other parts of the request go. -/
theorem Sound.setCancel (sound : request.Sound) {call : Call} (open_ : request.cancels cancel ≠ .none)
    (unfinished : request.cancels cancel ≠ .won)
    (fine : (request.setCancel cancel call).Fine cancel) : (request.setCancel cancel call).Sound where
  held := sound.held
  calm := sound.calm
  mine now := by
    refine (sound.mine now).imp id (And.imp_right ?_)
    rintro ⟨other, won⟩
    refine ⟨other, ?_⟩
    have different : other ≠ cancel := fun same => unfinished (same ▸ won)
    simpa [Request.setCancel, different] using won
  incomplete := sound.incomplete
  away now other here := by
    refine sound.away now other fun absent => here ?_
    have different : other ≠ cancel := fun same => open_ (same ▸ absent)
    simpa [Request.setCancel, different] using absent
  built := sound.built
  marked := sound.marked
  fine other := by
    by_cases same : other = cancel
    · exact same ▸ fine
    · refine (sound.fine other).mono (by simp [Request.setCancel, same]) (fun covered => ?_) id id id
      refine covered.mono id id id (fun third won => .inr (.inl ⟨third, ?_⟩)) fun marker => .inr (.inr marker)
      have different : third ≠ cancel := fun same => unfinished (same ▸ won)
      simpa [Request.setCancel, different] using won

theorem fine_setCancel {call : Call} : (request.setCancel cancel call).Fine cancel ↔
    match call with
    | .none | .claiming _ => True
    | .won => request.claim = some .cancel
    | .refused _ => (request.setCancel cancel call).Covered cancel ∨ request.claim = some .handler
    | .querying => (request.setCancel cancel call).Covered cancel ∨ request.handler = .running
    | .found builds => (request.setCancel cancel call).Covered cancel ∨ (request.handler = .running ∧ builds = true)
    | .returned => (request.setCancel cancel call).Covered cancel := by
  have now : (request.setCancel cancel call).cancels cancel = call := by simp [Request.setCancel]
  unfold Fine
  rw [now]
  rfl

/-- A cancel that goes on without having won is covered as before. -/
theorem Covered.setCancel (covered : request.Covered cancel) {call : Call} (other : Nat)
    (unfinished : request.cancels other ≠ .won) : (request.setCancel other call).Covered cancel := by
  refine covered.mono id id id (fun third won => .inr (.inl ⟨third, ?_⟩)) fun marker => .inr (.inr marker)
  have different : third ≠ other := fun same => unfinished (same ▸ won)
  simpa [Request.setCancel, different] using won

theorem Sound.choose (sound : request.Sound) (idle : request.handler = .idle) :
    ({ request.add_in_progress_buildrequest with handler := .claiming } : Request).Sound where
  held := by simpa [add_in_progress_buildrequest, Stage.starts, idle] using sound.held
  calm := nofun
  mine := sound.mine
  incomplete := sound.incomplete
  away := sound.away
  built := by simp
  marked _ := rfl
  fine cancel := by
    refine (sound.fine cancel).mono rfl (fun covered => ?_) id id (by simp [idle])
    refine covered.mono id id id (fun other won => .inr (.inl ⟨other, won⟩)) fun marker => ?_
    simp [Marked, Stage.starts, idle] at marker

theorem Sound.claim (sound : request.Sound) (claiming : request.handler = .claiming) (free : request.claim = none) :
    ({ request with handler := .claimed true, claim := some .handler } : Request).Sound where
  held := by simp [Stage.starts]
  calm := nofun
  mine := nofun
  incomplete _ := sound.incomplete (.inl free)
  away := nofun
  built := by simp
  marked _ := sound.marked (by simp [claiming, Stage.inProgress])
  fine cancel := by
    refine (sound.fine cancel).mono rfl (fun covered => ?_) (by simp [free]) (fun _ => rfl) (by simp [claiming])
    refine covered.mono id id id (fun other won => .inr (.inl ⟨other, won⟩)) fun marker => ?_
    simp [Marked, Stage.starts, claiming] at marker

/-- A start that fails gives the claim back. No cancel has been turned away by it. -/
theorem Sound.unclaim (sound : request.Sound) (unclaiming : request.handler = .unclaiming)
    (nobody : ∀ cancel, ¬ request.TurnedAway cancel) :
    ({ request with handler := .unclaimed, claim := none } : Request).Sound where
  held := by simp [Stage.starts]
  calm := nofun
  mine := nofun
  incomplete _ := sound.incomplete (.inr (sound.held.mpr (.inl (by simp [unclaiming, Stage.starts]))))
  away := nofun
  built := by simp
  marked _ := sound.marked (by simp [unclaiming, Stage.inProgress])
  fine cancel := by
    have held : request.claim = some .handler := sound.held.mpr (.inl (by simp [unclaiming, Stage.starts]))
    have answered (away : request.elsewhere cancel = true) :
        ({ request with handler := .unclaimed, claim := none } : Request).Covered cancel := .inl (.inr (.inr away))
    have fine := sound.fine cancel
    have kept := nobody cancel
    unfold TurnedAway at kept
    unfold Fine at fine ⊢
    cases call : request.cancels cancel with
    | none | claiming => trivial
    | won =>
      have claimed : request.claim = some .cancel := by simpa [call] using fine
      simp [held] at claimed
    | refused reason | querying | found builds => exact .inl (answered (by simpa [call] using kept))
    | returned => exact answered (by simpa [call] using kept)

theorem Sound.unclaimed (sound : request.Sound) (unclaimed : request.handler = .unclaimed) :
    ({ request.remove_in_progress_buildrequest with handler := .idle } : Request).Sound where
  held := by simpa [remove_in_progress_buildrequest, Stage.starts, unclaimed] using sound.held
  calm := nofun
  mine := sound.mine
  incomplete := sound.incomplete
  away := sound.away
  built := by simp
  marked := nofun
  fine cancel := by
    refine (sound.fine cancel).mono rfl (fun covered => ?_) id id (by simp [unclaimed])
    refine covered.mono id id id (fun other won => .inr (.inl ⟨other, won⟩)) fun marker => ?_
    simp [Marked, Stage.starts, unclaimed] at marker

/-- The build takes over: a marked start has stopped it. -/
theorem Sound.startConsuming (sound : request.Sound) (added : request.handler = .added) :
    ({ request.checkCancelled with handler := .running } : Request).Sound where
  held := by simpa [checkCancelled, remove_in_progress_buildrequest, Stage.starts, added] using sound.held
  calm := nofun
  mine := sound.mine
  incomplete := sound.incomplete
  away := sound.away
  built _ := sound.built (.inl added)
  marked := nofun
  fine cancel := by
    refine (sound.fine cancel).mono rfl (fun covered => ?_) id id (fun _ => rfl)
    refine covered.mono id ?_ id (fun other won => .inr (.inl ⟨other, won⟩)) ?_
    · intro stopped
      simp only [checkCancelled]
      split
      · rfl
      · exact stopped
    · rintro ⟨⟨reason, marker⟩, _⟩
      exact .inl (.inr (.inl (by simp [checkCancelled, marker])))

theorem Sound.deliver (sound : request.Sound) (absent : request.cancels cancel = .none) (reason : Reason) :
    ({ request.setCancel cancel (.claiming reason) with
      elsewhere := Function.update request.elsewhere cancel (request.claim = some .elsewhere) } : Request).Sound where
  held := sound.held
  calm := sound.calm
  mine now := by
    refine (sound.mine now).imp id (And.imp_right ?_)
    rintro ⟨other, won⟩
    refine ⟨other, ?_⟩
    have different : other ≠ cancel := fun same => by simp [same, absent] at won
    simpa [Request.setCancel, different] using won
  incomplete := sound.incomplete
  away now other here := by
    have claimed : request.claim = some .elsewhere := now
    by_cases same : other = cancel
    · simp [same, claimed]
    · have before : request.cancels other ≠ .none := by simpa [Request.setCancel, same] using here
      simpa [same] using sound.away claimed other before
  built := sound.built
  marked := sound.marked
  fine other := by
    by_cases same : other = cancel
    · simp [Fine, Request.setCancel, same]
    · refine (sound.fine other).mono (by simp [Request.setCancel, same]) (fun covered => ?_) id id id
      refine covered.mono id id (by simp [same]) (fun third won => .inr (.inl ⟨third, ?_⟩)) fun marker => .inr (.inr marker)
      have different : third ≠ cancel := fun same => by simp [same, absent] at won
      simpa [Request.setCancel, different] using won

theorem Sound.cancelWins (sound : request.Sound) {reason : Reason} (claiming : request.cancels cancel = .claiming reason)
    (free : request.claim = none) : ({ request.setCancel cancel .won with claim := some .cancel } : Request).Sound where
  held := by simpa [Request.setCancel, free] using sound.held
  calm := sound.calm
  mine _ := .inr ⟨sound.incomplete (.inl free), cancel, by simp [Request.setCancel]⟩
  incomplete := by simp
  away := nofun
  built := sound.built
  marked := sound.marked
  fine other := by
    by_cases same : other = cancel
    · simp [Fine, Request.setCancel, same]
    · refine (sound.fine other).mono (by simp [Request.setCancel, same]) (fun covered => ?_) (fun _ => rfl)
        (by simp [free]) id
      refine covered.mono id id id (fun third won => .inr (.inl ⟨third, ?_⟩)) fun marker => .inr (.inr marker)
      have different : third ≠ cancel := fun same => by simp [same, claiming] at won
      simpa [Request.setCancel, different] using won

/-- Whoever has the claim, a cancel that is turned away is covered or meets the handler. -/
theorem Sound.turnedAway (sound : request.Sound) (here : request.cancels cancel ≠ .none) {claimant : Claimant}
    (claimed : request.claim = some claimant) : request.Covered cancel ∨ request.claim = some .handler := by
  cases claimant with
  | handler => exact .inr claimed
  | cancel =>
    left
    rcases sound.mine claimed with done | ⟨_, won⟩
    · exact .inl (.inl done)
    · exact .inr (.inl won)
  | elsewhere => exact .inl (.inl (.inr (.inr (sound.away claimed cancel here))))

theorem Sound.cancelRefused (sound : request.Sound) {reason : Reason} (refused : request.cancels cancel = .refused reason)
    (named : reason = .other → request.handler.starts = false) :
    ((request.maybe_cancel_in_progress_buildrequest reason).setCancel cancel .querying).Sound := by
  have open_ : request.cancels cancel ≠ .none := by simp [refused]
  have unfinished : request.cancels cancel ≠ .won := by simp [refused]
  have waiting : request.Covered cancel ∨ request.claim = some .handler := by simpa [Fine, refused] using sound.fine cancel
  unfold maybe_cancel_in_progress_buildrequest
  split
  · rename_i present
    -- a marker that starts hold is replaced by a text
    have marks (starts : request.handler.starts = true) : ({ request with marker := some reason } : Request).Marked := by
      cases reason with
      | text reason => exact ⟨⟨reason, rfl⟩, starts⟩
      | other => exact absurd starts (by simp [named rfl])
    have covered (other : Nat) (before : request.Covered other) :
        ({ request with marker := some reason } : Request).Covered other :=
      before.mono id id id (fun third won => .inr (.inl ⟨third, won⟩)) fun marker => .inr (.inr (marks marker.2))
    have replaced : ({ request with marker := some reason } : Request).Sound :=
      ⟨sound.held, sound.calm, sound.mine, sound.incomplete, sound.away, sound.built, fun _ => rfl,
        fun other => (sound.fine other).mono rfl (covered other) id id id⟩
    refine replaced.setCancel open_ unfinished (fine_setCancel.mpr ?_)
    rcases waiting with before | held
    · exact .inl ((covered cancel before).setCancel cancel unfinished)
    · rcases sound.held.mp held with starts | running
      · exact .inl (.inr (.inr (marks starts)))
      · exact .inr running
  · rename_i absent
    refine sound.setCancel open_ unfinished (fine_setCancel.mpr ?_)
    rcases waiting with before | held
    · exact .inl (before.setCancel cancel unfinished)
    · rcases sound.held.mp held with starts | running
      · have progress : request.handler.inProgress = true := by
          revert starts
          cases request.handler with
          | claimed ok => cases ok <;> simp [Stage.starts, Stage.inProgress]
          | _ => simp [Stage.starts, Stage.inProgress]
        exact absurd (sound.marked progress) absent
      · exact .inr running

theorem Sound.cancelCompletes (sound : request.Sound) (won : request.cancels cancel = .won) :
    ({ request.setCancel cancel .returned with complete := request.complete.or (some CANCELLED) } : Request).Sound := by
  have claimed : request.claim = some .cancel := by simpa [Fine, won] using sound.fine cancel
  have complete : request.complete.or (some CANCELLED) = some CANCELLED := by
    rcases sound.mine claimed with done | ⟨incomplete, _⟩
    · rw [done]
      rfl
    · rw [incomplete]
      rfl
  have covered (other : Nat) :
      ({ request.setCancel cancel .returned with complete := request.complete.or (some CANCELLED) } : Request).Covered other :=
    .inl (.inl complete)
  refine ⟨sound.held, sound.calm, fun _ => .inl complete, ?_, ?_, sound.built, sound.marked, fun other => ?_⟩
  · simp [Request.setCancel, claimed]
  · simp [Request.setCancel, claimed]
  · by_cases same : other = cancel
    · subst same
      simpa [Fine, Request.setCancel] using covered other
    · exact (sound.fine other).mono (by simp [Request.setCancel, same]) (fun _ => covered other) id id id

theorem Sound.query (sound : request.Sound) (querying : request.cancels cancel = .querying) :
    (request.setCancel cancel (.found request.builds)).Sound := by
  have unfinished : request.cancels cancel ≠ .won := by simp [querying]
  refine sound.setCancel (by simp [querying]) unfinished (fine_setCancel.mpr ?_)
  have waiting : request.Covered cancel ∨ request.handler = .running := by simpa [Fine, querying] using sound.fine cancel
  rcases waiting with before | running
  · exact .inl (before.setCancel cancel unfinished)
  · exact .inr ⟨running, sound.built (.inr running)⟩

theorem Sound.produce (sound : request.Sound) {builds : Bool} (found : request.cancels cancel = .found builds) :
    ({ request.setCancel cancel .returned with
      stopped := request.stopped || (builds && decide (request.handler = .running)) } : Request).Sound := by
  have unfinished : request.cancels cancel ≠ .won := by simp [found]
  have waiting : request.Covered cancel ∨ (request.handler = .running ∧ builds = true) := by
    simpa [Fine, found] using sound.fine cancel
  have covered (other : Nat) (before : request.Covered other) : ({ request with
      stopped := request.stopped || (builds && decide (request.handler = .running)) } : Request).Covered other :=
    before.mono id (by simp +contextual) id (fun third won => .inr (.inl ⟨third, won⟩)) fun marker => .inr (.inr marker)
  have stopped : ({ request with
      stopped := request.stopped || (builds && decide (request.handler = .running)) } : Request).Sound :=
    ⟨sound.held, sound.calm, sound.mine, sound.incomplete, sound.away, sound.built, sound.marked,
      fun other => (sound.fine other).mono rfl (covered other) id id id⟩
  refine stopped.setCancel (by simp [found]) unfinished (fine_setCancel.mpr ?_)
  rcases waiting with before | ⟨running, some⟩
  · exact (covered cancel before).setCancel cancel unfinished
  · exact .inl (.inr (.inl (by simp [Request.setCancel, running, some])))

theorem Sound.otherClaims (sound : request.Sound) (free : request.claim = none) :
    ({ request with
      claim := some .elsewhere
      elsewhere := fun cancel => request.elsewhere cancel || decide (request.cancels cancel ≠ .none) } : Request).Sound where
  held := by simpa [free] using sound.held
  calm := sound.calm
  mine := nofun
  incomplete := by simp
  away _ cancel here := by simp [here]
  built := sound.built
  marked := sound.marked
  fine cancel := by
    refine (sound.fine cancel).mono rfl (fun covered => ?_) (by simp [free]) (by simp [free]) id
    exact covered.mono id id (by simp +contextual) (fun other won => .inr (.inl ⟨other, won⟩)) fun marker => .inr (.inr marker)

theorem Sound.otherUnclaims (sound : request.Sound) (away : request.claim = some .elsewhere)
    (incomplete : request.complete = none) : ({ request with claim := none } : Request).Sound where
  held := by simpa [away] using sound.held
  calm := sound.calm
  mine := nofun
  incomplete _ := incomplete
  away := nofun
  built := sound.built
  marked := sound.marked
  fine cancel := (sound.fine cancel).mono rfl id (by simp [away]) (by simp [away]) id

theorem Sound.otherCompletes (sound : request.Sound) (away : request.claim = some .elsewhere)
    (incomplete : request.complete = none) (results : Int) : ({ request with complete := some results } : Request).Sound where
  held := sound.held
  calm := sound.calm
  mine := by simp [away]
  incomplete := by simp [away]
  away := sound.away
  built := sound.built
  marked := sound.marked
  fine cancel := by
    refine (sound.fine cancel).mono rfl (fun covered => ?_) id id id
    exact covered.mono (by simp [incomplete]) id id (fun other won => .inr (.inl ⟨other, won⟩)) fun marker => .inr (.inr marker)

theorem Sound.step (sound : request.Sound) {event : Event} (undisturbed : request.Undisturbed event) :
    (request.step event).Sound := by
  cases event with
  | choose =>
    simp only [Request.step]
    split
    · exact sound.choose ‹_›
    · exact sound
  | claimTransaction =>
    simp only [Request.step]
    split
    · exact sound.claim ‹_› ‹_›
    · rename_i claiming _
      exact sound.moves (by simp [claiming, Stage.starts]) nofun (by simp) (by simp [claiming, Stage.inProgress])
        (by simp [claiming, Stage.starts]) (by simp [claiming])
    · exact sound
  | claimReturns =>
    simp only [Request.step]
    split
    · rename_i claimed
      exact sound.moves (by simp [claimed, Stage.starts]) nofun (by simp) (by simp [claimed, Stage.inProgress])
        (fun _ => rfl) (by simp [claimed])
    · rename_i failed
      exact sound.moves (by simp [failed, Stage.starts]) nofun (by simp) nofun (by simp [failed, Stage.starts])
        (by simp [failed])
    · exact sound
  | maybeStartBuildReturns started =>
    simp only [Request.step]
    split
    · rename_i starting
      cases started with
      | true =>
        exact sound.moves (by simp [starting, Stage.starts]) nofun (by simp) (by simp [starting, Stage.inProgress])
          (fun _ => rfl) (by simp [starting])
      | false =>
        exact sound.moves (by simp [starting, Stage.starts]) nofun (by simp) (by simp [starting, Stage.inProgress])
          (fun _ => rfl) (by simp [starting])
    · exact sound
  | unclaimTransaction =>
    simp only [Request.step]
    split
    · rename_i unclaiming
      exact sound.unclaim unclaiming (undisturbed unclaiming)
    · exact sound
  | unclaimReturns =>
    simp only [Request.step]
    split
    · exact sound.unclaimed ‹_›
    · exact sound
  | addBuild =>
    simp only [Request.step]
    split
    · rename_i adding
      have built : ({ request with builds := true } : Request).Sound :=
        ⟨sound.held, sound.calm, sound.mine, sound.incomplete, sound.away, fun _ => rfl, sound.marked, sound.fine⟩
      exact built.moves (by simp [adding, Stage.starts]) nofun (fun _ => rfl) (by simp [adding, Stage.inProgress])
        (fun _ => rfl) (by simp [adding])
    · exact sound
  | startConsuming =>
    simp only [Request.step]
    split
    · exact sound.startConsuming ‹_›
    · exact sound
  | raises =>
    have calm : request.handler.inProgress = false := undisturbed
    simpa [Request.step, calm] using sound
  | deliver cancel reason =>
    simp only [Request.step]
    split
    · exact sound.deliver ‹_› reason
    · exact sound
  | cancelTransaction cancel =>
    simp only [Request.step]
    split
    · exact sound.cancelWins ‹_› ‹_›
    · rename_i claiming claimed
      have unfinished : request.cancels cancel ≠ .won := by simp [claiming]
      have here : request.cancels cancel ≠ .none := by simp [claiming]
      apply sound.setCancel here unfinished
      exact fine_setCancel.mpr ((sound.turnedAway here claimed).imp (Covered.setCancel · cancel unfinished) id)
    · exact sound
  | cancelRefused cancel =>
    simp only [Request.step]
    split
    · rename_i reason refused
      exact sound.cancelRefused refused fun other => undisturbed (other ▸ refused)
    · exact sound
  | cancelCompletes cancel =>
    simp only [Request.step]
    split
    · exact sound.cancelCompletes ‹_›
    · exact sound
  | query cancel =>
    simp only [Request.step]
    split
    · exact sound.query ‹_›
    · exact sound
  | produce cancel =>
    simp only [Request.step]
    split
    · exact sound.produce ‹_›
    · exact sound
  | otherClaims =>
    simp only [Request.step]
    split
    · exact sound.otherClaims ‹_›
    · exact sound
  | otherUnclaims =>
    simp only [Request.step]
    split
    · exact sound.otherUnclaims ‹_› ‹_›
    · exact sound
  | otherCompletes results =>
    simp only [Request.step]
    split
    · exact sound.otherCompletes ‹_› ‹_› results
    · exact sound

/-- Once all is settled, nothing is left that a cancel could still be answered by. -/
theorem Sound.answered (sound : request.Sound) (settled : request.Settled) (delivered : request.cancels cancel ≠ .none) :
    request.Answered cancel := by
  obtain ⟨quiet, ends⟩ := settled
  have returned : request.cancels cancel = .returned := by
    have landed := quiet cancel
    cases call : request.cancels cancel <;> simp [call, Call.inFlight] at landed delivered ⊢
  have covered : request.Covered cancel := by simpa [Fine, returned] using sound.fine cancel
  rcases covered with done | ⟨other, won⟩ | ⟨_, starts⟩
  · exact done
  · have landed := quiet other
    simp [won, Call.inFlight] at landed
  · rcases ends with idle | running
    · simp [idle, Stage.starts] at starts
    · simp [running, Stage.starts] at starts

/-! ## The marker -/

theorem isSome_maybe_cancel (reason : Reason) :
    (request.maybe_cancel_in_progress_buildrequest reason).marker.isSome = request.marker.isSome := by
  unfold maybe_cancel_in_progress_buildrequest
  split
  · rename_i present
    exact present.symm
  · rfl

theorem handler_maybe_cancel (reason : Reason) :
    (request.maybe_cancel_in_progress_buildrequest reason).handler = request.handler := by
  unfold maybe_cancel_in_progress_buildrequest
  split <;> rfl

theorem Exact.step (exact_ : request.Exact) {event : Event} (orderly : request.Orderly event) :
    (request.step event).Exact := by
  cases event with
  | choose | unclaimReturns | startConsuming =>
    simp only [Request.step]
    split
    · simp [Exact, add_in_progress_buildrequest, remove_in_progress_buildrequest, checkCancelled, Stage.inProgress]
    · exact exact_
  | claimReturns =>
    simp only [Request.step]
    split
    · rename_i claimed
      simpa [Exact, claimed, Stage.inProgress] using exact_
    · rename_i failed
      exact absurd failed orderly
    · exact exact_
  | maybeStartBuildReturns started =>
    simp only [Request.step]
    split
    · rename_i starting
      cases started <;> simpa [Exact, starting, Stage.inProgress] using exact_
    · exact exact_
  | claimTransaction =>
    simp only [Request.step]
    split
    · rename_i claiming _
      simpa [Exact, claiming, Stage.inProgress] using exact_
    · rename_i claiming _
      simpa [Exact, claiming, Stage.inProgress] using exact_
    · exact exact_
  | unclaimTransaction | addBuild =>
    simp only [Request.step]
    split
    · rename_i stage
      simpa [Exact, stage, Stage.inProgress] using exact_
    · exact exact_
  | raises =>
    have calm : request.handler.inProgress = false := orderly
    simpa [Request.step, calm] using exact_
  | cancelRefused cancel =>
    simp only [Request.step]
    split
    · rename_i reason _
      simpa [Exact, Request.setCancel, isSome_maybe_cancel, handler_maybe_cancel] using exact_
    · exact exact_
  | deliver cancel reason | cancelCompletes cancel | query cancel | produce cancel =>
    simp only [Request.step]
    split <;> exact exact_
  | cancelTransaction | otherClaims | otherUnclaims | otherCompletes =>
    simp only [Request.step]
    split <;> exact exact_

theorem Exact.lost (exact_ : request.Exact) {event : Event} (disorderly : ¬ request.Orderly event) :
    ¬ (request.step event).Exact := by
  cases event with
  | raises =>
    have progress : request.handler.inProgress = true := by simpa [Orderly] using disorderly
    have left := exact_.mpr progress
    have raised : request.step .raises = { request with handler := .raised } := by simp [Request.step, progress]
    rw [raised]
    exact fun now => absurd (now.mp left) nofun
  | claimReturns =>
    have failed : request.handler = .claimed false := by simpa [Orderly] using disorderly
    have left := exact_.mpr (by simp [failed, Stage.inProgress])
    simp [Request.step, Exact, failed, left, Stage.inProgress]
  | _ => exact absurd trivial disorderly

end Request

/-- One request, which shows nothing but its state. -/
def step (request : Request) (event : Event) : Request × List Empty := (request.step event, [])

/-- Every request, under its `brid`. -/
abbrev final (requests : Nat → Request) (events : List (Nat × Event)) : Nat → Request :=
  Interleaving.final (keyedStep step) requests events

/-- Every event of the request meets a condition on the state before it. -/
abbrev Always (condition : Request → Event → Prop) (brid : Nat) (events : List (Nat × Event)) : Prop :=
  Interleaving.Always (keyedStep step) (fun requests event => event.1 = brid → condition (requests brid) event.2)
    (fun _ => .new) events

/-- A cancel that finds the request claimed and marks its start, before the build consumes. -/
def marking : List (Nat × Event) :=
  [.choose, .claimTransaction, .claimReturns, .deliver 0 (.text "no reason"), .cancelTransaction 0, .cancelRefused 0,
    .maybeStartBuildReturns true, .addBuild, .startConsuming, .query 0, .produce 0].map (7, ·)

theorem single_cancel {request : Request} (returned : request.cancels 0 = .returned)
    (others : ∀ cancel, cancel ≠ 0 → request.cancels cancel = .none) (cancel : Nat) :
    (request.cancels cancel).inFlight = false := by
  by_cases first : cancel = 0
  · rw [first, returned]
    rfl
  · rw [others cancel first]
    rfl

/-- A start that fails after it has been marked. -/
def failing : List (Nat × Event) :=
  [.choose, .claimTransaction, .claimReturns, .deliver 0 (.text "no reason"), .cancelTransaction 0, .cancelRefused 0,
    .query 0, .produce 0, .maybeStartBuildReturns false, .unclaimTransaction, .unclaimReturns].map (7, ·)

/-- A claim that another master has made before. -/
def outrun : List (Nat × Event) := [.choose, .otherClaims, .claimTransaction, .claimReturns].map (7, ·)

end Cancellation

end Umbilical.Process
