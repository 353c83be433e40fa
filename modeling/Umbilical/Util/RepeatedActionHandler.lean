import Mathlib.Data.Nat.Basic
import Umbilical.Shared.Interleaving
import Umbilical.Shared.Reactor

set_option autoImplicit false

/-!
# Repeated actions

Everything that a call does comes before it calls the action, so what the action itself does to
the handler may as well come after the call.
-/

namespace Umbilical.Util

open Umbilical.Interleaving

structure RepeatedActionHandler (τ : Type) where
  reactor : Reactor τ Unit
  interval : τ
  enabled : Bool
  timer : Option Nat
  start_timer_after_action_completes : Bool
  running : Bool
  -- how many invocations of the action are in progress
  actions : Nat

namespace RepeatedActionHandler

/-- What can be seen of a run. -/
inductive Action where
  | started
  | stopped
  | began
  -- a timer is cancelled or reset that is not pending
  | raised
  deriving DecidableEq

variable {τ : Type}

def init (seconds interval : τ) (start_timer_after_action_completes : Bool) : RepeatedActionHandler τ where
  reactor := Reactor.init seconds
  interval := interval
  enabled := false
  timer := none
  start_timer_after_action_completes := start_timer_after_action_completes
  running := false
  actions := 0

section Timers

variable [Add τ]

def start_timer (self : RepeatedActionHandler τ) : RepeatedActionHandler τ :=
  let (reactor, timer) := self.reactor.callLater self.interval ()
  { self with reactor := reactor, timer := some timer }

def start (self : RepeatedActionHandler τ) : RepeatedActionHandler τ :=
  if self.enabled then self else { self with enabled := true }.start_timer

def stop (self : RepeatedActionHandler τ) : RepeatedActionHandler τ × List Action :=
  if !self.enabled then (self, [])
  else match self.timer with
    | none => ({ self with enabled := false }, [])
    | some timer =>
        match self.reactor.cancel timer with
        | none => ({ self with enabled := false }, [.raised])
        | some reactor => ({ self with reactor := reactor, enabled := false, timer := none }, [])

def delay (self : RepeatedActionHandler τ) : RepeatedActionHandler τ × List Action :=
  match self.enabled, self.timer with
  | true, some timer =>
      match self.reactor.reset timer self.interval with
      | none => (self, [.raised])
      | some reactor => ({ self with reactor := reactor }, [])
  | _, _ => (self, [])

/-- `_do_action`, up to the end of the action. -/
def do_action (self : RepeatedActionHandler τ) : RepeatedActionHandler τ × List Action :=
  ({ self with running := true, actions := self.actions + 1 }, [.began])

def handle_action (self : RepeatedActionHandler τ) : RepeatedActionHandler τ × List Action :=
  let self := { self with timer := none }
  if self.start_timer_after_action_completes then self.do_action
  else if self.enabled then self.start_timer.do_action
  else self.do_action

def force (self : RepeatedActionHandler τ) : RepeatedActionHandler τ × List Action :=
  if !self.enabled || self.running then (self, [])
  else match self.timer.bind self.reactor.cancel with
    -- `self._timer` is `None`, or is not pending
    | none => (self, [.raised])
    | some reactor => { self with reactor := reactor }.handle_action

/-- An invocation of the action ends, with a result or a failure. -/
def complete (self : RepeatedActionHandler τ) : RepeatedActionHandler τ :=
  if self.actions = 0 then self
  else
    let self := { self with running := false, actions := self.actions - 1 }
    if self.start_timer_after_action_completes && self.enabled then self.start_timer else self

end Timers

inductive Event (τ : Type) where
  | start
  | stop
  | delay
  | force
  | set_interval (interval : τ)
  | advance (seconds : τ)
  | handle_timeout (timer : Nat)
  | complete

def step [LinearOrder τ] [Add τ] (self : RepeatedActionHandler τ) : Event τ → RepeatedActionHandler τ × List Action
  | .start => (self.start, [.started])
  | .stop => (self.stop.1, .stopped :: self.stop.2)
  | .delay => self.delay
  | .force => self.force
  | .set_interval interval => ({ self with interval := interval }, [])
  | .advance seconds => ({ self with reactor := self.reactor.advance seconds }, [])
  | .handle_timeout timer =>
      match self.reactor.expire timer with
      | none => (self, [])
      | some (_, reactor) => { self with reactor := reactor }.handle_action
  | .complete => (self.complete, [])

/-! ## The timer -/

/-- The timer that is kept is the one that is pending, and an enabled handler has none only while the action runs that
will set it. -/
structure Timed (handler : RepeatedActionHandler τ) : Prop where
  held : handler.reactor.Held fun _ => handler.timer
  idle : handler.enabled = false → handler.timer = none
  armed : handler.enabled = true → handler.timer = none →
    handler.start_timer_after_action_completes = true ∧ handler.running = true
  busy : handler.running = true → 0 < handler.actions

/-- An action that is to set the timer when it ends finds none. -/
def Awaited (self : RepeatedActionHandler τ) : Event τ → Prop
  | .complete => self.start_timer_after_action_completes = true → 0 < self.actions → self.enabled = true →
      self.timer = none
  | _ => True

variable {self : RepeatedActionHandler τ}

theorem timed_init (seconds interval : τ) (mode : Bool) : (init seconds interval mode).Timed where
  held := Reactor.held_init seconds
  idle _ := rfl
  armed := nofun
  busy := nofun

theorem Timed.stop (timed : self.Timed) : self.stop.1.Timed ∧ self.stop.1.enabled = false ∧ self.stop.2 = [] := by
  unfold RepeatedActionHandler.stop
  split
  next off => exact ⟨timed, by simpa using off, rfl⟩
  next =>
    split
    next field =>
      exact ⟨{ timed with idle := fun _ => field, armed := nofun }, rfl, rfl⟩
    next timer field =>
      rw [timed.held.cancel () field]
      exact ⟨{ held := timed.held.without_only field, idle := fun _ => rfl, armed := nofun, busy := timed.busy }, rfl, rfl⟩

variable [Add τ]

theorem held_start_timer (held : self.reactor.Held fun _ => self.timer) (free : self.timer = none) :
    self.start_timer.reactor.Held fun _ => self.start_timer.timer := held.callLater_only free self.interval

theorem Timed.start (timed : self.Timed) : self.start.Timed := by
  unfold RepeatedActionHandler.start
  split
  next => exact timed
  next off =>
    have free := timed.idle (by simpa using off)
    have held : { self with enabled := true }.reactor.Held fun _ => { self with enabled := true }.timer := timed.held
    exact {
      held := held_start_timer held free
      idle := nofun
      armed := nofun
      busy := timed.busy }

theorem Timed.delay (timed : self.Timed) :
    self.delay.1.Timed ∧ self.delay.1.enabled = self.enabled ∧ self.delay.2 = [] := by
  unfold RepeatedActionHandler.delay
  split
  next timer on field =>
    rw [timed.held.reset () field]
    exact ⟨{ timed with held := timed.held.postpone _ }, rfl, rfl⟩
  next => exact ⟨timed, rfl, rfl⟩

/-- `_handle_action`, once the timer has fired or has been cancelled. -/
theorem handle_action_spec (self : RepeatedActionHandler τ) (held : self.reactor.Held fun _ => none) (on : self.enabled = true) :
    self.handle_action.1.Timed ∧ self.handle_action.1.enabled = true ∧ self.handle_action.2 = [.began] := by
  unfold handle_action
  dsimp only
  split
  next after =>
    exact ⟨{ held := held, idle := by simp [do_action, on], armed := fun _ _ => ⟨after, rfl⟩,
             busy := fun _ => Nat.succ_pos _ }, on, rfl⟩
  next =>
    have placed : ({ self with timer := none }.start_timer).reactor.Held
        fun _ => ({ self with timer := none }.start_timer).timer := held_start_timer held rfl
    exact ⟨{ held := placed, idle := by simp [do_action, start_timer, on], armed := nofun,
             busy := fun _ => Nat.succ_pos _ }, on, rfl⟩

theorem Timed.force (timed : self.Timed) :
    (self.force.1.Timed ∧ self.force.1.enabled = self.enabled ∧ self.force.2 = []) ∨
      self.enabled = true ∧ self.force.1.Timed ∧ self.force.1.enabled = true ∧ self.force.2 = [.began] := by
  unfold RepeatedActionHandler.force
  split
  next => exact .inl ⟨timed, rfl, rfl⟩
  next idle =>
    obtain ⟨on, waits⟩ : self.enabled = true ∧ self.running = false := by simpa using idle
    obtain ⟨timer, field⟩ : ∃ timer, self.timer = some timer := by
      apply Option.ne_none_iff_exists'.mp
      intro free
      have runs := (timed.armed on free).2
      simp [waits] at runs
    rw [field, Option.bind_some, timed.held.cancel () field]
    exact .inr ⟨on, handle_action_spec { self with reactor := _ } (timed.held.without_only field) on⟩

theorem Timed.handle_timeout [LinearOrder τ] (timed : self.Timed) {timer : Nat} {reactor : Reactor τ Unit}
    (made : self.reactor.expire timer = some ((), reactor)) :
    self.enabled = true ∧ { self with reactor := reactor }.handle_action.1.Timed ∧
      { self with reactor := reactor }.handle_action.1.enabled = true ∧
      { self with reactor := reactor }.handle_action.2 = [.began] := by
  obtain ⟨field, rfl⟩ := timed.held.expire made
  have on : self.enabled = true := by
    by_contra off
    have free := timed.idle (by simpa using off)
    simp [free] at field
  exact ⟨on, handle_action_spec { self with reactor := _ } (timed.held.without_only field) on⟩

theorem enabled_complete : self.complete.enabled = self.enabled := by
  unfold complete start_timer
  dsimp only
  split_ifs <;> rfl

theorem Timed.complete (timed : self.Timed) (awaited : self.Awaited .complete) : self.complete.Timed := by
  unfold RepeatedActionHandler.complete
  dsimp only
  split
  next => exact timed
  next some_action =>
    split
    next both =>
      obtain ⟨after, on⟩ : self.start_timer_after_action_completes = true ∧ self.enabled = true := by simpa using both
      have free := awaited after (by omega) on
      have held : { self with running := false, actions := self.actions - 1 }.reactor.Held
          fun _ => { self with running := false, actions := self.actions - 1 }.timer := timed.held
      exact {
        held := held_start_timer held free
        idle := by simp [start_timer, on]
        armed := nofun
        busy := nofun }
    next other =>
      refine { held := timed.held, idle := timed.idle, armed := fun on free => ?_, busy := nofun }
      have both : (self.start_timer_after_action_completes && self.enabled) = true := by
        rw [(timed.armed on free).1, show self.enabled = true from on]
        rfl
      exact absurd both other

/-! ## Runs -/

/-- What a step shows, and what it does to `_enabled`. -/
theorem step_actions [LinearOrder τ] (timed : self.Timed) (event : Event τ) :
    ((self.step event).2 = [] ∧ (self.step event).1.enabled = self.enabled) ∨
      ((self.step event).2 = [.started] ∧ (self.step event).1.enabled = true) ∨
      ((self.step event).2 = [.stopped] ∧ (self.step event).1.enabled = false) ∨
      ((self.step event).2 = [.began] ∧ self.enabled = true ∧ (self.step event).1.enabled = true) := by
  cases event with
  | start =>
    refine .inr (.inl ⟨rfl, ?_⟩)
    rw [step, start]
    split
    next on => exact on
    next => rfl
  | stop =>
    obtain ⟨_, off, silent⟩ := timed.stop
    exact .inr (.inr (.inl ⟨by rw [step, silent], off⟩))
  | delay => exact .inl ⟨timed.delay.2.2, timed.delay.2.1⟩
  | force =>
    rcases timed.force with ⟨_, same, silent⟩ | ⟨on, _, stays, began⟩
    · exact .inl ⟨silent, same⟩
    · exact .inr (.inr (.inr ⟨began, on, stays⟩))
  | set_interval interval => exact .inl ⟨rfl, rfl⟩
  | advance seconds => exact .inl ⟨rfl, rfl⟩
  | handle_timeout timer =>
    cases made : self.reactor.expire timer with
    | none => exact .inl (by simp [step, made])
    | some call =>
      obtain ⟨on, _, stays, began⟩ := timed.handle_timeout made
      refine .inr (.inr (.inr ⟨?_, on, ?_⟩))
      · simpa [step, made] using began
      · simpa [step, made] using stays
  | complete => exact .inl ⟨rfl, enabled_complete⟩

theorem step_timed [LinearOrder τ] (timed : self.Timed) (event : Event τ) (awaited : self.Awaited event) :
    (self.step event).1.Timed := by
  cases event with
  | start => exact timed.start
  | stop => exact timed.stop.1
  | delay => exact timed.delay.1
  | force =>
    rcases timed.force with ⟨kept, _⟩ | ⟨_, kept, _⟩
    · exact kept
    · exact kept
  | set_interval interval => exact { timed with }
  | advance seconds => exact { timed with held := timed.held.advance seconds }
  | handle_timeout timer =>
    cases made : self.reactor.expire timer with
    | none => simpa [step, made] using timed
    | some call => simpa [step, made] using (timed.handle_timeout made).2.1
  | complete => exact timed.complete awaited

/-- Whether the last call of `start` or `stop` was one of `start`. -/
def lastStarted (past : List Action) : Bool :=
  past.foldl (fun on action => match action with
    | .started => true
    | .stopped => false
    | _ => on) false

/-- What holds after a run. -/
structure Controlled (handler : RepeatedActionHandler τ) (past : List Action) : Prop where
  single : handler.reactor.pending.length ≤ 1
  waits : handler.enabled = true → (handler.start_timer_after_action_completes = true → handler.actions = 0) →
    handler.reactor.pending.length = 1
  quiet : lastStarted past = false → handler.reactor.pending = []
  silent : Lawful (fun before action => action = .began → lastStarted before = true) past
  never_fails : .raised ∉ past

structure Told (handler : RepeatedActionHandler τ) (past : List Action) : Prop where
  timed : handler.Timed
  on : lastStarted past = handler.enabled
  silent : Lawful (fun before action => action = .began → lastStarted before = true) past
  never_fails : .raised ∉ past

theorem step_told [LinearOrder τ] {past : List Action} (told : self.Told past) (event : Event τ)
    (awaited : self.Awaited event) : (self.step event).1.Told (past ++ (self.step event).2) := by
  have timed := step_timed told.timed event awaited
  rcases step_actions told.timed event with ⟨shown, same⟩ | ⟨shown, on⟩ | ⟨shown, off⟩ | ⟨shown, before, stays⟩
  · rw [shown, List.append_nil]
    exact ⟨timed, told.on.trans same.symm, told.silent, told.never_fails⟩
  · rw [shown]
    exact ⟨timed, by simp [lastStarted, on], told.silent.concat nofun, by simpa using told.never_fails⟩
  · rw [shown]
    exact ⟨timed, by simp [lastStarted, off], told.silent.concat nofun, by simpa using told.never_fails⟩
  · rw [shown]
    refine ⟨timed, ?_, told.silent.concat fun _ => told.on.trans before, by simpa using told.never_fails⟩
    simpa [lastStarted, stays] using told.on.trans before

omit [Add τ] in
theorem Told.controlled {past : List Action} (told : self.Told past) : self.Controlled past where
  single := by
    rw [told.timed.held.length_pending]
    cases self.timer <;> simp
  waits on finished := by
    rw [told.timed.held.length_pending]
    cases field : self.timer with
    | some timer => rfl
    | none =>
      -- the timer is missing only while an action runs
      obtain ⟨after, runs⟩ := told.timed.armed on field
      have busy := told.timed.busy runs
      have idle := finished after
      omega
  quiet off := by
    apply told.timed.held.pending_eq_nil
    intro _
    exact told.timed.idle (told.on.symm.trans off)
  silent := told.silent
  never_fails := told.never_fails

/-- The timer of an action that ends comes on top of the one that is pending. -/
theorem two_pending [LinearOrder τ] (timed : self.Timed) {event : Event τ} (forgotten : ¬ self.Awaited event) :
    (self.step event).1.reactor.pending.length = 2 := by
  cases event with
  | complete =>
    simp only [Awaited, Classical.not_imp] at forgotten
    obtain ⟨after, some_action, on, other⟩ := forgotten
    obtain ⟨timer, field⟩ := Option.ne_none_iff_exists'.mp other
    have before := timed.held.length_pending
    rw [field] at before
    have runs : self.actions ≠ 0 := by omega
    simp [step, complete, runs, after, on, start_timer, Reactor.callLater, before]
  | _ => exact absurd trivial forgotten

/-- A handler does what it promises exactly as long as no action ends that is to set the timer of an enabled handler
which has one: the handler was stopped and started while the action ran. -/
theorem controlled_iff [LinearOrder τ] (seconds interval : τ) (mode : Bool) (events : List (Event τ)) :
    (∀ past, past <+: events → (final step (init seconds interval mode) past).Controlled
      (seen step (init seconds interval mode) past)) ↔
      Always step Awaited (init seconds interval mode) events := by
  refine @history_iff _ _ _ step Awaited Told Controlled (fun _ _ event told => step_told told event) ?_
    (fun _ _ told => told.controlled) _ [] ?_ events
  · intro self past event told forgotten controlled
    have single := controlled.single
    rw [two_pending told.timed forgotten] at single
    omega
  · exact ⟨timed_init seconds interval mode, rfl, lawful_nil _, nofun⟩

/-- Stopped and started while the action runs, the handler has two timers, and `stop` cancels one of them only. -/
theorem forgotten_timer :
    ¬ ∀ (events : List (Event Nat)), (final step (init 0 10 true) events).Controlled (seen step (init 0 10 true) events) := by
  intro controlled
  have quiet := (controlled [.start, .advance 10, .handle_timeout 0, .stop, .start, .complete, .stop]).quiet rfl
  exact absurd (congrArg List.length quiet) (by decide)

end RepeatedActionHandler

end Umbilical.Util
