import Mathlib.Data.Nat.Basic
import Mathlib.Tactic.SplitIfs
import Umbilical.Shared.Interleaving
import Umbilical.Shared.Reactor

set_option autoImplicit false

/-!
# Actions on demand

As in `RepeatedActionHandler`, what an action does to the handler may as well come after the
call of the action.
-/

namespace Umbilical.Util

open Umbilical.Interleaving

structure NonRepeatedActionHandler (τ : Type) where
  reactor : Reactor τ Unit
  timer : Option Nat
  running : Bool
  repeat_after_finished : Bool
  -- how many invocations of the action are in progress
  invocations : Nat

namespace NonRepeatedActionHandler

/-- What can be seen of a run. -/
inductive Action where
  -- `force` or `schedule`, with `invoke_again_if_running`
  | asked
  | stopped
  | began
  -- a timer is cancelled or reset that is not pending
  | raised
  deriving DecidableEq

variable {τ : Type}

def init (seconds : τ) : NonRepeatedActionHandler τ where
  reactor := Reactor.init seconds
  timer := none
  running := false
  repeat_after_finished := false
  invocations := 0

/-- `_do_action`, up to the end of the action. -/
def do_action (self : NonRepeatedActionHandler τ) : NonRepeatedActionHandler τ × List Action :=
  ({ self with running := true, invocations := self.invocations + 1 }, [.began])

def force (self : NonRepeatedActionHandler τ) (invoke_again_if_running : Bool) :
    NonRepeatedActionHandler τ × List Action :=
  if self.running then
    if !invoke_again_if_running then (self, []) else ({ self with repeat_after_finished := true }, [])
  else match self.timer with
    | none => self.do_action
    | some timer =>
        match self.reactor.cancel timer with
        | none => (self, [.raised])
        | some reactor => { self with reactor := reactor, timer := none }.do_action

def schedule [LinearOrder τ] [Add τ] (self : NonRepeatedActionHandler τ) (seconds_from_now : τ)
    (invoke_again_if_running : Bool) : NonRepeatedActionHandler τ × List Action :=
  if self.running && !invoke_again_if_running then (self, [])
  else match self.timer with
    | none =>
        let (reactor, timer) := self.reactor.callLater seconds_from_now ()
        ({ self with reactor := reactor, timer := some timer }, [])
    | some timer =>
        let target_time := self.reactor.seconds + seconds_from_now
        if (self.reactor.getTime timer).any (target_time > ·) then (self, [])
        else match self.reactor.reset timer seconds_from_now with
          | none => (self, [.raised])
          | some reactor => ({ self with reactor := reactor }, [])

def stop (self : NonRepeatedActionHandler τ) : NonRepeatedActionHandler τ × List Action :=
  match self.timer with
  | none => (self, [])
  | some timer =>
      match self.reactor.cancel timer with
      | none => (self, [.raised])
      | some reactor => ({ self with reactor := reactor, timer := none }, [])

/-- An invocation of the action ends, with a result or a failure: the rest of `_do_action`. -/
def complete (self : NonRepeatedActionHandler τ) : NonRepeatedActionHandler τ × List Action :=
  if self.invocations = 0 then (self, [])
  else
    let self := { self with running := false, invocations := self.invocations - 1 }
    if self.repeat_after_finished then { self with repeat_after_finished := false }.do_action else (self, [])

def handle_timeout (self : NonRepeatedActionHandler τ) : NonRepeatedActionHandler τ × List Action :=
  { self with timer := none }.do_action

inductive Event (τ : Type) where
  | force (invoke_again_if_running : Bool)
  | schedule (seconds_from_now : τ) (invoke_again_if_running : Bool)
  | stop
  | advance (seconds : τ)
  | handle_timeout (timer : Nat)
  | complete

def asks (invoke_again_if_running : Bool) : List Action := if invoke_again_if_running then [.asked] else []

def step [LinearOrder τ] [Add τ] (self : NonRepeatedActionHandler τ) :
    Event τ → NonRepeatedActionHandler τ × List Action
  | .force again => ((self.force again).1, asks again ++ (self.force again).2)
  | .schedule seconds again => ((self.schedule seconds again).1, asks again ++ (self.schedule seconds again).2)
  | .stop => (self.stop.1, .stopped :: self.stop.2)
  | .advance seconds => ({ self with reactor := self.reactor.advance seconds }, [])
  | .handle_timeout timer =>
      match self.reactor.expire timer with
      | none => (self, [])
      | some (_, reactor) => { self with reactor := reactor }.handle_timeout
  | .complete => self.complete

/-! ## The timer -/

structure Timed (handler : NonRepeatedActionHandler τ) : Prop where
  held : handler.reactor.Held fun _ => handler.timer
  repeats : handler.repeat_after_finished = true → handler.running = true
  busy : handler.running = true → 0 < handler.invocations

/-- An invocation is to begin: when the timer fires, or when one that is in progress ends. -/
def Scheduled (handler : NonRepeatedActionHandler τ) : Prop :=
  handler.reactor.pending ≠ [] ∨ handler.repeat_after_finished = true ∧ 0 < handler.invocations

variable {self : NonRepeatedActionHandler τ}

theorem timed_init (seconds : τ) : (init seconds).Timed where
  held := Reactor.held_init seconds
  repeats := nofun
  busy := nofun

theorem Timed.scheduled_of_timer (timed : self.Timed) {timer : Nat} (field : self.timer = some timer) : self.Scheduled := by
  refine .inl fun empty => ?_
  have pends := timed.held.mem () field
  simp [empty] at pends

theorem Timed.scheduled_iff (timed : self.Timed) :
    self.Scheduled ↔ self.timer ≠ none ∨ self.repeat_after_finished = true := by
  constructor
  · rintro (pends | ⟨again, _⟩)
    · refine .inl fun free => pends (timed.held.pending_eq_nil fun _ => free)
    · exact .inr again
  · rintro (field | again)
    · obtain ⟨timer, field⟩ := Option.ne_none_iff_exists'.mp field
      exact timed.scheduled_of_timer field
    · exact .inr ⟨again, timed.busy (timed.repeats again)⟩

/-- The timer is cancelled, or was made. -/
theorem Timed.without (timed : self.Timed) {timer : Nat} (field : self.timer = some timer) :
    { self with reactor := self.reactor.without timer, timer := none }.Timed where
  held := timed.held.without_only field
  repeats := timed.repeats
  busy := timed.busy

theorem Timed.do_action (timed : self.Timed) : self.do_action.1.Timed where
  held := timed.held
  repeats _ := rfl
  busy _ := Nat.succ_pos _

/-- `force` leaves the handler as it is, asks for a repetition or begins an invocation. -/
theorem Timed.force (timed : self.Timed) (again : Bool) :
    (self.force again).1.Timed ∧
      ((self.running = true ∧ (self.force again).2 = [] ∧ (self.force again).1 =
          { self with repeat_after_finished := again || self.repeat_after_finished }) ∨
        (self.running = false ∧ (self.force again).2 = [.began] ∧
          (self.force again).1.running = true ∧ (self.force again).1.invocations = self.invocations + 1)) := by
  unfold NonRepeatedActionHandler.force
  split
  next runs =>
    cases again with
    | false => exact ⟨timed, .inl ⟨runs, rfl, rfl⟩⟩
    | true => exact ⟨{ timed with repeats := fun _ => runs }, .inl ⟨runs, rfl, rfl⟩⟩
  next idle =>
    have waits : self.running = false := by simpa using idle
    split
    next field => exact ⟨timed.do_action, .inr ⟨waits, rfl, rfl, rfl⟩⟩
    next timer field =>
      rw [timed.held.cancel () field]
      exact ⟨(timed.without field).do_action, .inr ⟨waits, rfl, rfl, rfl⟩⟩

section Delays

variable [LinearOrder τ] [Add τ]

theorem Timed.schedule (timed : self.Timed) (seconds : τ) (again : Bool) :
    (self.schedule seconds again).1.Timed ∧ (self.schedule seconds again).2 = [] ∧
      (again = true ∨ self.timer ≠ none → (self.schedule seconds again).1.timer ≠ none) ∧
      (self.schedule seconds again).1.repeat_after_finished = self.repeat_after_finished ∧
      (self.schedule seconds again).1.running = self.running ∧
      (self.schedule seconds again).1.invocations = self.invocations := by
  unfold NonRepeatedActionHandler.schedule
  split
  next ignored =>
    have off : again = false := by
      simp only [Bool.and_eq_true, Bool.not_eq_true'] at ignored
      exact ignored.2
    exact ⟨timed, rfl, by simp [off], rfl, rfl, rfl⟩
  next =>
    split
    next field => exact ⟨{ timed with held := timed.held.callLater_only field _ }, rfl, fun _ => nofun, rfl, rfl, rfl⟩
    next timer field =>
      dsimp only
      split
      next => exact ⟨timed, rfl, fun _ => by simp [field], rfl, rfl, rfl⟩
      next =>
        rw [timed.held.reset () field]
        exact ⟨{ timed with held := timed.held.postpone _ }, rfl, fun _ => by simp [field], rfl, rfl, rfl⟩

omit [LinearOrder τ] [Add τ] in
theorem Timed.stop (timed : self.Timed) :
    self.stop.1.Timed ∧ self.stop.2 = [] ∧ self.stop.1.running = self.running ∧
      self.stop.1.invocations = self.invocations := by
  unfold NonRepeatedActionHandler.stop
  split
  next => exact ⟨timed, rfl, rfl, rfl⟩
  next timer field =>
    rw [timed.held.cancel () field]
    exact ⟨timed.without field, rfl, rfl, rfl⟩

omit [LinearOrder τ] [Add τ] in
theorem Timed.complete (timed : self.Timed) :
    self.complete.1.Timed ∧
      (self.complete.2 = [.began] ∨ self.complete.2 = [] ∧ self.complete.1.timer = self.timer ∧
        self.repeat_after_finished = self.complete.1.repeat_after_finished) := by
  unfold NonRepeatedActionHandler.complete
  split
  next => exact ⟨timed, .inr ⟨rfl, rfl, rfl⟩⟩
  next =>
    dsimp only
    split
    next again => exact ⟨{ held := timed.held, repeats := nofun, busy := fun _ => Nat.succ_pos _ }, .inl rfl⟩
    next off => exact ⟨{ held := timed.held, repeats := fun again => absurd again off, busy := nofun }, .inr ⟨rfl, rfl, rfl⟩⟩

omit [Add τ] in
theorem Timed.handle_timeout (timed : self.Timed) {timer : Nat} {reactor : Reactor τ Unit}
    (made : self.reactor.expire timer = some ((), reactor)) :
    { self with reactor := reactor }.handle_timeout.1.Timed := by
  obtain ⟨field, rfl⟩ := timed.held.expire made
  exact (timed.without field).do_action

/-! ## Runs -/

/-- A call that asks for an invocation sees to it. Only an invocation that begins and `stop` undo that. -/
theorem step_timed (timed : self.Timed) (event : Event τ) :
    (self.step event).1.Timed ∧
      ((.asked ∉ (self.step event).2 ∧ (.began ∈ (self.step event).2 ∨ .stopped ∈ (self.step event).2 ∨
          (self.Scheduled → (self.step event).1.Scheduled))) ∨
        ((self.step event).2 = [.asked] ∧ (self.step event).1.Scheduled) ∨
        (self.step event).2 = [.asked, .began]) := by
  cases event with
  | force again =>
    obtain ⟨kept, ⟨runs, silent, next⟩ | ⟨_, began, _⟩⟩ := timed.force again
    · refine ⟨kept, ?_⟩
      have scheduled : self.Scheduled ∨ again = true → (self.force again).1.Scheduled := by
        rw [kept.scheduled_iff, timed.scheduled_iff, next]
        rintro ((field | already) | again)
        · exact .inl field
        · exact .inr (by simp [already])
        · exact .inr (by simp [again])
      cases again with
      | false => exact .inl ⟨by simp [step, asks, silent], .inr (.inr fun before => scheduled (.inl before))⟩
      | true => exact .inr (.inl ⟨by simp [step, asks, silent], scheduled (.inr rfl)⟩)
    · refine ⟨kept, ?_⟩
      cases again with
      | false => exact .inl ⟨by simp [step, asks, began], .inl (by simp [step, began])⟩
      | true => exact .inr (.inr (by simp [step, asks, began]))
  | schedule seconds again =>
    obtain ⟨kept, silent, sets, same, _⟩ := timed.schedule seconds again
    refine ⟨kept, ?_⟩
    have scheduled : self.Scheduled ∨ again = true → (self.schedule seconds again).1.Scheduled := by
      rw [kept.scheduled_iff, timed.scheduled_iff, same]
      rintro ((field | already) | asked)
      · exact .inl (sets (.inr field))
      · exact .inr already
      · exact .inl (sets (.inl asked))
    cases again with
    | false => exact .inl ⟨by simp [step, asks, silent], .inr (.inr fun before => scheduled (.inl before))⟩
    | true => exact .inr (.inl ⟨by simp [step, asks, silent], scheduled (.inr rfl)⟩)
  | stop =>
    obtain ⟨kept, silent, _⟩ := timed.stop
    exact ⟨kept, .inl ⟨by simp [step, silent], .inr (.inl (by simp [step]))⟩⟩
  | advance seconds => exact ⟨{ timed with held := timed.held.advance seconds }, .inl ⟨nofun, .inr (.inr id)⟩⟩
  | handle_timeout timer =>
    cases made : self.reactor.expire timer with
    | none =>
      simp only [step, made]
      exact ⟨timed, .inl ⟨nofun, .inr (.inr id)⟩⟩
    | some call =>
      simp only [step, made]
      exact ⟨timed.handle_timeout made, .inl ⟨by simp [handle_timeout, do_action],
        .inl (by simp [handle_timeout, do_action])⟩⟩
  | complete =>
    obtain ⟨kept, began | ⟨silent, timer, again⟩⟩ := timed.complete
    · exact ⟨kept, .inl ⟨by simp [step, began], .inl (by simp [step, began])⟩⟩
    · refine ⟨kept, .inl ⟨by simp [step, silent], .inr (.inr ?_)⟩⟩
      rw [timed.scheduled_iff, again, ← timer]
      exact kept.scheduled_iff.mpr

/-- What is scheduled comes about: once the time of the timer is there, or at the end of an invocation. -/
theorem Scheduled.begins (scheduled : self.Scheduled) :
    (∃ timer seconds, .began ∈ seen step self [.advance seconds, .handle_timeout timer]) ∨
      .began ∈ seen step self [.complete] := by
  rcases scheduled with pends | ⟨again, busy⟩
  · obtain ⟨later, member⟩ := List.exists_mem_of_ne_nil _ pends
    have fires : (self.reactor.advance later.time).expire later.id ≠ none := by
      rw [Reactor.expire, ne_eq, Option.map_eq_none_iff, List.find?_eq_none]
      intro never
      exact never later member (decide_eq_true ⟨rfl, le_max_right _ _⟩)
    obtain ⟨call, made⟩ := Option.ne_none_iff_exists'.mp fires
    exact .inl ⟨later.id, later.time, by simp [seen, step, made, handle_timeout, do_action]⟩
  · have some_invocation : self.invocations ≠ 0 := by omega
    exact .inr (by simp [seen, step, complete, do_action, some_invocation, again])

/-- The timer does not fire while an invocation is in progress. -/
def Apart (self : NonRepeatedActionHandler τ) : Event τ → Prop
  | .handle_timeout timer => self.reactor.expire timer ≠ none → self.invocations = 0
  | _ => True

/-- The running flag tells whether the one invocation is in progress. -/
structure Alone (handler : NonRepeatedActionHandler τ) : Prop where
  timed : handler.Timed
  most : handler.invocations ≤ 1
  idle : handler.running = false → handler.invocations = 0

theorem step_alone (alone : self.Alone) (event : Event τ) (apart : self.Apart event) : (self.step event).1.Alone := by
  have timed := (step_timed alone.timed event).1
  cases event with
  | force again =>
    rcases (alone.timed.force again).2 with ⟨_, _, next⟩ | ⟨waits, _, runs, more⟩
    · exact { timed := timed, most := by simpa [step, next] using alone.most,
              idle := by simpa [step, next] using alone.idle }
    · have none_before := alone.idle waits
      exact { timed := timed, most := by simp [step, more, none_before],
              idle := by simp [step, runs] }
  | schedule seconds again =>
    obtain ⟨_, _, _, _, runs, same⟩ := alone.timed.schedule seconds again
    exact { timed := timed, most := by simpa [step, same] using alone.most,
            idle := by simpa [step, runs, same] using alone.idle }
  | stop =>
    obtain ⟨_, _, runs, same⟩ := alone.timed.stop
    exact { timed := timed, most := by simpa [step, same] using alone.most,
            idle := by simpa [step, runs, same] using alone.idle }
  | advance seconds => exact { alone with timed := timed }
  | handle_timeout timer =>
    cases made : self.reactor.expire timer with
    | none => simpa [step, made] using alone
    | some call =>
      have none_before := apart (by simp [made])
      refine { timed := timed, most := ?_, idle := ?_ }
      · simp [step, made, handle_timeout, do_action, none_before]
      · simp [step, made, handle_timeout, do_action]
  | complete =>
    have most := alone.most
    refine { timed := timed, most := ?_, idle := ?_ }
    all_goals
      unfold step complete do_action
      dsimp only
      split_ifs
      all_goals simp_all

theorem overlap {event : Event τ} (busy : ¬ self.Apart event) : 1 < (self.step event).1.invocations := by
  cases event with
  | handle_timeout timer =>
    simp only [Apart, Classical.not_imp] at busy
    obtain ⟨fires, others⟩ := busy
    obtain ⟨call, made⟩ := Option.ne_none_iff_exists'.mp fires
    simp only [step, made, handle_timeout, do_action]
    omega
  | _ => exact absurd trivial busy

/-- What holds after a run. -/
structure Promised (handler : NonRepeatedActionHandler τ) (past : List Action) : Prop where
  alone : handler.invocations ≤ 1
  single : handler.reactor.pending.length ≤ 1
  served : ∀ before later, past = before ++ .asked :: later → .stopped ∉ later →
    .began ∈ later ∨ handler.Scheduled

omit [LinearOrder τ] [Add τ] in
theorem Timed.single (timed : self.Timed) : self.reactor.pending.length ≤ 1 := by
  rw [timed.held.length_pending]
  cases self.timer <;> simp

/-- In every run each call that asks for an invocation gets one, unless `stop` is called. -/
theorem served (seconds : τ) (events : List (Event τ)) {before later : List Action}
    (split : seen step (init seconds) events = before ++ .asked :: later) (going : .stopped ∉ later) :
    .began ∈ later ∨ (final step (init seconds) events).Scheduled := by
  let paid := fun (action : Action) (_ : Unit) => action = .began ∨ action = .stopped
  let owes := fun (action : Action) (call : Unit) => action = .asked ∧ call = ()
  let held := fun (self : NonRepeatedActionHandler τ) (_ : Unit) => self.Scheduled
  have keeps : ∀ (self : NonRepeatedActionHandler τ) event call, self.Timed → held self call →
      held (self.step event).1 call ∨ ∃ action ∈ (self.step event).2, paid action call := by
    intro self event _ timed scheduled
    rcases (step_timed timed event).2 with ⟨_, began | stopped | keeps⟩ | ⟨_, after⟩ | shown
    · exact .inr ⟨_, began, .inl rfl⟩
    · exact .inr ⟨_, stopped, .inr rfl⟩
    · exact .inl (keeps scheduled)
    · exact .inl after
    · exact .inr ⟨.began, by simp [shown], .inl rfl⟩
  have takes : ∀ (self : NonRepeatedActionHandler τ) event call before action later, self.Timed →
      (self.step event).2 = before ++ action :: later → owes action call →
      held (self.step event).1 call ∨ ∃ action ∈ later, paid action call := by
    rintro self event _ before _ later timed shown ⟨rfl, _⟩
    rcases (step_timed timed event).2 with ⟨silent, _⟩ | ⟨_, after⟩ | both
    · exact absurd (by simp [shown]) silent
    · exact .inl after
    · -- `force` begins the invocation at once
      rw [shown] at both
      cases before with
      | nil => exact .inr ⟨.began, by simp_all, .inl rfl⟩
      | cons first rest =>
        obtain ⟨-, tail⟩ := List.cons.inj both
        cases rest <;> simp at tail
  have kept : ∀ (self : NonRepeatedActionHandler τ) event, self.Timed → True → (self.step event).1.Timed :=
    fun _ event timed _ => (step_timed timed event).1
  have owed : held (final step (init seconds) events) () ∨ ∃ action ∈ later, paid action () :=
    owed_of_step kept keeps takes (timed_init seconds) (always_true _ events) split
      (⟨rfl, rfl⟩ : owes .asked ())
  rcases owed with scheduled | ⟨action, member, rfl | rfl⟩
  · exact .inr scheduled
  · exact .inl member
  · exact absurd member going

/-- Invocations do not overlap exactly as long as the timer never fires while one is in progress: `_handle_timeout`
does not look at `_running`. The rest holds in any case. -/
theorem promised_iff (seconds : τ) (events : List (Event τ)) :
    (∀ past, past <+: events → (final step (init seconds) past).Promised (seen step (init seconds) past)) ↔
      Always step Apart (init seconds) events := by
  have lost : ∀ (self : NonRepeatedActionHandler τ) event, self.Alone → ¬ self.Apart event →
      ¬ (self.step event).1.invocations ≤ 1 := fun _ _ _ busy => Nat.not_le.mpr (overlap busy)
  have start : (init seconds).Alone := ⟨timed_init seconds, Nat.zero_le _, fun _ => rfl⟩
  have timed : ∀ past, (final step (init seconds) past).Timed :=
    fun past => final_of_step (fun self event (timed : self.Timed) => (step_timed timed event).1) (timed_init seconds) past
  have alone : (∀ past, past <+: events → (final step (init seconds) past).invocations ≤ 1) ↔
      Always step Apart (init seconds) events :=
    @always_iff _ _ _ step Apart Alone (·.invocations ≤ 1) (fun _ event alone => step_alone alone event) lost
      (fun _ alone => alone.most) _ start events
  rw [← alone]
  constructor
  · intro promised past start
    exact (promised past start).alone
  · intro alone past start
    exact {
      alone := alone past start
      single := (timed past).single
      served := fun before later split going => served seconds past split going }

/-- An invocation asked for while one is in progress begins when its timer fires, although that one goes on. -/
theorem overlapping :
    ¬ ∀ (events : List (Event Nat)), (final step (init 0) events).Promised (seen step (init 0) events) := by
  intro promised
  have alone := (promised [.force false, .schedule 5 true, .advance 5, .handle_timeout 0]).alone
  exact absurd alone (by decide)

end Delays

end NonRepeatedActionHandler

end Umbilical.Util
