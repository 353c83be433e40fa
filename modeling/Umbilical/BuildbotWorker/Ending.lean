import Umbilical.BuildbotWorker.RunProcess

set_option autoImplicit false

/-!
# How a command ends

What each call does to the timers and to the deferred, and what holds after every run.
-/

namespace Umbilical.BuildbotWorker

open Umbilical.Interleaving Umbilical.Python

/-- The deferred of the command fires. -/
def Action.fires : Action → Bool
  | .callback _ | .errback _ => true
  | _ => false

/-- What does not count for the end of the command. -/
def Action.plain : Action → Bool
  | .send_update _ | .kill | .killpg _ | .signalProcess _ | .taskkill _ => true
  | _ => false

theorem Action.silent_of_plain {action : Action} (plain : action.plain = true) : action.fires = false := by
  cases action <;> first | rfl | cases plain

namespace Outcome

variable {τ : Type} {first : Outcome τ} {next : RunProcess τ → Outcome τ}

theorem andThen_of (self : RunProcess τ) (actions : List Action) :
    (of self actions).andThen next = ⟨(next self).self, actions ++ (next self).actions, (next self).raised⟩ := rfl

@[simp] theorem andThen_of_nil (self : RunProcess τ) : (of self []).andThen next = next self := rfl

theorem timers_andThen (kept : (next first.self).self.timers = first.self.timers) :
    (first.andThen next).self.timers = first.self.timers := by
  unfold andThen
  split
  next => rfl
  next => exact kept

end Outcome

namespace RunProcess

variable {τ : Type} {command : Command τ} {answers : Answers} {self : RunProcess τ} {signal : String}

/-! ## Timers -/

/-- The timers that are kept in the fields are the ones that are pending. A signal is waited for, or the end of the
process after it. -/
structure Sound (command : RunProcess τ) : Prop where
  held : command.reactor.Held command.timers
  apart : command.timers .sigtermTimer = none ∨ command.timers .killTimer = none

theorem cancelTimer_spec (self : RunProcess τ) (held : self.reactor.Held self.timers) (timer : Timer) :
    ∃ reactor : Reactor τ Timer, self.cancelTimer timer =
        .of { self with reactor := reactor, timers := Function.update self.timers timer none } [] ∧
      reactor.Held (Function.update self.timers timer none) := by
  unfold cancelTimer
  split
  next field =>
    have unchanged : Function.update self.timers timer none = self.timers := by
      rw [← field, Function.update_eq_self]
    rw [unchanged]
    exact ⟨self.reactor, rfl, held⟩
  next id field =>
    rw [held.cancel timer field]
    exact ⟨_, rfl, held.without timer field⟩

theorem cancel_each (names : List Timer) (self : RunProcess τ) (held : self.reactor.Held self.timers) :
    ∃ (reactor : Reactor τ Timer) (timers : Timer → Option Nat),
      names.foldl (fun (outcome : Outcome τ) timer => outcome.andThen (·.cancelTimer timer)) (.of self []) =
        .of { self with reactor := reactor, timers := timers } [] ∧
      reactor.Held timers ∧ (∀ timer ∈ names, timers timer = none) ∧ ∀ timer, self.timers timer = none → timers timer = none := by
  induction names generalizing self with
  | nil => exact ⟨self.reactor, self.timers, rfl, held, nofun, fun _ free => free⟩
  | cons name names ih =>
    obtain ⟨reactor, cancelled, kept⟩ := cancelTimer_spec self held name
    obtain ⟨last, timers, all, heldLast, gone, free⟩ :=
      ih { self with reactor := reactor, timers := Function.update self.timers name none } kept
    refine ⟨last, timers, ?_, heldLast, ?_, ?_⟩
    · rw [List.foldl_cons, Outcome.andThen_of_nil, cancelled]
      exact all
    · intro timer member
      rcases List.mem_cons.mp member with rfl | later
      · exact free _ (by simp)
      · exact gone timer later
    · intro timer before
      apply free
      by_cases same : timer = name
      · simp [same]
      · simpa [Function.update_of_ne same] using before

theorem cancelTimers_spec (self : RunProcess τ) (held : self.reactor.Held self.timers) :
    ∃ reactor : Reactor τ Timer, self.cancelTimers = .of { self with reactor := reactor, timers := fun _ => none } [] ∧
      reactor.Held fun _ => none := by
  obtain ⟨reactor, timers, cancelled, kept, gone, _⟩ :=
    cancel_each [.ioTimeoutTimer, .killTimer, .maxTimeoutTimer, .sigtermTimer] self held
  have none_left : timers = fun _ => none := by
    funext timer
    exact gone timer (by cases timer <;> decide)
  rw [none_left] at cancelled kept
  exact ⟨reactor, cancelled, kept⟩

/-- A signal may take the group from the process, and does nothing else. -/
theorem sendSig_spec (command : Command τ) (answers : Answers) (self : RunProcess τ) (signal : String) :
    ∃ pgid, (self.sendSig command answers signal).self = { self with pgid := pgid } ∧
      ∀ action ∈ (self.sendSig command answers signal).actions, action.plain = true ∧ action ≠ .kill := by
  have process : (self.signalProcess answers signal).self = self ∧
      ∀ action ∈ (self.signalProcess answers signal).actions, action.plain = true ∧ action ≠ .kill := by
    unfold signalProcess
    split <;> simp [Outcome.of, Action.plain]
  unfold sendSig
  split
  next =>
    split
    next => exact ⟨none, rfl, by simp [Outcome.of, Action.plain]⟩
    next => exact ⟨self.pgid, process⟩
  next =>
    split
    next =>
      refine ⟨self.pgid, ?_⟩
      unfold win32_taskkill
      split
      next => exact ⟨rfl, nofun⟩
      next =>
        refine ⟨rfl, ?_⟩
        simp only [Outcome.of]
        split <;> simp [Action.plain]
      next => exact ⟨rfl, nofun⟩
    next => exact ⟨self.pgid, process⟩

/-- Whether a signal raises is a matter of the process only. -/
theorem raised_sendSig (command : Command τ) (answers : Answers) (signal : String) {other : RunProcess τ} (pgid : other.pgid = self.pgid) (job : other.job_object = self.job_object) :
    (other.sendSig command answers signal).raised = (self.sendSig command answers signal).raised := by
  unfold sendSig win32_taskkill signalProcess
  rw [pgid, job]
  split
  next =>
    split
    next => rfl
    next => split <;> rfl
  next =>
    split
    next => split <;> rfl
    next => split <;> rfl

/-- A call that does not end the command. While nothing is pending after the end, `quiet` keeps it so. -/
structure Calm (quiet : Prop) (before : RunProcess τ) (outcome : Outcome τ) : Prop where
  sound : outcome.self.Sound
  deferred : outcome.self.deferred = before.deferred
  requested : outcome.self.requested = before.requested
  killed : before.killed = true ∨ .kill ∈ outcome.actions → outcome.self.killed = true
  plain : ∀ action ∈ outcome.actions, action.plain = true
  stays : quiet → before.deferred = false → (∀ timer, before.timers timer = none) → ∀ timer, outcome.self.timers timer = none

theorem Calm.of {next : RunProcess τ} {actions : List Action} (sound : next.Sound) (timers : next.timers = self.timers)
    (deferred : next.deferred = self.deferred) (requested : next.requested = self.requested)
    (killed : next.killed = self.killed) (plain : ∀ action ∈ actions, action.plain = true ∧ action ≠ .kill) :
    Calm True self (.of next actions) where
  sound := sound
  deferred := deferred
  requested := requested
  killed := by
    rintro (already | now)
    · exact killed.trans already
    · exact absurd rfl (plain .kill now).2
  plain action member := (plain action member).1
  stays _ _ none_before := by
    rw [Outcome.of, timers]
    exact none_before

theorem Calm.andThen {quiet : Prop} {first : Outcome τ} {next : RunProcess τ → Outcome τ} (calm : Calm quiet self first)
    (later : first.self.Sound → Calm quiet first.self (next first.self)) : Calm quiet self (first.andThen next) := by
  unfold Outcome.andThen
  split
  next => exact calm
  next =>
    have after := later calm.sound
    refine ⟨after.sound, after.deferred.trans calm.deferred, after.requested.trans calm.requested, ?_, ?_, ?_⟩
    · rintro (already | now)
      · exact after.killed (.inl (calm.killed (.inl already)))
      · rcases List.mem_append.mp now with early | late
        · exact after.killed (.inl (calm.killed (.inr early)))
        · exact after.killed (.inr late)
    · intro action member
      rcases List.mem_append.mp member with early | late
      · exact calm.plain action early
      · exact after.plain action late
    · intro still ceased none_before
      exact after.stays still (calm.deferred.trans ceased) (calm.stays still ceased none_before)

theorem Calm.weaken {quiet : Prop} {outcome : Outcome τ} (calm : Calm True self outcome) : Calm quiet self outcome :=
  { calm with stays := fun _ => calm.stays trivial }

theorem calm_sendSig (command : Command τ) (answers : Answers) (signal : String) (sound : self.Sound) :
    Calm True self (self.sendSig command answers signal) := by
  obtain ⟨pgid, same, plain⟩ := sendSig_spec command answers self signal
  have states : (self.sendSig command answers signal).self.Sound ∧
      (self.sendSig command answers signal).self.timers = self.timers := by
    rw [same]
    exact ⟨⟨sound.held, sound.apart⟩, rfl⟩
  refine ⟨states.1, by rw [same], by rw [same], ?_, fun action member => (plain action member).1, ?_⟩
  · rintro (already | now)
    · rw [same]
      exact already
    · exact absurd rfl (plain .kill now).2
  · intro _ _ none_before
    rw [states.2]
    exact none_before

theorem calm_send_update (self : RunProcess τ) (sound : self.Sound) (update : Update) :
    Calm True self (self.send_update update) := .of sound rfl rfl rfl rfl (by simp [Action.plain])

variable [Add τ]

variable [OfNat τ 5]

theorem calm_cleanUp (command : Command τ) (self : RunProcess τ) (sound : self.Sound) (kill : self.timers .killTimer = none)
    (sigterm : self.timers .sigtermTimer = none) : Calm True self (self.cleanUp command) := by
  have after : ∀ job, Calm True self (.of (if self.deferred then
      { self with job_object := job }.callLater BACKUP_TIMEOUT .killTimer else { self with job_object := job }) []) := by
    intro job
    by_cases running : self.deferred = true
    · rw [if_pos running]
      exact {
        sound := ⟨sound.held.callLater .killTimer kill _, .inl (by simpa [Outcome.of, callLater] using sigterm)⟩
        deferred := rfl
        requested := rfl
        killed := by rintro (already | now); exacts [already, nomatch now]
        plain := nofun
        stays := fun _ ceased => by simp [ceased] at running }
    · rw [if_neg running]
      exact .of ⟨sound.held, sound.apart⟩ rfl rfl rfl rfl (by simp)
  unfold cleanUp
  dsimp only
  split
  next => exact after .closed
  next => exact { (Calm.of sound rfl rfl rfl rfl (by simp) : Calm True self (.of self [])) with }
  next => exact after self.job_object

/-- A TERM that is sent is followed by another signal only after a time. -/
def Waits (command : Command τ) (answers : Answers) (self : RunProcess τ) : Prop :=
  command.sigtermTime ≠ none ∧ (self.sendSig command answers "TERM").raised = false

theorem calm_interrupt (command : Command τ) (answers : Answers) (self : RunProcess τ) (sound : self.Sound) (free : ∀ timer, self.timers timer = none) :
    Calm (¬ self.Waits command answers) self (self.interrupt command answers) ∧
      (self.Waits command answers → (self.interrupt command answers).self.timers .sigtermTimer ≠ none) := by
  have sent : ∀ signal, (self.sendSig command answers signal).self.timers = self.timers := by
    intro signal
    obtain ⟨pgid, same, _⟩ := sendSig_spec command answers self signal
    rw [same]
  unfold interrupt
  cases time : command.sigtermTime with
  | none =>
    refine ⟨((calm_sendSig _ _ _ sound).andThen fun after => calm_cleanUp command _ after ?_ ?_).weaken,
      fun waits => absurd time waits.1⟩
    · rw [sent]
      exact free _
    · rw [sent]
      exact free _
  | some seconds =>
    dsimp only
    unfold Outcome.andThen
    cases raises : (self.sendSig command answers "TERM").raised with
    | true =>
      rw [if_pos rfl]
      exact ⟨(calm_sendSig _ _ _ sound).weaken, fun waits => by simp [Waits, raises] at waits⟩
    | false =>
      have calm := calm_sendSig command answers "TERM" sound
      have waits : self.Waits command answers := ⟨by simp [time], raises⟩
      rw [if_neg (by decide)]
      refine ⟨⟨?_, calm.deferred, calm.requested, ?_, ?_, fun quiet => absurd waits quiet⟩, fun _ => ?_⟩
      · have none_left : ∀ timer, (self.sendSig command answers "TERM").self.timers timer = none := by
          rw [sent]
          exact free
        exact ⟨calm.sound.held.callLater .sigtermTimer (none_left _) seconds, .inr (by simp [Outcome.of, callLater, none_left])⟩
      · simpa [Outcome.of, callLater] using calm.killed
      · simpa [Outcome.of] using calm.plain
      · simp [Outcome.of, callLater]

theorem calm_kill (command : Command τ) (answers : Answers) (self : RunProcess τ) (sound : self.Sound) (msg : String) :
    Calm (¬ self.Waits command answers) self (self.kill command answers msg) ∧ (self.kill command answers msg).self.killed = true ∧
      (self.Waits command answers → (self.kill command answers msg).self.timers .sigtermTimer ≠ none) := by
  obtain ⟨reactor, cancelled, kept⟩ := cancelTimers_spec self sound.held
  let ready : RunProcess τ := { self with reactor := reactor, timers := fun _ => none, killed := true }
  obtain ⟨calm, waits⟩ := calm_interrupt command answers ready ⟨kept, .inl rfl⟩ fun _ => rfl
  have killed : (ready.interrupt command answers).self.killed = true := calm.killed (.inl rfl)
  have same : self.kill command answers msg = ⟨(ready.interrupt command answers).self,
      .kill :: .send_update (.header ("\n" ++ msg ++ ", attempting to kill" ++ "\n")) :: (ready.interrupt command answers).actions,
      (ready.interrupt command answers).raised⟩ := by
    rw [kill, Outcome.andThen_of, cancelled]
    rfl
  have when : self.Waits command answers ↔ ready.Waits command answers := by
    have raises : (ready.sendSig command answers "TERM").raised = (self.sendSig command answers "TERM").raised :=
      raised_sendSig command answers "TERM" rfl rfl
    rw [Waits, Waits, raises]
  rw [same]
  refine ⟨⟨calm.sound, calm.deferred, calm.requested, fun _ => killed, ?_, ?_⟩, killed, fun wait => waits (when.mp wait)⟩
  · intro action member
    simp only [List.mem_cons] at member
    rcases member with rfl | rfl | later
    · rfl
    · rfl
    · exact calm.plain action later
  · intro quiet ceased _
    exact calm.stays (fun wait => quiet (when.mpr wait)) ceased fun _ => rfl

variable [ToString τ]

theorem calm_doTimeout (sound : self.Sound) : Calm False self (self.doTimeout command answers) :=
  (calm_send_update self sound _).weaken.andThen fun after => { (calm_kill command answers _ after _).1 with stays := nofun }

theorem calm_doMaxTimeout (sound : self.Sound) : Calm False self (self.doMaxTimeout command answers) :=
  (calm_send_update self sound _).weaken.andThen fun after => { (calm_kill command answers _ after _).1 with stays := nofun }

/-- The output goes on after as many lines as are allowed, for the first time. -/
def Overflows (command : Command τ) (self : RunProcess τ) (data : Text) : Prop :=
  ∃ max_lines, command.max_lines = some max_lines ∧ max_lines < self.line_count + lineEnds data ∧ self.max_line_kill = false

omit [ToString τ] in
theorem calm_check_max_lines (command : Command τ) (answers : Answers) (self : RunProcess τ) (sound : self.Sound) (data : Text) :
    Calm (¬ (self.Overflows command data ∧ self.Waits command answers)) self (self.check_max_lines command answers data) ∧
      (self.Overflows command data ∧ self.Waits command answers →
        (self.check_max_lines command answers data).self.timers .sigtermTimer ≠ none) := by
  unfold check_max_lines
  cases limit : command.max_lines with
  | none =>
    have calm : Calm True self (.of self []) := .of sound rfl rfl rfl rfl (by simp)
    refine ⟨calm.weaken, ?_⟩
    rintro ⟨⟨max_lines, some_limit, _⟩, _⟩
    simp [limit] at some_limit
  | some max_lines =>
    dsimp only
    split
    next ceased =>
      simp only [Bool.and_eq_true, decide_eq_true_eq, Bool.not_eq_true'] at ceased
      let counted : RunProcess τ := { self with line_count := self.line_count + lineEnds data, max_line_kill := true }
      have overflows : self.Overflows command data := ⟨max_lines, limit, ceased.1, ceased.2⟩
      obtain ⟨calm, _, waits⟩ := calm_kill command answers counted ⟨sound.held, sound.apart⟩
        s!"command exceeds max lines: {counted.line_count}/{max_lines} written/allowed running {command.fake_command}"
      have raises : (counted.sendSig command answers "TERM").raised = (self.sendSig command answers "TERM").raised :=
        raised_sendSig command answers "TERM" rfl rfl
      have when : counted.Waits command answers ↔ self.Waits command answers := by rw [Waits, Waits, raises]
      constructor
      · have whole : Calm (¬ counted.Waits command answers) counted (counted.do_max_lines command answers max_lines) :=
          (calm_send_update counted ⟨sound.held, sound.apart⟩ _).weaken.andThen fun _ => calm
        exact { whole with stays := fun quiet => whole.stays fun wait => quiet ⟨overflows, when.mp wait⟩ }
      · rintro ⟨_, wait⟩
        exact waits (when.mpr wait)
    next under =>
      have calm : Calm True self (.of { self with line_count := self.line_count + lineEnds data } []) :=
        .of ⟨sound.held, sound.apart⟩ rfl rfl rfl rfl (by simp)
      refine ⟨calm.weaken, ?_⟩
      rintro ⟨⟨other, some_limit, more, first⟩, _⟩
      rw [limit] at some_limit
      cases some_limit
      simp [more, first] at under

omit [OfNat τ 5] [ToString τ] in
theorem touch_spec (command : Command τ) (self : RunProcess τ) (held : self.reactor.Held self.timers) : ∃ reactor : Reactor τ Timer,
    self.touch command = .of { self with reactor := reactor } [] ∧ reactor.Held self.timers := by
  unfold touch
  split
  next id timeout field _ =>
    rw [held.reset .ioTimeoutTimer field]
    exact ⟨_, rfl, held.postpone timeout⟩
  next => exact ⟨self.reactor, rfl, held⟩

omit [OfNat τ 5] [ToString τ] in
theorem calm_touch (command : Command τ) (self : RunProcess τ) (sound : self.Sound) : Calm True self (self.touch command) := by
  obtain ⟨reactor, same, kept⟩ := touch_spec command self sound.held
  rw [same]
  exact .of ⟨kept, sound.apart⟩ rfl rfl rfl rfl (by simp)

omit [ToString τ] in
/-- What output does to a command that has ended is the matter of a signal that the number of its lines gives rise to. -/
theorem calm_addOutput (command : Command τ) (answers : Answers) (self : RunProcess τ) (sound : self.Sound) (sends : Bool)
    (update : Text → Update) (data : Text) :
    Calm (¬ (sends = true ∧ self.Overflows command data ∧ self.Waits command answers)) self
        (self.addOutput command answers sends update data) ∧
      (sends = true ∧ self.Overflows command data ∧ self.Waits command answers →
        (self.addOutput command answers sends update data).self.timers .sigtermTimer ≠ none) := by
  unfold addOutput
  cases sends with
  | false =>
    rw [if_neg (by decide), Outcome.andThen_of_nil]
    exact ⟨(calm_touch command self sound).weaken, fun both => absurd both.1 (by decide)⟩
  | true =>
    rw [if_pos rfl]
    obtain ⟨calm, waits⟩ := calm_check_max_lines command answers self sound data
    let quiet := ¬ (self.Overflows command data ∧ self.Waits command answers)
    have sent : Calm quiet self ((self.check_max_lines command answers data).andThen (·.send_update (update data))) :=
      calm.andThen fun after => (calm_send_update _ after (update data)).weaken
    have all : Calm quiet self (((self.check_max_lines command answers data).andThen
        (·.send_update (update data))).andThen (·.touch command)) :=
      sent.andThen fun after => (calm_touch command _ after).weaken
    refine ⟨{ all with stays := fun quiet => all.stays fun both => quiet ⟨rfl, both⟩ }, fun both => ?_⟩
    obtain ⟨reactor, same, _⟩ := touch_spec command _ sent.sound.held
    rw [Outcome.timers_andThen (by rw [same]; rfl), Outcome.timers_andThen rfl]
    exact waits both.2

omit [OfNat τ 5] [ToString τ] in
theorem addLogfile_spec (command : Command τ) (self : RunProcess τ) (held : self.reactor.Held self.timers) (name : String) (data : Text) :
    ∃ reactor : Reactor τ Timer, self.addLogfile command name data =
      .of { self with reactor := reactor } [.send_update (.log name data)] ∧ reactor.Held self.timers := by
  obtain ⟨reactor, same, kept⟩ := touch_spec command self held
  refine ⟨reactor, ?_, kept⟩
  rw [addLogfile, send_update, Outcome.andThen_of, same]
  rfl

omit [OfNat τ 5] [ToString τ] in
theorem calm_addLogfile (command : Command τ) (self : RunProcess τ) (sound : self.Sound) (name : String) (data : Text) :
    Calm True self (self.addLogfile command name data) := by
  obtain ⟨reactor, same, kept⟩ := addLogfile_spec command self sound.held name data
  rw [same]
  exact .of ⟨kept, sound.apart⟩ rfl rfl rfl rfl (by simp [Action.plain])

omit [OfNat τ 5] [ToString τ] in
/-- The last polls are updates, and only a file that cannot be read raises. -/
theorem stopWatchers_spec (command : Command τ) (self : RunProcess τ) (held : self.reactor.Held self.timers) (polls : List (String × Text))
    (unreadable : Bool) :
    ∃ (reactor : Reactor τ Timer) (actions : List Action), self.stopWatchers command polls unreadable =
        ⟨{ self with reactor := reactor }, actions, unreadable⟩ ∧ reactor.Held self.timers ∧
      ∀ action ∈ actions, action.plain = true ∧ action ≠ .kill := by
  have polled : ∀ (polls : List (String × Text)) (reactor : Reactor τ Timer) (actions : List Action),
      reactor.Held self.timers → (∀ action ∈ actions, action.plain = true ∧ action ≠ .kill) →
      ∃ (last : Reactor τ Timer) (shown : List Action),
        polls.foldl (fun (outcome : Outcome τ) poll => outcome.andThen (·.addLogfile command poll.1 poll.2))
          (.of { self with reactor := reactor } actions) = .of { self with reactor := last } shown ∧
        last.Held self.timers ∧ ∀ action ∈ shown, action.plain = true ∧ action ≠ .kill := by
    intro polls
    induction polls with
    | nil => exact fun reactor actions kept plain => ⟨reactor, actions, rfl, kept, plain⟩
    | cons poll polls ih =>
      intro reactor actions kept plain
      obtain ⟨next, same, heldNext⟩ := addLogfile_spec command { self with reactor := reactor } kept poll.1 poll.2
      obtain ⟨last, shown, all, heldLast, plainLast⟩ := ih next (actions ++ [.send_update (.log poll.1 poll.2)]) heldNext (by
        intro action member
        rcases List.mem_append.mp member with early | new
        · exact plain action early
        · cases List.mem_singleton.mp new
          exact ⟨rfl, nofun⟩)
      refine ⟨last, shown, ?_, heldLast, plainLast⟩
      rw [List.foldl_cons, Outcome.andThen_of, same]
      exact all
  obtain ⟨reactor, actions, all, kept, plain⟩ := polled polls self.reactor [] held (by simp)
  refine ⟨reactor, actions, ?_, kept, plain⟩
  have from_start : polls.foldl (fun (outcome : Outcome τ) poll => outcome.andThen (·.addLogfile command poll.1 poll.2))
      (.of self []) = .of { self with reactor := reactor } actions := all
  rw [stopWatchers, from_start, Outcome.andThen_of]
  simp

/-! ## The ends -/

/-- The deferred has fired, unless it had before, and nothing is pending. -/
structure Closed (fire : Action) (before : RunProcess τ) (outcome : Outcome τ) : Prop where
  held : outcome.self.reactor.Held outcome.self.timers
  timers : ∀ timer, outcome.self.timers timer = none
  deferred : outcome.self.deferred = false
  requested : outcome.self.requested = before.requested
  killed : outcome.self.killed = before.killed
  actions : ∃ shown, outcome.actions = shown ++ (if before.deferred then [fire] else []) ∧
    ∀ action ∈ shown, action.plain = true ∧ action ≠ .kill

omit [Add τ] [OfNat τ 5] [ToString τ] in
theorem closed_callback (self : RunProcess τ) (held : self.reactor.Held self.timers) (fire : Action) :
    Closed fire self (self.cancelTimers.andThen fun self => self.callback fire) := by
  obtain ⟨reactor, cancelled, kept⟩ := cancelTimers_spec self held
  rw [cancelled, Outcome.andThen_of_nil]
  exact ⟨kept, fun _ => rfl, rfl, rfl, rfl, [], rfl, by simp⟩

omit [Add τ] [OfNat τ 5] [ToString τ] in
/-- Updates before the end. -/
theorem Closed.after {fire : Action} {before : RunProcess τ} {outcome : Outcome τ} {actions : List Action}
    (closed : Closed fire before outcome) (plain : ∀ action ∈ actions, action.plain = true ∧ action ≠ .kill) :
    Closed fire before ⟨outcome.self, actions ++ outcome.actions, outcome.raised⟩ := by
  obtain ⟨shown, same, others⟩ := closed.actions
  refine ⟨closed.held, closed.timers, closed.deferred, closed.requested, closed.killed, actions ++ shown, ?_, ?_⟩
  · rw [same, List.append_assoc]
  · intro action member
    rcases List.mem_append.mp member with early | late
    · exact plain action early
    · exact others action late

omit [Add τ] [OfNat τ 5] [ToString τ] in
theorem doBackupTimeout_spec (command : Command τ) (self : RunProcess τ) (held : self.reactor.Held self.timers) :
    ∃ outcome, self.doBackupTimeout command = ⟨outcome.self, .abandoned :: outcome.actions, outcome.raised⟩ ∧
      Closed (.errback ("SIG" ++ command.interruptSignal ++ " failed to kill process")) self outcome := by
  refine ⟨_, rfl, ?_⟩
  refine .after (.after (closed_callback self held _) ?_) (by simp [Action.plain, send_update, Outcome.of])
  split <;> simp [Action.plain, Outcome.of]

omit [Add τ] [OfNat τ 5] [ToString τ] in
theorem closed_complete (command : Command τ) (self : RunProcess τ) (held : self.reactor.Held self.timers) (sig : Option Nat)
    (rc : Option Int) :
    Closed (.callback (if sig.isSome then some (-1) else rc)) self (self.complete command sig rc) := by
  have timed : Closed (.callback (if sig.isSome then some (-1) else rc)) self
      ((self.send_update (.header s!"elapsedTime={command.elapsedTime self.reactor.seconds}\n")).andThen fun self =>
        self.cancelTimers.andThen fun self => self.callback (.callback (if sig.isSome then some (-1) else rc))) :=
    .after (closed_callback self held _) (by simp [Action.plain, send_update, Outcome.of])
  refine timed.after ?_
  intro action member
  by_cases told : command.sendRC = true
  · cases sig with
    | none =>
      simp only [Outcome.of, told, if_true, List.nil_append, List.mem_singleton] at member
      subst member
      exact ⟨rfl, by simp⟩
    | some sig =>
      simp only [Outcome.of, told, if_true, List.cons_append, List.nil_append, List.mem_cons, List.not_mem_nil, or_false]
        at member
      rcases member with rfl | rfl <;> exact ⟨rfl, by simp⟩
  · simp [Outcome.of, told] at member

omit [OfNat τ 5] [ToString τ] in
/-- The command goes on only if the last polls fail. -/
theorem finished_spec (command : Command τ) (self : RunProcess τ) (sound : self.Sound) (sig : Option Nat) (rc : Option Int)
    (polls : List (String × Text)) (unreadable : Bool) :
    (unreadable = true → Calm True self (self.finished command sig rc polls unreadable)) ∧
      (unreadable = false → Closed (.callback (if sig.isSome then some (-1) else rc)) self
        (self.finished command sig rc polls unreadable)) := by
  obtain ⟨reactor, actions, stopped, kept, plain⟩ := stopWatchers_spec command self sound.held polls unreadable
  constructor
  · rintro rfl
    rw [finished, stopped]
    have calm : Calm True self (.of { self with reactor := reactor } actions) :=
      .of ⟨kept, sound.apart⟩ rfl rfl rfl rfl plain
    exact { calm with }
  · rintro rfl
    rw [finished, stopped]
    have closed : Closed (.callback (if sig.isSome then some (-1) else rc)) { self with reactor := reactor }
        ((Outcome.of { self with reactor := reactor } actions).andThen fun self => self.complete command sig rc) :=
      .after (closed_complete command { self with reactor := reactor } kept sig rc) plain
    exact { closed with }

omit [OfNat τ 5] [ToString τ] in
theorem processEnded_spec (command : Command τ) (self : RunProcess τ) (sound : self.Sound) (sig : Option Nat) (rc : Option Int)
    (polls : List (String × Text)) (unreadable : Bool) :
    ∃ outcome, self.processEnded command sig rc polls unreadable = ⟨outcome.self, .ended :: outcome.actions, outcome.raised⟩ ∧
      (unreadable = true → Calm True self outcome) ∧
      (unreadable = false → ∃ code, Closed (.callback code) self outcome ∧ (self.killed = true → code ≠ some 0)) := by
  refine ⟨_, rfl, ?_⟩
  obtain ⟨calm, closed⟩ := finished_spec command self sound sig
    (if self.killed && rc = some 0 then some (if command.platformType = .win32 then 1 else -1) else rc) polls unreadable
  refine ⟨calm, fun readable => ⟨_, closed readable, fun killed => ?_⟩⟩
  rw [killed]
  by_cases signalled : sig.isSome = true
  · simp [signalled]
  · by_cases zero : rc = some 0
    · by_cases windows : command.platformType = .win32 <;> simp [signalled, zero, windows]
    · simp [signalled, zero]

omit [ToString τ] in
/-- The interrupt goes to the group only if its process group is still known and its leader alive. -/
theorem checkProcess_spec (command : Command τ) (answers : Answers) (self : RunProcess τ) (sound : self.Sound)
    (kill : self.timers .killTimer = none) (sigterm : self.timers .sigtermTimer = none) :
    ∃ outcome, self.checkProcess command answers = ⟨outcome.self, .expired answers.group :: outcome.actions, outcome.raised⟩ ∧
      Calm True self outcome ∧
      (command.procGroup = true → (.killpg command.interruptSignal ∈ outcome.actions ↔
        (answers.pid = true ∧ answers.alive = true) ∧ command.signals ("SIG" ++ command.interruptSignal) = true ∧
          self.pgid ≠ none ∧ answers.killpg = true)) := by
  refine ⟨(if answers.pid && answers.alive then self.sendSig command answers command.interruptSignal
    else .of self []).andThen fun self => self.cleanUp command, rfl, ?_, ?_⟩
  · have sent : Calm True self (if answers.pid && answers.alive then self.sendSig command answers command.interruptSignal
        else .of self []) := by
      split
      next => exact calm_sendSig command answers _ sound
      next => exact .of sound rfl rfl rfl rfl (by simp)
    have timers : (if answers.pid && answers.alive then self.sendSig command answers command.interruptSignal
        else .of self []).self.timers = self.timers := by
      split
      next =>
        obtain ⟨pgid, same, _⟩ := sendSig_spec command answers self command.interruptSignal
        rw [same]
      next => rfl
    refine sent.andThen fun after => calm_cleanUp command _ after ?_ ?_
    · rw [timers]
      exact kill
    · rw [timers]
      exact sigterm
  · intro group
    have silent : ∀ other : RunProcess τ, (other.cleanUp command).actions = [] := by
      intro other
      unfold cleanUp
      dsimp only
      split <;> rfl
    have shown : ∀ first : Outcome τ, (first.andThen fun self => self.cleanUp command).actions = first.actions := by
      intro first
      unfold Outcome.andThen
      split
      next => rfl
      next => rw [silent, List.append_nil]
    rw [shown]
    by_cases alive : answers.pid = true ∧ answers.alive = true
    · have both : (answers.pid && answers.alive) = true := by simp [alive]
      have process : Action.killpg command.interruptSignal ∉
          (self.signalProcess answers command.interruptSignal).actions := by
        unfold signalProcess
        split <;> simp [Outcome.of]
      rw [if_pos both, sendSig, if_pos group]
      by_cases reached : (command.signals ("SIG" ++ command.interruptSignal) && self.pgid.isSome && answers.killpg) = true
      · rw [if_pos reached]
        simp only [Bool.and_eq_true, Option.isSome_iff_ne_none] at reached
        simp [Outcome.of, alive, reached]
      · rw [if_neg reached]
        simp only [Bool.and_eq_true, Option.isSome_iff_ne_none] at reached
        exact iff_of_false process fun all => reached ⟨⟨all.2.1, all.2.2.1⟩, all.2.2.2⟩
    · have neither : ¬ (answers.pid && answers.alive) = true := by simpa using alive
      rw [if_neg neither]
      exact iff_of_false (by simp [Outcome.of]) fun all => alive all.1

end RunProcess

end Umbilical.BuildbotWorker
