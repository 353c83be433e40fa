import Mathlib.Data.Nat.Basic
import Umbilical.BuildbotWorker.Ending

set_option autoImplicit false

/-!
# Runs of a command

What is promised of a command in every run, and the exact runs in which it is kept.
-/

namespace Umbilical.BuildbotWorker

open Umbilical.Interleaving Umbilical.Python

namespace RunProcess

variable {τ : Type}

/-- What holds after a run. -/
structure Ends (command : Command τ) (process : RunProcess τ) (past : List Action) : Prop where
  once : past.countP Action.fires ≤ 1
  ended : .ended ∈ past ∨ .abandoned ∈ past → past.countP Action.fires = 1
  codes : ∀ before rc later, past = before ++ .callback rc :: later → .kill ∈ before → rc ≠ some 0
  rests : ∀ before fire later, past = before ++ fire :: later → fire.fires = true → .requested ∉ later →
    process.reactor.pending = []
  group : command.procGroup = true → ∀ before later, past = before ++ .expired true :: later →
    .killpg command.interruptSignal ∈ later

/-- The deferred has fired, and `kill` was not called from outside since. -/
def Settled (past : List Action) : Prop :=
  ∃ before fire later, past = before ++ fire :: later ∧ fire.fires = true ∧ .requested ∉ later

structure Told (command : Command τ) (process : RunProcess τ) (past : List Action) : Prop where
  sound : process.Sound
  fires : past.countP Action.fires = if process.deferred then 0 else 1
  ceased : .ended ∈ past ∨ .abandoned ∈ past → process.deferred = false
  killed : .kill ∈ past → process.killed = true
  codes : ∀ before rc later, past = before ++ .callback rc :: later → .kill ∈ before → rc ≠ some 0
  unasked : process.deferred = true → process.requested = false
  settled : Settled past ↔ process.deferred = false ∧ process.requested = false
  stays : process.deferred = false → process.requested = false → ∀ timer, process.timers timer = none
  group : command.procGroup = true → ∀ before later, past = before ++ .expired true :: later →
    .killpg command.interruptSignal ∈ later

variable {command : Command τ} {self next : RunProcess τ} {past new : List Action}

theorem Told.ends (told : Told command self past) : Ends command self past where
  once := by
    rw [told.fires]
    split <;> omega
  ended ceased := by
    rw [told.fires, if_neg (by simp [told.ceased ceased])]
  codes := told.codes
  rests before fire later split fires unasked := by
    obtain ⟨finished, quiet⟩ := told.settled.mp ⟨before, fire, later, split, fires, unasked⟩
    exact told.sound.held.pending_eq_nil (told.stays finished quiet)
  group := told.group

theorem Settled.of_append (settled : Settled (past ++ new)) :
    (Settled past ∧ .requested ∉ new) ∨ ∃ fire ∈ new, fire.fires = true := by
  obtain ⟨before, fire, later, split, fires, unasked⟩ := settled
  rcases split_append split with ⟨middle, early, rfl⟩ | ⟨middle, _, late⟩
  · rw [List.mem_append, not_or] at unasked
    exact .inl ⟨⟨before, fire, middle, early, fires, unasked.1⟩, unasked.2⟩
  · exact .inr ⟨fire, by simp [late], fires⟩

theorem Settled.append (settled : Settled past) (unasked : .requested ∉ new) : Settled (past ++ new) := by
  obtain ⟨before, fire, later, rfl, fires, quiet⟩ := settled
  refine ⟨before, fire, later ++ new, by simp, fires, ?_⟩
  rw [List.mem_append, not_or]
  exact ⟨quiet, unasked⟩

/-- What a step adds to a run when it does not end the command. -/
theorem Told.extend (told : Told command self past) (sound : next.Sound) (deferred : next.deferred = self.deferred)
    (silent : ∀ action ∈ new, action.fires = false) (ceased : .ended ∈ new ∨ .abandoned ∈ new → self.deferred = false)
    (killed : self.killed = true ∨ .kill ∈ new → next.killed = true)
    (unasked : next.deferred = true → next.requested = false)
    (settled : self.deferred = false → (next.requested = false ↔ .requested ∉ new ∧ self.requested = false))
    (stays : self.deferred = false → next.requested = false → ∀ timer, next.timers timer = none)
    (group : command.procGroup = true → ∀ before later, new = before ++ .expired true :: later →
      .killpg command.interruptSignal ∈ later) : Told command next (past ++ new) where
  sound := sound
  fires := by
    have none_new : new.countP Action.fires = 0 := by
      rw [List.countP_eq_zero]
      intro action member
      simp [silent action member]
    rw [List.countP_append, none_new, told.fires, deferred]
    rfl
  ceased := by
    intro ends
    rw [deferred]
    simp only [List.mem_append] at ends
    by_cases early : .ended ∈ past ∨ .abandoned ∈ past
    · exact told.ceased early
    · exact ceased (by tauto)
  killed member := by
    rcases List.mem_append.mp member with early | late
    · exact killed (.inl (told.killed early))
    · exact killed (.inr late)
  codes before rc later split kill := by
    rcases split_append split with ⟨middle, early, rfl⟩ | ⟨middle, _, late⟩
    · exact told.codes before rc middle early kill
    · have fires := silent (.callback rc) (by simp [late])
      cases fires
  unasked := unasked
  settled := by
    rw [deferred]
    constructor
    · intro now
      rcases now.of_append with ⟨before, quiet⟩ | ⟨fire, member, fires⟩
      · obtain ⟨finished, unasked⟩ := told.settled.mp before
        exact ⟨finished, (settled finished).mpr ⟨quiet, unasked⟩⟩
      · simp [silent fire member] at fires
    · rintro ⟨finished, quiet⟩
      obtain ⟨unasked, before⟩ := (settled finished).mp quiet
      exact (told.settled.mpr ⟨finished, before⟩).append unasked
  stays finished quiet := stays (deferred.symm.trans finished) quiet
  group inGroup before later split := by
    rcases split_append split with ⟨middle, early, rfl⟩ | ⟨middle, _, late⟩
    · exact List.mem_append_left _ (told.group inGroup before middle early)
    · exact group inGroup middle later late

theorem not_mem_of_plain {action : Action} (plain : ∀ action ∈ new, action.plain = true) (other : action.plain = false) :
    action ∉ new := by
  intro member
  have same := plain action member
  simp [other] at same

theorem ended_not_plain : Action.ended.plain = false := rfl

theorem abandoned_not_plain : Action.abandoned.plain = false := rfl

theorem requested_not_plain : Action.requested.plain = false := rfl

theorem expired_not_plain : (Action.expired true).plain = false := rfl

theorem Told.calm {quiet : Prop} {outcome : Outcome τ} (told : Told command self past) (calm : Calm quiet self outcome)
    (still : self.deferred = false → self.requested = false → quiet) :
    Told command outcome.self (past ++ outcome.actions) := by
  refine told.extend calm.sound calm.deferred (fun action member => Action.silent_of_plain (calm.plain action member)) ?_
    calm.killed ?_ ?_ ?_ ?_
  · rintro (ended | abandoned)
    · exact absurd ended (not_mem_of_plain calm.plain rfl)
    · exact absurd abandoned (not_mem_of_plain calm.plain rfl)
  · intro running
    rw [calm.requested]
    exact told.unasked (calm.deferred.symm.trans running)
  · intro _
    rw [calm.requested]
    exact ⟨fun before => ⟨not_mem_of_plain calm.plain requested_not_plain, before⟩, And.right⟩
  · intro finished unasked
    have before := calm.requested.symm.trans unasked
    exact calm.stays (still finished before) finished (told.stays finished before)
  · intro _ before later split
    exact absurd (by simp [split]) (not_mem_of_plain calm.plain expired_not_plain)

/-- `kill` is called from outside. -/
theorem Told.request (told : Told command self past) :
    Told command { self with requested := self.requested || !self.deferred } (past ++ [.requested]) := by
  refine told.extend ⟨told.sound.held, told.sound.apart⟩ rfl (by simp [Action.fires]) (by simp) ?_ ?_ ?_ ?_ ?_
  · rintro (before | now)
    · exact before
    · simp at now
  · intro running
    simp [told.unasked running, show self.deferred = true from running]
  · intro finished
    simp [finished]
  · intro finished unasked
    simp [finished] at unasked
  · intro _ before later split
    have member : Action.expired true ∈ [Action.requested] := by simp [split]
    simp at member

/-- The process of a command that is over ends. -/
theorem Told.again (told : Told command self past) (finished : self.deferred = false) :
    Told command self (past ++ [.ended]) := by
  refine told.extend told.sound rfl (by simp [Action.fires]) (fun _ => finished) ?_ told.unasked (by simp)
    (fun _ => told.stays finished) ?_
  · rintro (before | now)
    · exact before
    · simp at now
  · intro _ before later split
    have member : Action.expired true ∈ [Action.ended] := by simp [split]
    simp at member

/-- The time that a TERM was given is up. -/
theorem Told.expire {outcome : Outcome τ} {group : Bool} (told : Told command self past) (calm : Calm True self outcome)
    (sent : command.procGroup = true → group = true → .killpg command.interruptSignal ∈ outcome.actions) :
    Told command outcome.self (past ++ .expired group :: outcome.actions) := by
  refine told.extend calm.sound calm.deferred ?_ ?_ ?_ ?_ ?_ ?_ ?_
  · intro action member
    rcases List.mem_cons.mp member with rfl | later
    · rfl
    · exact Action.silent_of_plain (calm.plain action later)
  · rintro (ended | abandoned)
    · exact absurd (by simpa using ended) (not_mem_of_plain calm.plain ended_not_plain)
    · exact absurd (by simpa using abandoned) (not_mem_of_plain calm.plain abandoned_not_plain)
  · rintro (before | now)
    · exact calm.killed (.inl before)
    · exact calm.killed (.inr (by simpa using now))
  · intro running
    rw [calm.requested]
    exact told.unasked (calm.deferred.symm.trans running)
  · intro _
    rw [calm.requested]
    exact ⟨fun before => ⟨by simpa using not_mem_of_plain calm.plain requested_not_plain, before⟩, And.right⟩
  · intro finished unasked
    have before := calm.requested.symm.trans unasked
    exact calm.stays trivial finished (told.stays finished before)
  · intro inGroup before later split
    cases before with
    | nil =>
      obtain ⟨same, rfl⟩ := List.cons.inj split
      cases same
      exact sent inGroup rfl
    | cons first before =>
      obtain ⟨_, rest⟩ := List.cons.inj split
      exact absurd (by simp [rest]) (not_mem_of_plain calm.plain expired_not_plain)

/-- The command is over now, if it was not before. -/
theorem Told.close {head fire : Action} {outcome : Outcome τ} (told : Told command self past)
    (closed : Closed fire self outcome) (fires : fire.fires = true) (begins : head = .ended ∨ head = .abandoned)
    (codes : self.killed = true → fire ≠ .callback (some 0)) :
    Told command outcome.self (past ++ head :: outcome.actions) := by
  obtain ⟨shown, same, plain⟩ := closed.actions
  have quiet : ∀ action ∈ head :: shown, action.fires = false ∧ action ≠ .kill ∧ action ≠ .expired true := by
    intro action member
    rcases List.mem_cons.mp member with rfl | member
    · rcases begins with rfl | rfl <;> exact ⟨rfl, nofun, nofun⟩
    · obtain ⟨other, not_kill⟩ := plain action member
      refine ⟨Action.silent_of_plain other, not_kill, ?_⟩
      rintro rfl
      cases other
  by_cases running : self.deferred = true
  · rw [if_pos running] at same
    have whole : head :: outcome.actions = (head :: shown) ++ [fire] := by simp [same]
    rw [whole]
    have other : fire ≠ .kill ∧ fire ≠ .expired true := by
      constructor
      · rintro rfl
        cases fires
      · rintro rfl
        cases fires
    have killed_before : ∀ middle : List Action, middle <+: head :: shown → .kill ∈ past ++ middle → self.killed = true := by
      intro middle start member
      rcases List.mem_append.mp member with early | late
      · exact told.killed early
      · exact absurd rfl (quiet _ (start.subset late)).2.1
    constructor
    case sound => exact ⟨closed.held, .inl (closed.timers _)⟩
    case fires =>
      have none_quiet : (head :: shown).countP Action.fires = 0 := by
        rw [List.countP_eq_zero]
        intro action member
        simp [(quiet action member).1]
      rw [List.countP_append, List.countP_append, told.fires, if_pos running, none_quiet, if_neg (by simp [closed.deferred])]
      simp [fires]
    case ceased => exact fun _ => closed.deferred
    case killed =>
      intro member
      rw [← List.append_assoc] at member
      rcases List.mem_append.mp member with early | late
      · exact closed.killed.trans (killed_before _ (List.prefix_refl _) early)
      · exact absurd (List.mem_singleton.mp late).symm other.1
    case codes =>
      intro before rc later split kill
      rcases split_append split with ⟨middle, early, rfl⟩ | ⟨middle, rfl, late⟩
      · exact told.codes before rc middle early kill
      · rcases split_append late with ⟨rest, early, _⟩ | ⟨rest, rfl, last⟩
        · have silent := (quiet (.callback rc) (by simp [early])).1
          cases silent
        · cases rest with
          | nil =>
            obtain ⟨rfl, _⟩ := List.cons.inj last
            rintro rfl
            rw [List.append_nil] at kill
            exact codes (killed_before _ (List.prefix_refl _) kill) rfl
          | cons => simp at last
    case unasked =>
      intro still
      rw [closed.deferred] at still
      cases still
    case settled =>
      refine iff_of_true ⟨past ++ head :: shown, fire, [], by simp, fires, by simp⟩ ⟨closed.deferred, ?_⟩
      exact closed.requested.trans (told.unasked running)
    case stays => exact fun _ _ => closed.timers
    case group =>
      intro inGroup before later split
      rcases split_append split with ⟨middle, early, rfl⟩ | ⟨middle, _, late⟩
      · exact List.mem_append_left _ (told.group inGroup before middle early)
      · have member : Action.expired true ∈ (head :: shown) ++ [fire] := by simp [late]
        rcases List.mem_append.mp member with early | last
        · exact absurd rfl (quiet _ early).2.2
        · exact absurd (List.mem_singleton.mp last).symm other.2
  · have ceased : self.deferred = false := by simpa using running
    rw [if_neg running, List.append_nil] at same
    rw [same]
    refine told.extend ⟨closed.held, .inl (closed.timers _)⟩ (closed.deferred.trans ceased.symm) (fun action member => (quiet action member).1)
      (fun _ => ceased) ?_ ?_ ?_ (fun _ _ => closed.timers) ?_
    · rintro (before | now)
      · exact closed.killed.trans before
      · exact absurd rfl (quiet _ now).2.1
    · intro still
      rw [closed.deferred] at still
      cases still
    · intro _
      rw [closed.requested]
      refine ⟨fun before => ⟨fun member => ?_, before⟩, And.right⟩
      rcases List.mem_cons.mp member with same | other
      · rcases begins with rfl | rfl <;> cases same
      · exact absurd other (not_mem_of_plain (fun action member => (plain action member).1) requested_not_plain)
    · intro _ before later split
      exact absurd rfl (quiet _ (by simp [split])).2.2

/-- The state in which the call of a timer begins. -/
theorem Told.timer (told : Told command self past) {reactor : Reactor τ Timer} {timer : Timer}
    (held : reactor.Held (Function.update self.timers timer none)) :
    Told command { self with reactor := reactor, timers := Function.update self.timers timer none } past :=
  { told with
    sound := by
      refine ⟨held, ?_⟩
      rcases told.sound.apart with sigterm | kill
      · left
        by_cases same : timer = .sigtermTimer
        · simp [same]
        · simpa [Function.update_of_ne (Ne.symm same)] using sigterm
      · right
        by_cases same : timer = .killTimer
        · simp [same]
        · simpa [Function.update_of_ne (Ne.symm same)] using kill
    stays := by
      intro finished quiet other
      by_cases same : other = timer
      · simp [same]
      · simpa [Function.update_of_ne same] using told.stays finished quiet other }

section Steps

variable [Add τ] [OfNat τ 5] [ToString τ]

/-- The group is alive when the time of a TERM is up, and the interrupt reaches it: the TERM had not, as the process group
is still known; and no output brings a command that has ended to send one. The logfiles can be read at the end. -/
def Orderly [LinearOrder τ] (command : Command τ) (self : RunProcess τ) : Event τ → Prop
  | .outReceived data answers => self.deferred = false → self.requested = false →
      ¬ (command.sendStdout = true ∧ self.Overflows command data ∧ self.Waits command answers)
  | .errReceived data answers => self.deferred = false → self.requested = false →
      ¬ (command.sendStderr = true ∧ self.Overflows command data ∧ self.Waits command answers)
  | .timeout id answers => ∀ reactor, self.reactor.expire id = some (.sigtermTimer, reactor) → command.procGroup = true →
      answers.group = true → (answers.pid = true ∧ answers.alive = true) ∧
        command.signals ("SIG" ++ command.interruptSignal) = true ∧ self.pgid ≠ none ∧ answers.killpg = true
  | .processEnded _ _ _ unreadable => unreadable = true → self.deferred = false
  | _ => True

theorem told_timedOut (told : Told command self past) (answers : Answers) {reactor : Reactor τ Timer} {timer : Timer} {id : Nat}
    (held : reactor.Held (Function.update self.timers timer none)) (field : self.timers timer = some id)
    (reached : timer = .sigtermTimer → command.procGroup = true → answers.group = true →
      (answers.pid = true ∧ answers.alive = true) ∧ command.signals ("SIG" ++ command.interruptSignal) = true ∧
        self.pgid ≠ none ∧ answers.killpg = true) :
    Told command ({ self with reactor := reactor }.timedOut command answers timer).self
      (past ++ ({ self with reactor := reactor }.timedOut command answers timer).actions) := by
  have ready := told.timer held
  have running : self.deferred = false → self.requested = false → False := by
    intro finished quiet
    have free := told.stays finished quiet timer
    rw [field] at free
    cases free
  cases timer with
  | ioTimeoutTimer => exact ready.calm (calm_doTimeout ready.sound) running
  | maxTimeoutTimer => exact ready.calm (calm_doMaxTimeout ready.sound) running
  | sigtermTimer =>
    have kill : self.timers .killTimer = none := by
      rcases told.sound.apart with sigterm | kill
      · rw [field] at sigterm
        cases sigterm
      · exact kill
    obtain ⟨outcome, same, calm, sent⟩ := checkProcess_spec command answers _ ready.sound
      (by simpa using kill) (by simp)
    rw [timedOut, same]
    exact ready.expire calm fun inGroup alive => (sent inGroup).mpr (reached rfl inGroup alive)
  | killTimer =>
    obtain ⟨outcome, same, closed⟩ := doBackupTimeout_spec command _ ready.sound.held
    rw [timedOut, same]
    exact ready.close closed rfl (.inr rfl) nofun

variable [LinearOrder τ]

theorem told_step (told : Told command self past) (event : Event τ) (orderly : self.Orderly command event) :
    Told command (self.step command event).1 (past ++ (self.step command event).2) := by
  cases event with
  | outReceived data answers =>
    exact told.calm (calm_addOutput command answers self told.sound command.sendStdout .stdout data).1 orderly
  | errReceived data answers =>
    exact told.calm (calm_addOutput command answers self told.sound command.sendStderr .stderr data).1 orderly
  | poll name data => exact told.calm (calm_addLogfile command self told.sound name data) fun _ _ => trivial
  | kill msg answers =>
    have asked := told.request
    have killed := asked.calm (calm_kill command answers _ asked.sound msg).1 (by
      intro finished quiet
      simp only [Bool.or_eq_false_iff, Bool.not_eq_false'] at quiet
      exact absurd (finished.symm.trans quiet.2) (by decide))
    simpa [step, outcome, Outcome.andThen_of] using killed
  | advance seconds =>
    have later : Told command { self with reactor := self.reactor.advance seconds } past :=
      { told with sound := ⟨told.sound.held.advance seconds, told.sound.apart⟩ }
    simpa [step, outcome, Outcome.of] using later
  | timeout id answers =>
    cases made : self.reactor.expire id with
    | none => simpa [step, outcome, made, Outcome.of] using told
    | some call =>
      obtain ⟨timer, reactor⟩ := call
      obtain ⟨field, rfl⟩ := told.sound.held.expire made
      have later := told_timedOut told answers (told.sound.held.without timer field) field (by
        rintro rfl
        exact orderly _ made)
      simpa [step, outcome, made] using later
  | processEnded sig rc polls unreadable =>
    obtain ⟨rest, same, calm, closed⟩ := processEnded_spec command self told.sound sig rc polls unreadable
    simp only [step, outcome, same]
    cases fails : unreadable with
    | true =>
      have finished := orderly fails
      have again := (told.again finished).calm (calm fails) fun _ _ => trivial
      simpa using again
    | false =>
      obtain ⟨code, ceased, nonzero⟩ := closed fails
      exact told.close ceased rfl (.inl rfl) fun killed => by
        intro same
        cases same
        exact nonzero killed rfl

omit [Add τ] [OfNat τ 5] [ToString τ] [LinearOrder τ] in
/-- A timer that is set after the end breaks the promise. -/
theorem Told.not_ends {outcome : Outcome τ} {quiet : Prop} (told : Told command self past) (finished : self.deferred = false)
    (unasked : self.requested = false) (calm : Calm quiet self outcome) {timer : Timer} (set : outcome.self.timers timer ≠ none) :
    ¬ Ends command outcome.self (past ++ outcome.actions) := by
  intro ends
  have settled := (told.settled.mpr ⟨finished, unasked⟩).append (not_mem_of_plain calm.plain requested_not_plain)
  obtain ⟨before, fire, later, split, fires, quiet⟩ := settled
  have empty := ends.rests before fire later split fires quiet
  obtain ⟨id, field⟩ := Option.ne_none_iff_exists'.mp set
  have pends := calm.sound.held.mem timer field
  simp [empty] at pends

theorem step_lost (told : Told command self past) {event : Event τ} (broken : ¬ self.Orderly command event) :
    ¬ Ends command (self.step command event).1 (past ++ (self.step command event).2) := by
  cases event with
  | outReceived data answers =>
    simp only [Orderly, Classical.not_imp, not_not] at broken
    obtain ⟨finished, unasked, overflow⟩ := broken
    obtain ⟨calm, set⟩ := calm_addOutput command answers self told.sound command.sendStdout .stdout data
    exact told.not_ends finished unasked calm (set overflow)
  | errReceived data answers =>
    simp only [Orderly, Classical.not_imp, not_not] at broken
    obtain ⟨finished, unasked, overflow⟩ := broken
    obtain ⟨calm, set⟩ := calm_addOutput command answers self told.sound command.sendStderr .stderr data
    exact told.not_ends finished unasked calm (set overflow)
  | timeout id answers =>
    simp only [Orderly, not_forall] at broken
    obtain ⟨reactor, made, inGroup, alive, missed⟩ := broken
    obtain ⟨field, rfl⟩ := told.sound.held.expire made
    have ready := told.timer (told.sound.held.without .sigtermTimer field)
    have kill : self.timers .killTimer = none := by
      rcases told.sound.apart with sigterm | kill
      · rw [field] at sigterm
        cases sigterm
      · exact kill
    obtain ⟨outcome, same, _, sent⟩ := checkProcess_spec command answers _ ready.sound (by simpa using kill) (by simp)
    intro ends
    have shown : (self.step command (.timeout id answers)).2 = .expired answers.group :: outcome.actions := by
      simp only [step, RunProcess.outcome, made, timedOut, same]
    rw [shown, alive] at ends
    exact missed ((sent inGroup).mp (ends.group inGroup past outcome.actions rfl))
  | processEnded sig rc polls unreadable =>
    simp only [Orderly, Classical.not_imp, Bool.not_eq_false] at broken
    obtain ⟨fails, running⟩ := broken
    obtain ⟨rest, same, calm, _⟩ := processEnded_spec command self told.sound sig rc polls unreadable
    intro ends
    have shown : (self.step command (.processEnded sig rc polls unreadable)).2 = .ended :: rest.actions := by
      simp only [step, outcome, same]
    rw [shown] at ends
    have one := ends.ended (by simp)
    have none_before := told.fires
    rw [if_pos running] at none_before
    have none_now : (.ended :: rest.actions).countP Action.fires = 0 := by
      rw [List.countP_eq_zero]
      intro action member
      rcases List.mem_cons.mp member with rfl | later
      · decide
      · simp [Action.silent_of_plain ((calm fails).plain action later)]
    rw [List.countP_append, none_before, none_now] at one
    cases one
  | _ => exact absurd trivial broken

omit [OfNat τ 5] [ToString τ] [LinearOrder τ] in
theorem told_started [OfNat τ 0] [DecidableEq τ] (command : Command τ) (seconds : τ) (pid : Nat) (job_object : JobObject) :
    Told command (started command seconds pid job_object) [] := by
  -- the end of the command sets its other two timers
  have later (self : RunProcess τ) (time : τ) {timer : Timer} (told : Told command self []) (running : self.deferred = true)
      (free : self.timers timer = none) (early : timer = .ioTimeoutTimer ∨ timer = .maxTimeoutTimer) :
      Told command (self.callLater time timer) [] := by
    have unended : timer ≠ .sigtermTimer ∧ timer ≠ .killTimer := by
      rcases early with rfl | rfl <;> exact ⟨by decide, by decide⟩
    have sound : (self.callLater time timer).Sound := by
      refine ⟨told.sound.held.callLater timer free time, ?_⟩
      simpa [callLater, Function.update_of_ne unended.1.symm, Function.update_of_ne unended.2.symm] using told.sound.apart
    have stays : self.deferred = false → self.requested = false →
        ∀ other, (self.callLater time timer).timers other = none := by
      intro finished
      rw [running] at finished
      cases finished
    exact { told with sound := sound, stays := stays }
  have untimed (process : RunProcess τ) (reactor : process.reactor = Reactor.init seconds)
      (timers : process.timers = fun _ => none) (running : process.deferred = true) (unasked : process.requested = false) :
      Told command process [] := {
    sound := ⟨by rw [reactor, timers]; exact Reactor.held_init seconds, .inl (by rw [timers])⟩
    fires := by rw [running]; rfl
    ceased := by simp
    killed := by simp
    codes := by simp
    unasked := fun _ => unasked
    settled := by simp [Settled, running]
    stays := by simp [running]
    group := by simp }
  unfold started
  dsimp only
  split
  · split
    · exact untimed _ rfl rfl rfl rfl
    · exact later _ _ (untimed _ rfl rfl rfl rfl) rfl rfl (.inl rfl)
  · split
    · exact later _ _ (untimed _ rfl rfl rfl rfl) rfl rfl (.inr rfl)
    · exact later _ _ (later _ _ (untimed _ rfl rfl rfl rfl) rfl rfl (.inl rfl)) rfl rfl (.inr rfl)

/-- A command keeps what is promised exactly as long as every step is orderly. -/
theorem ends_iff [OfNat τ 0] [DecidableEq τ] (command : Command τ) (seconds : τ) (pid : Nat) (job_object : JobObject)
    (events : List (Event τ)) :
    (∀ past, past <+: events → Ends command (final (step command) (started command seconds pid job_object) past)
      (seen (step command) (started command seconds pid job_object) past)) ↔
      Always (step command) (Orderly command) (started command seconds pid job_object) events :=
  @history_iff _ _ _ (step command) (Orderly command) (Told command) (Ends command)
    (fun _ _ event told orderly => told_step told event orderly) (fun _ _ _ told broken => step_lost told broken)
    (fun _ _ told => told.ends) _ [] (told_started command seconds pid job_object) events

end Steps

/-- A command that has five seconds for a TERM, on POSIX. -/
def patient : Command Nat where
  platformType := .posix
  fake_command := "make"
  signals signal := signal = "SIGTERM" || signal = "SIGKILL"
  interruptSignal := "KILL"
  timeout := none
  maxTime := none
  max_lines := none
  sigtermTime := some 5
  sendStdout := true
  sendStderr := true
  sendRC := true
  initialStdin := false
  usePTY := false
  useProcGroup := true
  elapsedTime := toString

/-- The group does what it is asked to, and stays alive. -/
def stubborn : Answers where
  group := true
  pid := true
  alive := true
  killpg := true
  signalProcess := .sent

/-- After the TERM the process group is not known any more, so that only the direct child is killed. -/
theorem group_survives : ¬ ∀ events : List (Event Nat), Ends patient (final (step patient) (started patient 0 42 .absent) events)
    (seen (step patient) (started patient 0 42 .absent) events) := by
  intro ends
  have sent := (ends [.kill "command interrupted" stubborn, .advance 5, .timeout 0 stubborn]).group rfl
    [.requested, .kill, .send_update (.header "\ncommand interrupted, attempting to kill\n"), .killpg "TERM"]
    [.signalProcess "KILL"] (by decide +kernel)
  exact absurd sent (by decide)

end RunProcess

end Umbilical.BuildbotWorker
