import Umbilical.Util.Debouncer
import Mathlib.Data.List.Induction

set_option autoImplicit false

/-!
# What the debouncer promises

Each invocation has the number of those that began before it, so a call is followed by an
invocation as soon as more have begun than had when it was made. The loop of `retry` breaks
the promise where it fires a deferred too early, or lets a callback stop the debouncer
before it looks at the queued run.
-/

namespace Umbilical.Util.Debouncer

open Interleaving

/-! ## What the history says -/

/-- No invocation is in progress. -/
def Idle (past : List Action) : Prop := ∀ run, .began run ∈ past → .completed run ∈ past

/-- What may come after a history. A deferred of `stop` fires when no invocation is in progress and each call made
before that `stop` has been followed by a complete one. -/
def Law (past : List Action) : Action → Prop
  | .called => True
  | .began run => Idle past ∧ .began run ∉ past
  | .completed run => .began run ∈ past ∧ .completed run ∉ past
  | .asked id => .asked id ∉ past
  | .fired id => .fired id ∉ past ∧ Idle past ∧ ∃ before after, past = before ++ .asked id :: after ∧
      ∀ earlier later, before = earlier ++ .called :: later →
        ∃ run, .began run ∈ later ++ .asked id :: after ∧ .completed run ∈ later ++ .asked id :: after
  | .raised => False

/-- An invocation will begin: after the timer, after the one in progress, or after the loop of `retry`. -/
def Scheduled (self : Debouncer) : Prop :=
  self.phase = .PH_WAITING ∨ self.phase = .PH_RUNNING_QUEUED ∨
    self.stopped = false ∧ ∃ runs, .firing true runs ∈ self.stack

/-- What the debouncer promises, after a run with this history. -/
def Kept (self : Debouncer) (past : List Action) : Prop :=
  Lawful Law past ∧
    ∀ earlier later, past = earlier ++ .called :: later → (∃ run, .began run ∈ later) ∨ self.Scheduled

def begins : Action → Bool
  | .began _ => true
  | _ => false

/-- How many invocations have begun. -/
def begun (past : List Action) : Nat := past.countP begins

/-- Each invocation has the next number. -/
def Numbered (past : List Action) : Action → Prop
  | .began run => run = begun past
  | _ => True

theorem begun_append (past more : List Action) : begun (past ++ more) = begun past + begun more :=
  List.countP_append

theorem mem_began {past : List Action} (numbered : Lawful Numbered past) (run : Nat) :
    .began run ∈ past ↔ run < begun past := by
  induction past using List.reverseRecOn with
  | nil => simp [begun]
  | append_singleton past action ih =>
    have before : Lawful Numbered past :=
      fun first observed start => numbered first observed (start.trans (List.prefix_append past [action]))
    rw [List.mem_append, ih before, begun_append, List.mem_singleton]
    cases action with
    | began other =>
      have number : other = begun past := numbered past (.began other) (List.prefix_refl _)
      simp only [begun, begins, List.countP_singleton, if_true, Action.began.injEq] at number ⊢
      omega
    | _ => simp [begun, begins]

/-- What was done when fewer invocations had begun is followed by one. -/
theorem began_since {past earlier later : List Action} (numbered : Lawful Numbered past) (split : past = earlier ++ later)
    (less : begun earlier < begun past) : .began (begun earlier) ∈ later := by
  have member := (mem_began numbered (begun earlier)).mpr less
  rw [split, List.mem_append] at member
  have before : Lawful Numbered earlier :=
    fun first observed start => numbered first observed (start.trans (split ▸ List.prefix_append earlier later))
  exact member.resolve_left fun inside => Nat.lt_irrefl _ ((mem_began before _).mp inside)

theorem not_began {earlier later : List Action} (same : begun (earlier ++ later) ≤ begun earlier) (run : Nat) :
    .began run ∉ later := by
  intro member
  have positive : 0 < begun later := List.countP_pos_iff.mpr ⟨.began run, member, rfl⟩
  rw [begun_append] at same
  omega

/-- An invocation that began after some time is not complete before. -/
theorem completed_since {past earlier later : List Action} (lawful : Lawful Law past) (split : past = earlier ++ later)
    {run : Nat} (began : .began run ∈ later) (completed : .completed run ∈ past) : .completed run ∈ later := by
  rw [split, List.mem_append] at completed
  refine completed.resolve_left fun inside => ?_
  obtain ⟨before, after, parts⟩ := List.append_of_mem inside
  have first := (lawful.split (by rw [split, parts, List.append_assoc]; rfl) : Law before (.completed run)).1
  obtain ⟨middle, rest, others⟩ := List.append_of_mem began
  have fresh := (lawful.split (by rw [split, others, ← List.append_assoc]) : Law (earlier ++ middle) (.began run)).2
  apply fresh
  rw [parts]
  simp [first]

theorem asked_unique {before after before' after' : List Action} {id : Nat}
    (lawful : Lawful Law (before ++ .asked id :: after))
    (same : before ++ .asked id :: after = before' ++ .asked id :: after') : before = before' ∧ after = after' := by
  have first : Law before (.asked id) := lawful.split rfl
  have second : Law before' (.asked id) := lawful.split same
  rcases List.append_eq_append_iff.mp same with ⟨middle, rfl, rest⟩ | ⟨middle, rfl, rest⟩
  · cases middle with
    | nil => exact ⟨(List.append_nil before).symm, (List.cons.inj rest).2⟩
    | cons action middle =>
      obtain ⟨rfl, _⟩ := List.cons.inj rest
      exact absurd (by simp) second
  · cases middle with
    | nil => exact ⟨List.append_nil before', (List.cons.inj rest).2.symm⟩
    | cons action middle =>
      obtain ⟨rfl, _⟩ := List.cons.inj rest
      exact absurd (by simp) first

/-! ## What the states and the history have to do with each other -/

/-- No invocation has begun since some call. -/
def Unserved (past : List Action) : Prop :=
  ∃ earlier later, past = earlier ++ .called :: later ∧ begun earlier = begun past

/-- Each call before the `stop` is followed by an invocation that the deferred waits for. -/
def Needs (past : List Action) (stop : Stop) : Prop :=
  ∃ before after, past = before ++ .asked stop.id :: after ∧
    ∀ earlier later, before = earlier ++ .called :: later → begun earlier < stop.runs

/-- The last one that the deferred waits for is the first to follow some call before the `stop`. -/
def Sharp (past : List Action) (stop : Stop) : Prop :=
  ∃ earlier later after, past = earlier ++ .called :: later ++ .asked stop.id :: after ∧ begun earlier + 1 = stop.runs

theorem Needs.append {past : List Action} {stop : Stop} (needs : Needs past stop) (more : List Action) :
    Needs (past ++ more) stop := by
  obtain ⟨before, after, rfl, enough⟩ := needs
  exact ⟨before, after ++ more, by simp, enough⟩

theorem Sharp.append {past : List Action} {stop : Stop} (sharp : Sharp past stop) (more : List Action) :
    Sharp (past ++ more) stop := by
  obtain ⟨earlier, later, after, rfl, same⟩ := sharp
  exact ⟨earlier, later, after ++ more, by simp, same⟩

def isFunction : Frame → Bool
  | .function _ => true
  | _ => false

def waitsFor (id : Nat) : Frame → Bool
  | .stopping stop => stop.id = id
  | _ => false

/-- A loop of `retry` will go on before any `stop` has its deferred. -/
def exposed : List Frame → Bool
  | [] | .stopping _ :: _ => false
  | .firing _ _ :: _ => true
  | .function _ :: outer => exposed outer

/-- Other code than that of `stop` has the control. -/
def settled : List Frame → Bool
  | .stopping _ :: _ => false
  | _ => true

def stacked : List Frame → Bool
  | [] => true
  | .stopping _ :: outer => settled outer && stacked outer
  | _ :: outer => stacked outer

/-- In how many places the deferred is that has not fired. -/
def pending (self : Debouncer) (id : Nat) : Nat :=
  self.completeDeferreds.countP (fun stop => stop.id = id) + self.stack.countP (waitsFor id)

/-- What does not depend on the phase. -/
structure Core (debouncer : Debouncer) (past : List Action) : Prop where
  lawful : Lawful Law past
  numbered : Lawful Numbered past
  runs : debouncer.runs = begun past
  completes : ∀ run, .completed run ∈ past ↔
    run < debouncer.runs ∧ run ∉ debouncer.awaiting ∧ .function run ∉ debouncer.stack
  started : ∀ run, run ∈ debouncer.awaiting ∨ .function run ∈ debouncer.stack → run < debouncer.runs
  loops : ∀ queued runs, .firing queued runs ∈ debouncer.stack → runs ≤ debouncer.runs
  needs : ∀ stop, stop ∈ debouncer.completeDeferreds ∨ .stopping stop ∈ debouncer.stack → Needs past stop
  sharp : ∀ stop ∈ debouncer.completeDeferreds, stop.runs ≤ debouncer.runs ∨ Sharp past stop
  asked : ∀ id, .asked id ∈ past → id < debouncer.stops
  once : ∀ id, past.count (.fired id) + debouncer.pending id = if id < debouncer.stops then 1 else 0
  nested : stacked debouncer.stack

/-- What is owed to the last calls: a timer, the next run, or the end of a loop. -/
def Pledged (self : Debouncer) : Prop :=
  self.phase = .PH_WAITING ∨ self.phase = .PH_RUNNING_QUEUED ∨
    self.phase = .PH_IDLE ∧ self.stopped = false ∧ .firing true self.runs ∈ self.stack

structure Steady (debouncer : Debouncer) (past : List Action) : Prop extends Core debouncer past where
  progress : debouncer.awaiting.length + debouncer.stack.countP isFunction = if debouncer.phase.running then 1 else 0
  timer : debouncer.timer = true ↔ debouncer.phase = .PH_WAITING
  active : debouncer.phase = .PH_WAITING → debouncer.stopped = false
  calls : ∀ earlier later, past = earlier ++ .called :: later → begun earlier < debouncer.runs ∨ debouncer.Pledged
  queued : debouncer.phase = .PH_RUNNING_QUEUED → Unserved past
  unserved : .firing true debouncer.runs ∈ debouncer.stack → Unserved past
  held : debouncer.phase.running → exposed debouncer.stack → debouncer.completeDeferreds ≠ []

/-- The states between two events. -/
structure Orderly (debouncer : Debouncer) (past : List Action) : Prop extends Steady debouncer past where
  due : ∀ stop, .stopping stop ∈ debouncer.stack → stop.runs ≤ debouncer.runs
  settles : settled debouncer.stack

variable {self : Debouncer} {past : List Action}

theorem Core.idle (core : Core self past) (nothing : self.awaiting = []) (none_ : ∀ run, .function run ∉ self.stack) :
    Idle past := by
  intro run began
  rw [core.completes, nothing, core.runs]
  exact ⟨(mem_began core.numbered run).mp began, List.not_mem_nil, none_ run⟩

theorem begun_le {earlier later : List Action} (split : past = earlier ++ later) : begun earlier ≤ begun past := by
  rw [split, begun_append]
  exact Nat.le_add_right _ _

/-! ## The parts of the steps -/

theorem Core.invoke (core : Core self past) (nothing : self.awaiting = []) (none_ : ∀ run, .function run ∉ self.stack)
    (timer : self.timer = false) (due : ∀ stop, .stopping stop ∈ self.stack → stop.runs ≤ self.runs + 1)
    (held : exposed self.stack → self.completeDeferreds ≠ []) : Orderly self.invoke.1 (past ++ self.invoke.2) := by
  have fresh : .began self.runs ∉ past := by
    rw [mem_began core.numbered, core.runs]
    exact Nat.lt_irrefl _
  have law : Law past (.began self.runs) := ⟨core.idle nothing none_, fresh⟩
  have count : begun (past ++ [.began self.runs]) = self.runs + 1 := by
    rw [begun_append, ← core.runs]
    rfl
  unfold Debouncer.invoke
  exact
    { lawful := core.lawful.concat law
      numbered := core.numbered.concat core.runs
      runs := count.symm
      completes := fun run => by
        have before := core.completes run
        rw [nothing] at before
        simp only [List.mem_append, List.mem_cons, reduceCtorEq, or_false, before, nothing, List.not_mem_nil,
          not_false_eq_true, true_and, Frame.function.injEq, not_or]
        have absent := none_ run
        constructor
        · rintro ⟨small, _⟩
          exact ⟨Nat.lt_succ_of_lt small, Nat.ne_of_lt small, absent⟩
        · rintro ⟨small, other, _⟩
          exact ⟨by omega, absent⟩
      started := fun run either => by
        rcases either with waits | frame
        · rw [nothing] at waits
          cases waits
        · rcases List.mem_cons.mp frame with same | other
          · cases same
            exact Nat.lt_succ_self _
          · exact absurd other (none_ run)
      loops := fun queued runs member => by
        have inner : .firing queued runs ∈ self.stack := by simpa using member
        exact Nat.le_succ_of_le (core.loops queued runs inner)
      needs := fun stop either => (core.needs stop (by simpa using either)).append _
      sharp := fun stop member => (core.sharp stop member).imp Nat.le_succ_of_le fun sharp => sharp.append _
      asked := fun id member => core.asked id (by simpa using member)
      once := fun id => by simpa [pending, waitsFor] using core.once id
      nested := core.nested
      progress := by
        have zero : self.stack.countP isFunction = 0 := by
          rw [List.countP_eq_zero]
          intro frame member
          cases frame with
          | function run => exact absurd member (none_ run)
          | _ => simp [isFunction]
        dsimp only
        rw [nothing, List.countP_cons, zero]
        rfl
      timer := by simp [timer]
      active := fun waiting => by cases waiting
      calls := fun earlier later split => by
        left
        cases later using List.reverseRecOn with
        | nil => exact absurd (List.append_inj' split rfl).2 (by simp)
        | append_singleton later action =>
          rw [← List.cons_append, ← List.append_assoc] at split
          obtain ⟨before, _⟩ := List.append_inj' split rfl
          have few := begun_le before
          rw [← core.runs] at few
          exact Nat.lt_succ_of_le few
      queued := fun phase => by cases phase
      unserved := fun member => by
        have inner : .firing true (self.runs + 1) ∈ self.stack := by simpa using member
        exact absurd (core.loops true _ inner) (by omega)
      due := fun stop member => due stop (by simpa using member)
      held := fun _ => held
      settles := rfl }

theorem called_append {more earlier later : List Action} (quiet : .called ∉ more)
    (split : past ++ more = earlier ++ .called :: later) : ∃ rest, past = earlier ++ .called :: rest := by
  rcases List.append_eq_append_iff.mp split with ⟨middle, _, rest⟩ | ⟨middle, before, rest⟩
  · exact absurd (by rw [rest]; simp) quiet
  · cases middle with
    | nil =>
      rw [List.nil_append] at rest
      exact absurd (by rw [← rest]; simp) quiet
    | cons action middle =>
      obtain ⟨rfl, _⟩ := List.cons.inj rest
      exact ⟨middle, before⟩

theorem Unserved.append {more : List Action} (unserved : Unserved past) (none_ : begun more = 0) :
    Unserved (past ++ more) := by
  obtain ⟨earlier, later, rfl, same⟩ := unserved
  exact ⟨earlier, later ++ more, by simp, by rw [begun_append _ more, none_, same]; rfl⟩

theorem Core.retry (core : Core self past) (nothing : self.awaiting = []) (none_ : ∀ run, .function run ∉ self.stack)
    (timer : self.timer = false) (due : ∀ stop, .stopping stop ∈ self.stack → stop.runs ≤ self.runs)
    (held : exposed self.stack → self.completeDeferreds ≠ [])
    (unserved : .firing true self.runs ∈ self.stack → Unserved past)
    (queued : self.phase = .PH_RUNNING_QUEUED → Unserved past)
    (calls : ∀ earlier later, past = earlier ++ .called :: later →
      begun earlier < self.runs ∨ self.phase = .PH_RUNNING_QUEUED) :
    Orderly self.retry.1 (past ++ self.retry.2) := by
  unfold Debouncer.retry
  dsimp only
  by_cases again : self.phase = .PH_RUNNING_QUEUED ∧ self.stopped = true
  · rw [if_pos again]
    have idle : Core { self with phase := .PH_IDLE } past := { core with }
    exact idle.invoke nothing none_ timer (fun stop member => Nat.le_succ_of_le (due stop member)) held
  · rw [if_neg again, List.append_nil]
    exact
      { core with
        completes := fun run => by simpa using core.completes run
        started := fun run either => core.started run (by simpa using either)
        loops := fun flag runs member => by
          rcases List.mem_cons.mp member with same | outer
          · cases same
            exact Nat.le_refl _
          · exact core.loops flag runs outer
        needs := fun stop either => core.needs stop (by simpa using either)
        once := fun id => by simpa [pending, waitsFor] using core.once id
        progress := by
          have zero : self.stack.countP isFunction = 0 := by
            rw [List.countP_eq_zero]
            intro frame member
            cases frame with
            | function run => exact absurd member (none_ run)
            | _ => simp [isFunction]
          dsimp only
          rw [nothing, List.countP_cons, zero]
          rfl
        timer := by simp [timer]
        active := fun waiting => by cases waiting
        calls := fun earlier later split => by
          refine (calls earlier later split).imp_right fun phase => .inr (.inr ⟨rfl, ?_, by simp [phase]⟩)
          simpa [phase] using again
        queued := fun phase => by cases phase
        unserved := fun member => by
          rcases List.mem_cons.mp member with same | outer
          · injection same with flag _
            exact queued (of_decide_eq_true flag.symm)
          · exact unserved outer
        due := fun stop member => due stop (by simpa using member)
        held := fun running => by cases running
        settles := rfl }

/-- A deferred whose invocations are complete may fire. -/
theorem Core.fires (core : Core self past) (idle : Idle past) {stop : Stop} (needs : Needs past stop)
    (enough : stop.runs ≤ self.runs) (waits : 0 < self.pending stop.id) : Law past (.fired stop.id) := by
  have once := core.once stop.id
  refine ⟨fun member => ?_, idle, ?_⟩
  · have fired := List.count_pos_iff.mpr member
    split at once <;> omega
  · obtain ⟨before, after, split, all⟩ := needs
    refine ⟨before, after, split, fun earlier later parts => ?_⟩
    have since : past = earlier ++ (.called :: (later ++ .asked stop.id :: after)) := by
      rw [split, parts]
      simp
    have less : begun earlier < begun past := by
      rw [← core.runs]
      exact Nat.lt_of_lt_of_le (all earlier later parts) enough
    have began := began_since core.numbered since less
    have completed := completed_since core.lawful since began (idle _ (by rw [since]; exact List.mem_append_right _ began))
    refine ⟨begun earlier, ?_, ?_⟩
    · simpa using began
    · simpa using completed

theorem Steady.nothing (steady : Steady self past) (resting : self.phase.running = false) :
    self.awaiting = [] ∧ ∀ run, .function run ∉ self.stack := by
  have zero := steady.progress
  rw [if_neg (by simp [resting])] at zero
  refine ⟨List.length_eq_zero_iff.mp (by omega), fun run member => ?_⟩
  have some_ : 0 < self.stack.countP isFunction := List.countP_pos_iff.mpr ⟨_, member, rfl⟩
  omega

/-- `stop` goes on when the function has returned, or when all that its completion led to has been done. -/
theorem Steady.resume (steady : Steady self past) (due : ∀ stop, .stopping stop ∈ self.stack.tail → stop.runs ≤ self.runs)
    (last : ∀ stop, .stopping stop ∈ self.stack → stop.runs ≤ self.runs ∨ self.phase.running = true ∧ Sharp past stop) :
    Orderly self.resume.1 (past ++ self.resume.2) := by
  unfold Debouncer.resume
  split
  next stop outer shape =>
    have settles : settled outer = true ∧ stacked outer = true := by
      have nested := steady.nested
      rw [shape] at nested
      simpa [stacked] using nested
    have inner {frame : Frame} (member : frame ∈ outer) : frame ∈ self.stack := by
      rw [shape]
      exact List.mem_cons_of_mem _ member
    have firing {flag : Bool} {runs : Nat} : .firing flag runs ∈ self.stack ↔ .firing flag runs ∈ outer := by
      rw [shape]
      simp
    have functions : self.stack.countP isFunction = outer.countP isFunction := by
      rw [shape]
      rfl
    have top : .stopping stop ∈ self.stack := by
      rw [shape]
      exact List.mem_cons_self
    have needs := steady.needs stop (.inr top)
    have others (other : Stop) (member : .stopping other ∈ outer) : other.runs ≤ self.runs :=
      due other (by rw [shape]; exact member)
    unfold Debouncer.finish
    dsimp only
    by_cases running : self.phase.running = true
    · rw [if_pos running, List.append_nil]
      exact
        { steady with
          completes := fun run => by
            rw [steady.completes, shape]
            simp
          started := fun run either => steady.started run (either.imp_right inner)
          loops := fun flag runs member => steady.loops flag runs (inner member)
          needs := fun other either => by
            rcases either with queue | frame
            · rcases List.mem_append.mp queue with before | now
              · exact steady.needs other (.inl before)
              · cases List.mem_singleton.mp now
                exact needs
            · exact steady.needs other (.inr (inner frame))
          sharp := fun other member => by
            rcases List.mem_append.mp member with before | now
            · exact steady.sharp other before
            · cases List.mem_singleton.mp now
              exact (last stop top).imp_right And.right
          once := fun id => by
            have before := steady.once id
            unfold pending at before ⊢
            rw [shape, List.countP_cons] at before
            dsimp only
            rw [List.countP_append, ← before]
            by_cases here : stop.id = id
            · simp only [here, waitsFor, decide_true, if_true, List.countP_singleton]
              omega
            · simp [here, waitsFor]
          nested := settles.2
          progress := functions ▸ steady.progress
          calls := fun earlier later split => (steady.calls earlier later split).imp_right fun pledged =>
            pledged.imp_right fun others => others.imp_right fun ⟨idle, started, loop⟩ => ⟨idle, started, firing.mp loop⟩
          unserved := fun member => steady.unserved (inner member)
          due := others
          held := fun _ _ => by simp
          settles := settles.1 }
    · rw [if_neg running]
      obtain ⟨nothing, none_⟩ := steady.nothing (by simpa using running)
      have waits : 0 < self.pending stop.id := by
        rw [pending, shape, List.countP_cons_of_pos (by simp [waitsFor])]
        omega
      have few := (last stop top).resolve_right fun ⟨phase, _⟩ => running phase
      have law := steady.fires (steady.idle nothing none_) needs few waits
      exact
        { lawful := steady.lawful.concat law
          numbered := steady.numbered.concat trivial
          runs := steady.runs.trans (by simp [begun, begins])
          completes := fun run => by
            rw [List.mem_append, steady.completes, shape]
            simp
          started := fun run either => steady.started run (either.imp_right inner)
          loops := fun flag runs member => steady.loops flag runs (inner member)
          needs := fun other either => (steady.needs other (either.imp_right inner)).append _
          sharp := fun other member => (steady.sharp other member).imp_right fun sharp => sharp.append _
          asked := fun id member => steady.asked id (by simpa using member)
          once := fun id => by
            have before := steady.once id
            unfold pending at before ⊢
            rw [shape, List.countP_cons] at before
            dsimp only
            rw [List.count_append, ← before]
            by_cases here : stop.id = id
            · simp only [here, waitsFor, decide_true, if_true, List.count_singleton_self]
              omega
            · simp [here, waitsFor]
          nested := settles.2
          progress := functions ▸ steady.progress
          timer := steady.timer
          active := steady.active
          calls := fun earlier later split => by
            obtain ⟨rest, before⟩ := called_append (by simp) split
            exact (steady.calls earlier rest before).imp_right fun pledged => pledged.imp_right fun others =>
              others.imp_right fun ⟨idle, started, loop⟩ => ⟨idle, started, firing.mp loop⟩
          queued := fun phase => absurd (by rw [phase]; rfl) running
          unserved := fun member => (steady.unserved (inner member)).append rfl
          due := others
          held := fun phase => absurd phase running
          settles := settles.1 }
  next others =>
    rw [List.append_nil]
    cases shape : self.stack with
    | nil => exact ⟨steady, by simp [shape], by rw [shape]; rfl⟩
    | cons frame outer =>
      cases frame with
      | stopping stop => exact absurd shape (others stop outer)
      | function run => exact ⟨steady, by simpa [shape] using due, by rw [shape]; rfl⟩
      | firing queued runs => exact ⟨steady, by simpa [shape] using due, by rw [shape]; rfl⟩

theorem Core.completed (core : Core self past) {run : Nat} {awaiting : List Nat} {stack : List Frame}
    (this : run ∈ self.awaiting ∨ .function run ∈ self.stack)
    (only : ∀ other, other ∈ self.awaiting ∨ .function other ∈ self.stack → other = run)
    (nothing : awaiting = []) (none_ : ∀ other, .function other ∉ stack)
    (frames : ∀ frame, isFunction frame = false → (frame ∈ stack ↔ frame ∈ self.stack))
    (counts : ∀ id, stack.countP (waitsFor id) = self.stack.countP (waitsFor id)) (nested : stacked stack) :
    Core { self with awaiting := awaiting, stack := stack } (past ++ [.completed run]) := by
  have law : Law past (.completed run) := by
    refine ⟨(mem_began core.numbered run).mpr (core.runs ▸ core.started run this), fun member => ?_⟩
    obtain ⟨_, one, two⟩ := (core.completes run).mp member
    exact this.elim one two
  exact
    { lawful := core.lawful.concat law
      numbered := core.numbered.concat trivial
      runs := core.runs.trans (by simp [begun, begins])
      completes := fun other => by
        rw [List.mem_append, core.completes, nothing]
        constructor
        · rintro (⟨small, _, _⟩ | now)
          · exact ⟨small, List.not_mem_nil, none_ other⟩
          · cases List.mem_singleton.mp now
            exact ⟨core.started run this, List.not_mem_nil, none_ run⟩
        · rintro ⟨small, _, _⟩
          by_cases same : other = run
          · exact .inr (by rw [same]; exact List.mem_singleton_self _)
          · exact .inl ⟨small, fun member => same (only other (.inl member)), fun member => same (only other (.inr member))⟩
      started := fun other either => by
        rw [nothing] at either
        exact absurd either (by simp [none_ other])
      loops := fun flag runs member => core.loops flag runs ((frames _ rfl).mp member)
      needs := fun stop either => (core.needs stop (either.imp_right (frames _ rfl).mp)).append _
      sharp := fun stop member => (core.sharp stop member).imp_right fun sharp => sharp.append _
      asked := fun id member => core.asked id (by simpa using member)
      once := fun id => by
        have before := core.once id
        unfold pending at before ⊢
        rw [List.count_append, ← before]
        dsimp only
        rw [counts]
        simp
      nested := nested }

/-- The completion of the invocation in progress. -/
theorem Orderly.completed (orderly : Orderly self past) {run : Nat} {awaiting : List Nat} {stack : List Frame}
    (this : run ∈ self.awaiting ∨ .function run ∈ self.stack)
    (only : ∀ other, other ∈ self.awaiting ∨ .function other ∈ self.stack → other = run)
    (nothing : awaiting = []) (none_ : ∀ other, .function other ∉ stack)
    (frames : ∀ frame, isFunction frame = false → (frame ∈ stack ↔ frame ∈ self.stack))
    (counts : ∀ id, stack.countP (waitsFor id) = self.stack.countP (waitsFor id)) (nested : stacked stack)
    (exposes : exposed stack = exposed self.stack) :
    Orderly ({ self with awaiting := awaiting, stack := stack }).retry.1
      (past ++ .completed run :: ({ self with awaiting := awaiting, stack := stack }).retry.2) := by
  have running : self.phase.running = true := by
    by_contra resting
    obtain ⟨one, two⟩ := orderly.nothing (by simpa using resting)
    rw [one] at this
    exact this.elim List.not_mem_nil (two run)
  have timer : self.timer = false := by
    by_contra active
    have waiting := orderly.timer.mp (by simpa using active)
    rw [waiting] at running
    cases running
  have core := orderly.toCore.completed this only nothing none_ frames counts nested
  have next := core.retry nothing none_ timer (fun stop member => orderly.due stop ((frames _ rfl).mp member))
    (fun exposed => orderly.held running (exposes ▸ exposed))
    (fun member => (orderly.unserved ((frames _ rfl).mp member)).append rfl)
    (fun phase => (orderly.queued phase).append rfl)
    (fun earlier later split => by
      obtain ⟨rest, before⟩ := called_append (by simp) split
      refine (orderly.calls earlier rest before).imp_right fun pledged => ?_
      rcases pledged with waiting | phase | ⟨idle, _⟩
      · rw [waiting] at running
        cases running
      · exact phase
      · rw [idle] at running
        cases running)
  rwa [List.append_assoc] at next

/-! ## The steps -/

theorem Orderly.start (orderly : Orderly self past) : Orderly self.start past :=
  { orderly with
    active := fun _ => rfl
    calls := fun earlier later split => (orderly.calls earlier later split).imp_right fun pledged =>
      pledged.imp_right fun others => others.imp_right fun ⟨idle, _, loop⟩ => ⟨idle, rfl, loop⟩ }

theorem Orderly.returns (orderly : Orderly self past) (done : Bool) :
    Orderly (self.returns done).1 (past ++ (self.returns done).2) := by
  unfold Debouncer.returns
  split
  next run outer shape =>
    have progress := orderly.progress
    rw [shape, List.countP_cons_of_pos rfl] at progress
    have one : self.awaiting = [] ∧ outer.countP isFunction = 0 := by
      refine ⟨List.length_eq_zero_iff.mp ?_, ?_⟩ <;> split at progress <;> omega
    have none_ (other : Nat) : .function other ∉ outer := fun member =>
      absurd (List.countP_eq_zero.mp one.2 _ member) (by simp [isFunction])
    have frames (frame : Frame) (other : isFunction frame = false) : frame ∈ outer ↔ frame ∈ self.stack := by
      rw [shape, List.mem_cons]
      refine ⟨.inr, fun either => either.resolve_left fun same => ?_⟩
      rw [same] at other
      cases other
    have counts (id : Nat) : outer.countP (waitsFor id) = self.stack.countP (waitsFor id) := by
      rw [shape]
      rfl
    have nested : stacked outer := by
      have whole := orderly.nested
      rw [shape] at whole
      exact whole
    have exposes : exposed outer = exposed self.stack := by
      rw [shape]
      rfl
    cases done with
    | true =>
      apply orderly.completed (.inr (by rw [shape]; exact List.mem_cons_self)) _ one.1 none_ frames counts nested exposes
      intro other either
      rw [one.1, shape] at either
      have member := either.resolve_left List.not_mem_nil
      rcases List.mem_cons.mp member with same | inside
      · injection same
      · exact absurd inside (none_ other)
    | false =>
      -- the invocation goes on after its function has returned a deferred
      have steady : Steady { self with stack := outer, awaiting := self.awaiting ++ [run] } past :=
        { orderly.toSteady with
          completes := fun other => by
            rw [orderly.completes, shape]
            simp only [List.mem_append, List.mem_cons, Frame.function.injEq, not_or, and_assoc, List.not_mem_nil,
              not_false_eq_true, true_and]
          started := fun other either => by
            apply orderly.started other
            rw [shape]
            rcases either with waits | frame
            · rcases List.mem_append.mp waits with before | now
              · exact .inl before
              · cases List.mem_singleton.mp now
                exact .inr List.mem_cons_self
            · exact .inr (List.mem_cons_of_mem _ frame)
          loops := fun flag runs member => orderly.loops flag runs ((frames _ rfl).mp member)
          needs := fun stop either => orderly.needs stop (either.imp_right (frames _ rfl).mp)
          once := fun id => by
            have before := orderly.once id
            unfold pending at before ⊢
            dsimp only
            rw [counts]
            exact before
          nested := nested
          progress := by
            rw [← progress]
            dsimp only
            rw [List.length_append, List.length_singleton]
            omega
          calls := fun earlier later split => (orderly.calls earlier later split).imp_right fun pledged =>
            pledged.imp_right fun others => others.imp_right fun ⟨idle, started, loop⟩ =>
              ⟨idle, started, (frames _ rfl).mpr loop⟩
          unserved := fun member => orderly.unserved ((frames _ rfl).mp member)
          held := fun running exposed => orderly.held running (exposes ▸ exposed) }
      have due (stop : Stop) (member : .stopping stop ∈ outer) : stop.runs ≤ self.runs :=
        orderly.due stop ((frames _ rfl).mp member)
      exact steady.resume (fun stop member => due stop (List.mem_of_mem_tail member)) fun stop member =>
        .inl (due stop member)
  next => simpa using orderly

theorem Orderly.complete (orderly : Orderly self past) (run : Nat) :
    Orderly (self.complete run).1 (past ++ (self.complete run).2) := by
  unfold Debouncer.complete
  by_cases waits : run ∈ self.awaiting
  · rw [if_pos waits]
    have progress := orderly.progress
    have one : self.awaiting = [run] ∧ self.stack.countP isFunction = 0 := by
      have some_ := List.length_pos_of_mem waits
      have single : self.awaiting.length = 1 := by split at progress <;> omega
      obtain ⟨other, shape⟩ := List.length_eq_one_iff.mp single
      rw [shape] at waits
      refine ⟨by rw [shape, List.mem_singleton.mp waits], ?_⟩
      split at progress <;> omega
    have none_ (other : Nat) : .function other ∉ self.stack := fun member =>
      absurd (List.countP_eq_zero.mp one.2 _ member) (by simp [isFunction])
    apply orderly.completed (.inl waits)
    · intro other either
      rw [one.1] at either
      exact either.elim List.mem_singleton.mp fun member => absurd member (none_ other)
    · rw [one.1]
      simp
    · exact none_
    · exact fun frame _ => Iff.rfl
    · exact fun id => rfl
    · exact orderly.nested
    · rfl
  · rw [if_neg waits]
    simpa using orderly

/-- A timer that starts, or is reset. -/
theorem Steady.schedule (steady : Steady self past) (resting : self.phase.running = false) (started : self.stopped = false) :
    Steady self.schedule.1 past ∧ self.schedule.2 = [] ∧ self.schedule.1.phase = .PH_WAITING ∧
      self.schedule.1.stack = self.stack := by
  unfold Debouncer.schedule
  cases phase : self.phase with
  | PH_IDLE =>
    refine ⟨{ steady with
      progress := ?_
      timer := iff_of_true rfl rfl
      active := fun _ => started
      calls := fun earlier later split => .inr (.inl rfl)
      queued := fun other => by cases other
      held := fun other => by cases other }, rfl, rfl, rfl⟩
    have progress := steady.progress
    rw [phase] at progress
    exact progress
  | PH_WAITING =>
    have active := steady.timer.mpr phase
    refine ⟨steady, ?_, phase, rfl⟩
    dsimp only
    rw [active]
    simp
  | PH_RUNNING | PH_RUNNING_QUEUED =>
    rw [phase] at resting
    cases resting

theorem Core.called (core : Core self past) : Core self (past ++ [.called]) where
  lawful := core.lawful.concat trivial
  numbered := core.numbered.concat trivial
  runs := core.runs.trans (by simp [begun, begins])
  completes run := by
    rw [← core.completes]
    simp
  started := core.started
  loops := core.loops
  needs stop either := (core.needs stop either).append _
  sharp stop member := (core.sharp stop member).imp_right fun sharp => sharp.append _
  asked id member := core.asked id (by simpa using member)
  once id := by simpa using core.once id
  nested := core.nested

theorem unserved_called (past : List Action) : Unserved (past ++ [.called]) :=
  ⟨past, [], rfl, by simp [begun, begins]⟩

theorem Orderly.call (orderly : Orderly self past) : Orderly self.call.1 (past ++ self.call.2) := by
  unfold Debouncer.call
  by_cases stopped : self.stopped = true
  · rw [if_pos stopped]
    simpa using orderly
  · rw [if_neg stopped]
    have started : self.stopped = false := by simpa using stopped
    unfold Debouncer.schedule
    cases phase : self.phase with
    | PH_IDLE =>
      have progress := orderly.progress
      rw [phase] at progress
      exact
        { orderly.toCore.called with
          progress := progress
          timer := iff_of_true rfl rfl
          active := fun _ => started
          calls := fun earlier later split => .inr (.inl rfl)
          queued := fun other => by cases other
          unserved := fun _ => unserved_called past
          due := orderly.due
          held := fun other => by cases other
          settles := orderly.settles }
    | PH_WAITING =>
      have active := orderly.timer.mpr phase
      dsimp only
      rw [active]
      simp only [Bool.not_true, Bool.and_false, Bool.false_eq_true, if_false]
      exact
        { orderly.toCore.called with
          progress := orderly.progress
          timer := orderly.timer
          active := orderly.active
          calls := fun earlier later split => .inr (.inl phase)
          queued := fun _ => unserved_called past
          unserved := fun _ => unserved_called past
          due := orderly.due
          held := orderly.held
          settles := orderly.settles }
    | PH_RUNNING =>
      have progress := orderly.progress
      have timer := orderly.timer
      rw [phase] at progress timer
      exact
        { orderly.toCore.called with
          progress := progress
          timer := timer.trans (by simp)
          active := fun other => by cases other
          calls := fun earlier later split => .inr (.inr (.inl rfl))
          queued := fun _ => unserved_called past
          unserved := fun _ => unserved_called past
          due := orderly.due
          held := fun _ => orderly.held (by rw [phase]; rfl)
          settles := orderly.settles }
    | PH_RUNNING_QUEUED =>
      exact
        { orderly.toCore.called with
          progress := orderly.progress
          timer := orderly.timer
          active := orderly.active
          calls := fun earlier later split => .inr (.inr (.inl phase))
          queued := fun _ => unserved_called past
          unserved := fun _ => unserved_called past
          due := orderly.due
          held := orderly.held
          settles := orderly.settles }

theorem Orderly.timed (orderly : Orderly self past) :
    Orderly (self.step .timer).1 (past ++ (self.step .timer).2) := by
  unfold Debouncer.step
  dsimp only
  by_cases due : self.timer = true ∧ self.stack = []
  · rw [if_pos due]
    have phase := orderly.timer.mp due.1
    obtain ⟨nothing, none_⟩ := orderly.nothing (by rw [phase]; rfl)
    have core : Core { self with timer := false } past := { orderly.toCore with }
    refine core.invoke nothing none_ rfl (fun stop member => Nat.le_succ_of_le (orderly.due stop member)) fun exposes => ?_
    dsimp only at exposes
    rw [due.2] at exposes
    cases exposes
  · rw [if_neg due]
    simpa using orderly

/-! ## The steps that may go wrong -/

/-- Nothing is fired too early: `stop` is not called from the loop of `retry` that leaves the queued run for its end, and
the loop goes on only when no invocation is in progress and the run that was queued at the `stop` has begun. -/
def Calm (self : Debouncer) : Event → Prop
  | .stop => self.phase = .PH_IDLE → .firing true self.runs ∉ self.stack
  | .fire =>
      ∀ queued runs outer stop rest, self.stack = .firing queued runs :: outer → self.completeDeferreds = stop :: rest →
        self.phase.running = false ∧ stop.runs ≤ self.runs
  | _ => True

/-- `stop` is called, and has not yet looked at the phase. -/
theorem Core.pushed (core : Core self past) (settles : settled self.stack) {runs : Nat} (timer : Bool)
    (enough : ∀ earlier later, past = earlier ++ .called :: later → begun earlier < runs) :
    Core { self with
        stopped := true
        stops := self.stops + 1
        timer := timer
        stack := .stopping ⟨self.stops, runs⟩ :: self.stack }
      (past ++ [.asked self.stops]) where
  lawful := core.lawful.concat fun member => Nat.lt_irrefl _ (core.asked _ member)
  numbered := core.numbered.concat trivial
  runs := core.runs.trans (by simp [begun, begins])
  completes run := by
    rw [List.mem_append, core.completes]
    simp
  started run either := core.started run (by simpa using either)
  loops flag runs member := core.loops flag runs (by simpa using member)
  needs stop either := by
    have cases_ : (stop ∈ self.completeDeferreds ∨ .stopping stop ∈ self.stack) ∨ stop = ⟨self.stops, runs⟩ := by
      simpa [or_comm, or_assoc, or_left_comm] using either
    rcases cases_ with before | rfl
    · exact (core.needs stop before).append _
    · exact ⟨past, [], rfl, enough⟩
  sharp stop member := (core.sharp stop member).imp_right fun sharp => sharp.append _
  asked id member := by
    rcases List.mem_append.mp member with before | now
    · exact Nat.lt_succ_of_lt (core.asked id before)
    · cases List.mem_singleton.mp now
      exact Nat.lt_succ_self _
  once id := by
    have before := core.once id
    unfold pending at before ⊢
    rw [List.count_append, List.countP_cons]
    by_cases here : self.stops = id
    · subst here
      rw [if_neg (Nat.lt_irrefl _)] at before
      rw [if_pos (Nat.lt_succ_self _), if_pos (by simp [waitsFor])]
      simp only [List.count_singleton, beq_iff_eq, reduceCtorEq, if_false]
      omega
    · rw [if_neg (by simpa [waitsFor] using here)]
      have same : (id < self.stops + 1) = (id < self.stops) := by
        apply propext
        omega
      simp only [same, List.count_singleton, beq_iff_eq, reduceCtorEq, if_false]
      omega
  nested := by simp [stacked, settles, core.nested]

theorem Orderly.stop (orderly : Orderly self past) (calm : self.Calm .stop) :
    Orderly self.stop.1 (past ++ self.stop.2) := by
  have few {earlier later : List Action} (split : past = earlier ++ .called :: later) : begun earlier ≤ self.runs := by
    rw [orderly.runs]
    exact begun_le split
  -- outside of `PH_WAITING`, the deferred fires at once or waits
  have at_once (runs : Nat) (enough : ∀ earlier later, past = earlier ++ .called :: later → begun earlier < runs)
      (least : runs ≤ self.runs ∨ self.phase.running = true ∧ runs = self.runs + 1 ∧ Unserved past)
      (phase : self.phase ≠ .PH_WAITING) (calls : ∀ earlier later, past = earlier ++ .called :: later →
        begun earlier < self.runs ∨ self.phase = .PH_RUNNING_QUEUED) :
      Orderly (({ self with stopped := true, stops := self.stops + 1 } : Debouncer).finish ⟨self.stops, runs⟩).1
        (past ++ .asked self.stops ::
          (({ self with stopped := true, stops := self.stops + 1 } : Debouncer).finish ⟨self.stops, runs⟩).2) := by
    have steady : Steady { self with
        stopped := true
        stops := self.stops + 1
        stack := .stopping ⟨self.stops, runs⟩ :: self.stack } (past ++ [.asked self.stops]) :=
      { orderly.toCore.pushed orderly.settles self.timer enough with
        progress := by
          rw [List.countP_cons_of_neg (by simp [isFunction])]
          exact orderly.progress
        timer := orderly.timer
        active := fun waiting => absurd waiting phase
        calls := fun earlier later split => by
          obtain ⟨rest, before⟩ := called_append (by simp) split
          exact (calls earlier rest before).imp_right fun queued => .inr (.inl queued)
        queued := fun queued => (orderly.queued queued).append rfl
        unserved := fun member => (orderly.unserved (by simpa using member)).append rfl
        held := fun _ exposes => by cases exposes }
    have next := steady.resume orderly.due fun stop member => by
      rcases List.mem_cons.mp member with same | outer
      · cases same
        refine least.imp_right fun ⟨running, exact_, earlier, later, split, same⟩ => ⟨running, earlier, later, [], ?_, ?_⟩
        · rw [split]
        · rw [same, ← orderly.runs, exact_]
      · exact .inl (orderly.due stop outer)
    rw [List.append_assoc] at next
    exact next
  unfold Debouncer.stop
  cases phase : self.phase with
  | PH_WAITING =>
    have active := orderly.timer.mpr phase
    obtain ⟨nothing, none_⟩ := orderly.nothing (by rw [phase]; rfl)
    dsimp only
    rw [if_pos active]
    have core := orderly.toCore.pushed orderly.settles false fun earlier later split => Nat.lt_succ_of_le (few split)
    have next := core.invoke nothing (by simpa using none_) rfl (fun stop member => by
      rcases List.mem_cons.mp member with same | outer
      · cases same
        exact Nat.le_refl _
      · exact Nat.le_succ_of_le (orderly.due stop outer)) fun exposes => by cases exposes
    rw [List.append_assoc] at next
    exact next
  | PH_IDLE =>
    have served (earlier later : List Action) (split : past = earlier ++ .called :: later) : begun earlier < self.runs := by
      refine (orderly.calls earlier later split).resolve_right fun pledged => ?_
      rcases pledged with other | other | ⟨_, _, loop⟩
      · rw [phase] at other
        cases other
      · rw [phase] at other
        cases other
      · exact calm phase loop
    have next := at_once self.runs served (.inl (Nat.le_refl _)) (by simp [phase])
      fun earlier later split => .inl (served earlier later split)
    rw [phase] at next
    exact next
  | PH_RUNNING =>
    have served (earlier later : List Action) (split : past = earlier ++ .called :: later) : begun earlier < self.runs := by
      refine (orderly.calls earlier later split).resolve_right fun pledged => ?_
      rcases pledged with other | other | ⟨other, _⟩ <;>
        · rw [phase] at other
          cases other
    have next := at_once self.runs served (.inl (Nat.le_refl _)) (by simp [phase])
      fun earlier later split => .inl (served earlier later split)
    rw [phase] at next
    exact next
  | PH_RUNNING_QUEUED =>
    have next := at_once (self.runs + 1) (fun earlier later split => Nat.lt_succ_of_le (few split))
      (.inr ⟨by rw [phase]; rfl, rfl, orderly.queued phase⟩) (by simp [phase]) fun _ _ _ => .inr phase
    rw [phase] at next
    exact next

/-- A loop of `retry` ends, and its queued run is scheduled or was not queued. -/
theorem Steady.popped (steady : Steady self past) {queued : Bool} {runs : Nat} {outer : List Frame}
    (shape : self.stack = .firing queued runs :: outer) (resting : self.phase.running = false)
    (done : self.phase = .PH_WAITING ∨ queued = false ∨ self.stopped = true) : Steady { self with stack := outer } past := by
  have inner {frame : Frame} (member : frame ∈ outer) : frame ∈ self.stack := by
    rw [shape]
    exact List.mem_cons_of_mem _ member
  exact
    { steady with
      completes := fun run => by
        rw [steady.completes, shape]
        simp
      started := fun run either => steady.started run (either.imp_right inner)
      loops := fun flag runs member => steady.loops flag runs (inner member)
      needs := fun stop either => steady.needs stop (either.imp_right inner)
      once := fun id => by
        have before := steady.once id
        unfold pending at before ⊢
        rw [shape, List.countP_cons_of_neg (by simp [waitsFor])] at before
        exact before
      nested := by
        have nested := steady.nested
        rw [shape] at nested
        exact nested
      progress := by
        have progress := steady.progress
        rw [shape, List.countP_cons_of_neg (by simp [isFunction])] at progress
        exact progress
      calls := fun earlier later split => (steady.calls earlier later split).imp_right fun pledged => by
        rcases pledged with waiting | phase | ⟨idle, started, loop⟩
        · exact .inl waiting
        · exact .inr (.inl phase)
        · refine .inr (.inr ⟨idle, started, ?_⟩)
          rw [shape] at loop
          rcases List.mem_cons.mp loop with same | below
          · injection same with flag _
            subst flag
            rw [idle, started] at done
            simp at done
          · exact below
      unserved := fun member => steady.unserved (inner member)
      held := fun running => by
        rw [resting] at running
        cases running }

theorem schedule_stack (stack : List Frame) :
    ({ self with stack := stack } : Debouncer).schedule = ({ self.schedule.1 with stack := stack }, self.schedule.2) := by
  obtain ⟨_, phase, _⟩ := self
  cases phase <;> rfl

theorem Orderly.fire (orderly : Orderly self past) (calm : self.Calm .fire) :
    Orderly self.fire.1 (past ++ self.fire.2) := by
  unfold Debouncer.fire
  split
  next queued runs outer stop rest shape queue =>
    obtain ⟨resting, enough⟩ := calm queued runs outer stop rest shape queue
    obtain ⟨nothing, none_⟩ := orderly.nothing resting
    have first : stop ∈ self.completeDeferreds := by
      rw [queue]
      exact List.mem_cons_self
    have later {other : Stop} (member : other ∈ rest) : other ∈ self.completeDeferreds := by
      rw [queue]
      exact List.mem_cons_of_mem _ member
    have waits : 0 < self.pending stop.id := by
      rw [pending, queue, List.countP_cons_of_pos (by simp)]
      omega
    have law := orderly.fires (orderly.idle nothing none_) (orderly.needs stop (.inl first)) enough waits
    exact
      { lawful := orderly.lawful.concat law
        numbered := orderly.numbered.concat trivial
        runs := orderly.runs.trans (by simp [begun, begins])
        completes := fun run => by
          rw [List.mem_append, orderly.completes]
          simp
        started := orderly.started
        loops := orderly.loops
        needs := fun other either => (orderly.needs other (either.imp_left later)).append _
        sharp := fun other member => (orderly.sharp other (later member)).imp_right fun sharp => sharp.append _
        asked := fun id member => orderly.asked id (by simpa using member)
        once := fun id => by
          have before := orderly.once id
          unfold pending at before ⊢
          rw [queue, List.countP_cons] at before
          dsimp only
          rw [List.count_append, ← before]
          by_cases here : stop.id = id
          · simp only [here, decide_true, if_true, List.count_singleton_self]
            omega
          · simp [here]
        nested := orderly.nested
        progress := orderly.progress
        timer := orderly.timer
        active := orderly.active
        calls := fun earlier later split => by
          obtain ⟨rest, before⟩ := called_append (by simp) split
          exact orderly.calls earlier rest before
        queued := fun phase => by
          rw [phase] at resting
          cases resting
        unserved := fun member => (orderly.unserved member).append rfl
        held := fun running => by
          rw [resting] at running
          cases running
        due := orderly.due
        settles := orderly.settles }
  next queued runs outer shape queue =>
    have resting : self.phase.running = false := by
      by_contra running
      exact orderly.held (by simpa using running) (by rw [shape]; rfl) queue
    have due (stop : Stop) (member : .stopping stop ∈ outer) : stop.runs ≤ self.runs :=
      orderly.due stop (by rw [shape]; exact List.mem_cons_of_mem _ member)
    dsimp only
    by_cases again : (queued && !self.stopped) = true
    · -- the run that was queued before the loop
      obtain ⟨flag, started⟩ : queued = true ∧ self.stopped = false := by simpa using again
      obtain ⟨scheduled, silent, waiting, same⟩ := orderly.toSteady.schedule resting started
      have popped := scheduled.popped (same.trans shape) (by rw [waiting]; rfl) (.inl waiting)
      have kept : self.schedule.1.runs = self.runs := by
        unfold Debouncer.schedule
        cases self.phase <;> rfl
      rw [if_pos again, schedule_stack, silent]
      exact popped.resume (fun stop member => kept ▸ due stop (List.mem_of_mem_tail member)) fun stop member =>
        .inl (kept ▸ due stop member)
    · rw [if_neg again]
      have popped := orderly.toSteady.popped shape resting (.inr (by
        cases queued with
        | false => exact .inl rfl
        | true => exact .inr (by simpa using again)))
      exact popped.resume (fun stop member => due stop (List.mem_of_mem_tail member)) fun stop member => .inl (due stop member)
  next => simpa using orderly

theorem Orderly.step (orderly : Orderly self past) (event : Event) (calm : self.Calm event) :
    Orderly (self.step event).1 (past ++ (self.step event).2) := by
  cases event with
  | call => exact orderly.call
  | start =>
    rw [Debouncer.step, List.append_nil]
    exact orderly.start
  | stop => exact orderly.stop calm
  | timer => exact orderly.timed
  | returns done => exact orderly.returns done
  | complete run => exact orderly.complete run
  | fire => exact orderly.fire calm

theorem Orderly.kept (orderly : Orderly self past) : Kept self past := by
  refine ⟨orderly.lawful, fun earlier later split => ?_⟩
  refine (orderly.calls earlier later split).imp (fun less => ⟨begun earlier, ?_⟩) fun pledged => ?_
  · have began := began_since orderly.numbered split (orderly.runs ▸ less)
    simpa using began
  · exact pledged.imp_right fun others => others.imp_right fun ⟨_, started, loop⟩ => ⟨started, self.runs, loop⟩

theorem init_orderly (until_idle : Bool) : Orderly (init until_idle) [] where
  lawful := lawful_nil Law
  numbered := lawful_nil Numbered
  runs := rfl
  completes run := by simp [init]
  started run either := by simp [init] at either
  loops queued runs member := absurd member List.not_mem_nil
  needs stop either := by simp [init] at either
  sharp stop member := absurd member List.not_mem_nil
  asked id member := absurd member List.not_mem_nil
  once id := by simp [pending, init]
  nested := rfl
  progress := rfl
  timer := by simp [init]
  active waiting := by cases waiting
  calls earlier later split := by simp at split
  queued phase := by cases phase
  unserved member := absurd member List.not_mem_nil
  due stop member := absurd member List.not_mem_nil
  held running := by cases running
  settles := rfl

/-! ## What is lost -/

/-- A deferred fires too early when no invocation has begun since some call before its `stop`. -/
theorem not_fires {earlier later after : List Action} {id : Nat} (lawful : Lawful Law past)
    (split : past = earlier ++ .called :: later ++ .asked id :: after) (none_ : begun past ≤ begun earlier) :
    ¬ Law past (.fired id) := by
  rintro ⟨_, _, before', after', split', all⟩
  obtain ⟨rfl, rfl⟩ := asked_unique (split ▸ lawful) (split.symm.trans split')
  obtain ⟨run, began, _⟩ := all earlier later rfl
  have same : begun (earlier ++ (.called :: (later ++ .asked id :: after))) ≤ begun earlier := by
    rw [split] at none_
    simpa using none_
  exact not_began same run (List.mem_cons_of_mem _ began)

theorem Orderly.lost (orderly : Orderly self past) (event : Event) (wild : ¬ self.Calm event) :
    ¬ Kept (self.step event).1 (past ++ (self.step event).2) := by
  rintro ⟨lawful, _⟩
  cases event with
  | stop =>
    unfold Calm at wild
    push Not at wild
    obtain ⟨phase, loop⟩ := wild
    obtain ⟨earlier, later, split, same⟩ := orderly.unserved loop
    have shown : self.stop.2 = [.asked self.stops, .fired self.stops] := by
      unfold Debouncer.stop Debouncer.finish
      simp [phase, Phase.running]
    rw [Debouncer.step, shown] at lawful
    have asked : Lawful Law (past ++ [.asked self.stops]) := fun before observed start =>
      lawful before observed (start.trans ⟨[.fired self.stops], by simp⟩)
    refine @not_fires _ earlier later [] self.stops asked (by rw [split]) ?_ (@Lawful.split _ _ _ _ [] _ lawful (by simp))
    rw [begun_append, same]
    exact Nat.le_refl _
  | fire =>
    unfold Calm at wild
    push Not at wild
    obtain ⟨queued, runs, outer, stop, rest, shape, queue, early⟩ := wild
    have shown : self.fire.2 = [.fired stop.id] := by
      unfold Debouncer.fire
      rw [shape, queue]
    rw [Debouncer.step, shown] at lawful
    have law : Law past (.fired stop.id) := lawful.split rfl
    by_cases running : self.phase.running = true
    · -- the invocation in progress is not complete
      obtain ⟨run, here⟩ : ∃ run, run ∈ self.awaiting ∨ .function run ∈ self.stack := by
        have progress := orderly.progress
        rw [if_pos running] at progress
        by_cases none_ : self.awaiting = []
        · rw [none_] at progress
          have positive : 0 < self.stack.countP isFunction := by
            simp only [List.length_nil] at progress
            omega
          obtain ⟨frame, member, is⟩ := List.countP_pos_iff.mp positive
          cases frame with
          | function run => exact ⟨run, .inr member⟩
          | _ => cases is
        · obtain ⟨run, member⟩ := List.exists_mem_of_ne_nil _ none_
          exact ⟨run, .inl member⟩
      have small := orderly.started run here
      have completed := law.2.1 run ((mem_began orderly.numbered run).mpr (orderly.runs ▸ small))
      obtain ⟨_, one, two⟩ := (orderly.completes run).mp completed
      exact here.elim one two
    · have few : ¬ stop.runs ≤ self.runs := by
        have more := early (by simpa using running)
        omega
      have member : stop ∈ self.completeDeferreds := by
        rw [queue]
        exact List.mem_cons_self
      obtain ⟨earlier, later, after, split, same⟩ := (orderly.sharp stop member).resolve_left few
      refine not_fires orderly.lawful split ?_ law
      rw [← orderly.runs]
      omega
  | _ => exact wild trivial

/-! ## Every run -/

/-- The debouncer keeps what it promises through a run, if and only if no step of the run fires a deferred too early. -/
theorem kept_iff_calm (until_idle : Bool) (events : List Event) :
    (∀ past, past <+: events → Kept (final step (init until_idle) past) (seen step (init until_idle) past)) ↔
      Always step Calm (init until_idle) events := by
  have history := @history_iff _ _ _ step Calm Orderly Kept
    (fun self past event orderly calm => orderly.step event calm) (fun self past event orderly wild => orderly.lost event wild)
    (fun self past orderly => orderly.kept) _ [] (init_orderly until_idle) events
  simpa using history

/-- After a restart during a run, the deferred fires before the queued run; a callback of the deferred lets it stop
without the queued run; and a callback that starts a run lets its own deferred fire during that run. -/
theorem fired_early :
    (¬ ∀ past, past <+: [Event.call, .timer, .returns false, .call, .stop, .start, .complete 0, .fire] →
      Kept (final step (init false) past) (seen step (init false) past)) ∧
    (¬ ∀ past, past <+: [Event.call, .timer, .returns false, .stop, .start, .call, .complete 0, .fire, .stop] →
      Kept (final step (init false) past) (seen step (init false) past)) ∧
    (¬ ∀ past, past <+: [Event.call, .timer, .returns false, .stop, .complete 0, .fire, .start, .call, .stop,
        .returns false, .fire] →
      Kept (final step (init false) past) (seen step (init false) past)) := by
  refine ⟨fun all => ?_, fun all => ?_, fun all => ?_⟩
  · have lawful := (all _ List.prefix_rfl).1
    have shown : seen step (init false) [Event.call, .timer, .returns false, .call, .stop, .start, .complete 0, .fire] =
        [.called, .began 0, .called, .asked 0, .completed 0] ++ [.fired 0] := by decide
    rw [shown] at lawful
    have before : Lawful Law [.called, .began 0, .called, .asked 0, .completed 0] := fun first observed start =>
      lawful first observed (start.trans (List.prefix_append _ _))
    exact @not_fires _ [.called, .began 0] [] [.completed 0] 0 before rfl (by decide) (lawful.split rfl)
  · have lawful := (all _ List.prefix_rfl).1
    have shown : seen step (init false)
        [Event.call, .timer, .returns false, .stop, .start, .call, .complete 0, .fire, .stop] =
        [.called, .began 0, .asked 0, .called, .completed 0, .fired 0, .asked 1] ++ [.fired 1] := by decide
    rw [shown] at lawful
    have before : Lawful Law [.called, .began 0, .asked 0, .called, .completed 0, .fired 0, .asked 1] :=
      fun first observed start => lawful first observed (start.trans (List.prefix_append _ _))
    exact @not_fires _ [.called, .began 0, .asked 0] [.completed 0, .fired 0] [] 1 before rfl (by decide)
      (lawful.split rfl)
  · have lawful := (all _ List.prefix_rfl).1
    have shown : seen step (init false)
        [Event.call, .timer, .returns false, .stop, .complete 0, .fire, .start, .call, .stop, .returns false, .fire] =
        [.called, .began 0, .asked 0, .completed 0, .fired 0, .called, .asked 1, .began 1] ++ [.fired 1] := by decide
    rw [shown] at lawful
    have law := @Lawful.split _ _ _ _ [] _ lawful rfl
    exact absurd (law.2.1 1 (by decide)) (by decide)

end Umbilical.Util.Debouncer
