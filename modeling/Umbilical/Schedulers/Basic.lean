import Mathlib.Logic.Function.Basic
import Umbilical.Schedulers.Accounting
import Umbilical.Shared.Interleaving

set_option autoImplicit false

/-!
# Basic schedulers with a tree-stable timer

`gotChange` and `stableTimerFired` run under `_stable_timers_lock`, which is passed on in the
order of the calls. A timer can fire while either holds it.
-/

namespace Umbilical.Schedulers

open Interleaving

/-- What a row of the table `changes` says about its change. -/
structure Columns where
  codebase : String
  project : String
  repository : String
  branch : Option String
  deriving DecidableEq

inductive TimerName where
  | only
  | of (columns : Columns)
  deriving DecidableEq

/-- An entry of `_stable_timers`. A delayed call stays in it after it has been called, until `stableTimerFired` has
the lock. -/
inductive Timer where
  | none
  | pending
  | called
  deriving DecidableEq

/-- A call that takes the lock. -/
inductive Call where
  | gotChange (number : Nat) (important : Bool)
  | stableTimerFired (timerName : TimerName)
  deriving DecidableEq

/-- Where the call that has the lock is. -/
inductive Running where
  | idle
  | classifying (number : Nat) (important : Bool)
  | gettingChangeClassifications (timerName : TimerName)
  | adding (timerName : TimerName) (classifications : Classifications)
  | flushing (classifications : Classifications)
  deriving DecidableEq

/-- The `stableTimerFired` with the lock has still to build what it has read or will read. -/
def Running.Builds (timerName : TimerName) : Running → Prop
  | .gettingChangeClassifications handled | .adding handled _ => handled = timerName
  | _ => False

structure BaseBasicScheduler where
  /-- Whether it is an `AnyBranchScheduler` or a `SingleBranchScheduler`. -/
  anyBranch : Bool
  columns : Nat → Columns
  stableTimers : TimerName → Timer
  waiting : List Call
  running : Running
  schedulerChanges : Classifications
  /-- The numbers of the changes of each buildset. -/
  buildsets : List (List Nat)
  /-- The changes that were stored, and those that were passed to `gotChange`. -/
  changes : List Nat
  /-- The changes that are or were classified. -/
  classified : List Nat
  /-- The stored changes that `scanExistingClassifiedChanges` has not brought back yet. -/
  unscanned : List Nat

inductive BasicEvent where
  | gotChange (number : Nat) (important : Bool)
  | fireTimer (timerName : TimerName)
  /-- The call that has the lock takes its next step, or the next call gets the lock. -/
  | proceed
  deriving DecidableEq

namespace BaseBasicScheduler

variable (basic : BaseBasicScheduler)

def getTimerNameForChange (number : Nat) : TimerName := if basic.anyBranch then .of (basic.columns number) else .only

def getChangeClassificationsForTimer (timerName : TimerName) : Classifications :=
  match timerName with
  | .only => basic.schedulerChanges
  | .of columns => basic.schedulerChanges.getChangeClassifications fun number => basic.columns number = columns

def setTimer (timerName : TimerName) (timer : Timer) : BaseBasicScheduler :=
  { basic with stableTimers := Function.update basic.stableTimers timerName timer }

/-- `gotChange`, with the lock. -/
def gotChange (number : Nat) (important : Bool) : BaseBasicScheduler :=
  let timerName := basic.getTimerNameForChange number
  match basic.stableTimers timerName with
  | .none =>
    { if important then basic.setTimer timerName .pending else basic with running := .classifying number important }
  | .pending => { basic.setTimer timerName .pending with running := .classifying number important }
  -- `cancel` raises `AlreadyCalled`.
  | .called => basic

/-- `stableTimerFired`, with the lock. -/
def stableTimerFired (timerName : TimerName) : BaseBasicScheduler :=
  if basic.stableTimers timerName = .none then basic
  else { basic.setTimer timerName .none with running := .gettingChangeClassifications timerName }

def acquire : BaseBasicScheduler :=
  match basic.waiting with
  | [] => basic
  | .gotChange number important :: rest => { basic with waiting := rest }.gotChange number important
  | .stableTimerFired timerName :: rest => { basic with waiting := rest }.stableTimerFired timerName

def proceed : BaseBasicScheduler :=
  match basic.running with
  | .idle => basic.acquire
  | .classifying number important =>
    { basic with
      schedulerChanges := basic.schedulerChanges.classifyChanges number important
      classified := basic.classified ++ [number]
      unscanned := basic.unscanned.filter (· ≠ number)
      running := .idle }
  | .gettingChangeClassifications timerName =>
    let classifications := basic.getChangeClassificationsForTimer timerName
    { basic with running := if classifications = [] then .idle else .adding timerName classifications }
  | .adding _ classifications =>
    { basic with
      buildsets := basic.buildsets ++ [classifications.changeids]
      running := .flushing classifications }
  | .flushing classifications =>
    { basic with
      schedulerChanges :=
        basic.schedulerChanges.flushChangeClassifications (some (classifications.maxChangeid + 1))
      running := .idle }

/-- The lock is free and goes to the next call, before anything else happens. -/
def Passing : Prop := basic.running = .idle ∧ basic.waiting ≠ []

instance : Decidable basic.Passing := inferInstanceAs (Decidable (_ ∧ _))

def step (event : BasicEvent) : BaseBasicScheduler × List Unit :=
  match event with
  | .gotChange number important =>
    (if basic.Passing then basic
    else
      { basic with
        waiting := basic.waiting ++ [.gotChange number important]
        changes := basic.changes ++ [number] }, [])
  | .fireTimer timerName =>
    (if ¬ basic.Passing ∧ basic.stableTimers timerName = .pending then
      { basic.setTimer timerName .called with waiting := basic.waiting ++ [.stableTimerFired timerName] }
    else basic, [])
  | .proceed => (basic.proceed, [])

/-- A scheduler that comes up with what is stored. -/
def start (anyBranch : Bool) (columns : Nat → Columns) (stored : Classifications) : BaseBasicScheduler where
  anyBranch := anyBranch
  columns := columns
  stableTimers _ := .none
  waiting := []
  running := .idle
  schedulerChanges := stored
  buildsets := []
  changes := stored.numbers
  classified := stored.numbers
  unscanned := stored.numbers

/-- `gotChange` has been called for the change and has not come to its end. -/
def Arriving (number : Nat) : Prop :=
  ∃ important, .gotChange number important ∈ basic.waiting ∨ basic.running = .classifying number important

/-- The timer is pending, or its `stableTimerFired` waits for the lock. -/
def Armed (timerName : TimerName) : Prop :=
  basic.stableTimers timerName = .pending ∨ .stableTimerFired timerName ∈ basic.waiting

def Covered (timerName : TimerName) : Prop := basic.Armed timerName ∨ basic.running.Builds timerName

/-- No change is lost. -/
structure Accounts : Prop where
  arrives : ∀ number ∈ basic.changes, number ∈ basic.classified ∨ basic.Arriving number
  kept : ∀ number ∈ basic.classified, number ∈ basic.schedulerChanges.numbers ∨ 1 ≤ built basic.buildsets number
  once : ∀ number, built basic.buildsets number ≤ 1
  covered : ∀ number, (number, true) ∈ basic.schedulerChanges → number ∉ basic.unscanned → built basic.buildsets number = 0 →
    basic.Covered (basic.getTimerNameForChange number)

/-- `gotChange` finds no timer that has been called, a change that is in a buildset is not classified again, and a
flush takes what was read. -/
def Orderly : BasicEvent → Prop
  | .proceed =>
    match basic.running with
    | .idle =>
      match basic.waiting with
      | .gotChange number _ :: _ => basic.stableTimers (basic.getTimerNameForChange number) ≠ .called
      | _ => True
    | .classifying number _ => built basic.buildsets number = 0
    | .flushing classifications => basic.schedulerChanges.Covers classifications
    | _ => True
  | _ => True

def Progress (running : Running) : Prop :=
  match running with
  | .idle | .gettingChangeClassifications _ => basic.schedulerChanges.Clean basic.buildsets
  | .classifying number important =>
    basic.schedulerChanges.Clean basic.buildsets ∧
      (important → basic.Armed (basic.getTimerNameForChange number))
  | .adding timerName classifications =>
    basic.schedulerChanges.Clean basic.buildsets ∧ basic.schedulerChanges.Read classifications ∧
      ∀ number ∈ basic.schedulerChanges.numbers, basic.getTimerNameForChange number = timerName →
        number ∈ classifications.numbers
  | .flushing classifications =>
    basic.schedulerChanges.Added basic.buildsets classifications ∧ basic.schedulerChanges.Read classifications

structure Sound : Prop where
  accounted : basic.schedulerChanges.Accounted basic.buildsets basic.classified
  arrives : ∀ number ∈ basic.changes, number ∈ basic.classified ∨ basic.Arriving number
  called : ∀ timerName, basic.waiting.count (.stableTimerFired timerName) =
    if basic.stableTimers timerName = .called then 1 else 0
  covered : ∀ number, (number, true) ∈ basic.schedulerChanges → number ∉ basic.unscanned →
    built basic.buildsets number = 0 → basic.Covered (basic.getTimerNameForChange number)
  progress : basic.Progress basic.running

variable {basic : BaseBasicScheduler}

theorem Progress.once {running : Running} (progress : basic.Progress running) {number : Nat}
    (listed : number ∈ basic.schedulerChanges.numbers) : built basic.buildsets number ≤ 1 := by
  cases running with
  | idle => exact Classifications.Clean.le_one progress listed
  | classifying other important => exact progress.1.le_one listed
  | gettingChangeClassifications timerName => exact Classifications.Clean.le_one progress listed
  | adding timerName classifications => exact progress.1.le_one listed
  | flushing classifications => exact progress.1.le_one listed

theorem Sound.accounts (sound : basic.Sound) : basic.Accounts := by
  refine ⟨sound.arrives, fun number classified => ?_, fun number => ?_, sound.covered⟩
  · by_cases listed : number ∈ basic.schedulerChanges.numbers
    · exact .inl listed
    · exact .inr (sound.accounted.flushed number classified listed).ge
  · by_cases listed : number ∈ basic.schedulerChanges.numbers
    · exact sound.progress.once listed
    by_cases classified : number ∈ basic.classified
    · exact (sound.accounted.flushed number classified listed).le
    · exact (sound.accounted.foreign number classified).le.trans (Nat.zero_le 1)

theorem start_sound (anyBranch : Bool) (columns : Nat → Columns) {stored : Classifications}
    (distinct : stored.numbers.Nodup) : (start anyBranch columns stored).Sound where
  accounted := .initial distinct
  arrives _ member := .inl member
  called _ := rfl
  covered _ member unscanned := absurd (List.mem_map_of_mem member) unscanned
  progress := Classifications.Clean.initial

/-- Calls come and timers change under whatever runs. -/
theorem Sound.queue (sound : basic.Sound) {stableTimers : TimerName → Timer} {waiting : List Call} {changes : List Nat}
    (arrives : ∀ number ∈ changes,
      number ∈ basic.classified ∨ { basic with stableTimers, waiting, changes }.Arriving number)
    (called : ∀ timerName, waiting.count (.stableTimerFired timerName) =
      if stableTimers timerName = .called then 1 else 0)
    (armed : ∀ timerName, basic.Armed timerName → { basic with stableTimers, waiting, changes }.Armed timerName) :
    { basic with stableTimers, waiting, changes }.Sound where
  accounted := sound.accounted
  arrives := arrives
  called := called
  covered number listed scanned unbuilt := (sound.covered number listed scanned unbuilt).imp_left (armed _)
  progress := by
    have progress := sound.progress
    show Progress _ basic.running
    cases phase : basic.running with
    | classifying number important =>
      rw [phase] at progress
      exact ⟨progress.1, fun isImportant => armed _ (progress.2 isImportant)⟩
    | _ =>
      rw [phase] at progress
      exact progress

theorem Sound.enqueue (sound : basic.Sound) (number : Nat) (important : Bool) :
    { basic with
      waiting := basic.waiting ++ [.gotChange number important]
      changes := basic.changes ++ [number] : BaseBasicScheduler }.Sound := by
  apply sound.queue
  · intro other change
    rcases List.mem_append.mp change with earlier | now
    · rcases sound.arrives other earlier with classified | ⟨isImportant, waits | runs⟩
      · exact .inl classified
      · exact .inr ⟨isImportant, .inl (List.mem_append_left _ waits)⟩
      · exact .inr ⟨isImportant, .inr runs⟩
    · rw [List.mem_singleton.mp now]
      exact .inr ⟨important, .inl (List.mem_append_right _ (List.mem_singleton_self _))⟩
  · intro timerName
    rw [List.count_append, sound.called timerName]
    rfl
  · rintro timerName (pending | waits)
    · exact .inl pending
    · exact .inr (List.mem_append_left _ waits)

theorem Sound.fire (sound : basic.Sound) {timerName : TimerName} (pending : basic.stableTimers timerName = .pending) :
    { basic.setTimer timerName .called with
      waiting := basic.waiting ++ [.stableTimerFired timerName] : BaseBasicScheduler }.Sound := by
  apply sound.queue
  · intro other change
    rcases sound.arrives other change with classified | ⟨isImportant, waits | runs⟩
    · exact .inl classified
    · exact .inr ⟨isImportant, .inl (List.mem_append_left _ waits)⟩
    · exact .inr ⟨isImportant, .inr runs⟩
  · intro other
    rw [List.count_append, sound.called other]
    by_cases same : other = timerName
    · subst same
      simp [pending, setTimer]
    · simp [setTimer, Function.update_of_ne same, Ne.symm same]
  · rintro other (isPending | waits)
    · by_cases same : other = timerName
      · subst same
        exact .inr (List.mem_append_right _ (List.mem_singleton_self _))
      · exact .inl ((Function.update_of_ne same _ _).trans isPending)
    · exact .inr (List.mem_append_left _ waits)

/-- While nothing is being classified, a change that is to arrive waits for the lock. -/
theorem Sound.waits (sound : basic.Sound) {number : Nat} (change : number ∈ basic.changes)
    (elsewhere : ∀ important, basic.running ≠ .classifying number important) :
    number ∈ basic.classified ∨ ∃ important, .gotChange number important ∈ basic.waiting := by
  rcases sound.arrives number change with classified | ⟨important, waits | runs⟩
  · exact .inl classified
  · exact .inr ⟨important, waits⟩
  · exact absurd runs (elsewhere important)

/-- `gotChange` gets the lock: the timers are left alone, or the one of the change is restarted. -/
theorem Sound.classifying (sound : basic.Sound) {number : Nat} {important : Bool} {rest : List Call}
    (idle : basic.running = .idle) (next : basic.waiting = .gotChange number important :: rest)
    {stableTimers : TimerName → Timer}
    (pending : ∀ timerName, basic.stableTimers timerName = .pending → stableTimers timerName = .pending)
    (called : ∀ timerName, stableTimers timerName = .called ↔ basic.stableTimers timerName = .called)
    (starts : important → stableTimers (basic.getTimerNameForChange number) = .pending) :
    { basic with stableTimers, waiting := rest, running := .classifying number important }.Sound := by
  have progress := sound.progress
  rw [idle] at progress
  refine ⟨sound.accounted, fun other change => ?_, fun timerName => ?_, fun other listed scanned unbuilt => ?_,
    progress, fun isImportant => .inl (starts isImportant)⟩
  · rcases sound.waits change (by simp [idle]) with classified | ⟨isImportant, waits⟩
    · exact .inl classified
    · rw [next] at waits
      rcases List.mem_cons.mp waits with now | later
      · cases now
        exact .inr ⟨important, .inr rfl⟩
      · exact .inr ⟨isImportant, .inl later⟩
  · have before := sound.called timerName
    have other : Call.gotChange number important ≠ .stableTimerFired timerName := nofun
    rw [next, List.count_cons_of_ne other] at before
    simp only [before, called]
  · rcases sound.covered other listed scanned unbuilt with (isPending | waits) | builds
    · exact .inl (.inl (pending _ isPending))
    · rw [next] at waits
      exact .inl (.inr ((List.mem_cons.mp waits).resolve_left nofun))
    · rw [idle] at builds
      exact builds.elim

theorem Sound.gotChange (sound : basic.Sound) {number : Nat} {important : Bool} {rest : List Call}
    (idle : basic.running = .idle) (next : basic.waiting = .gotChange number important :: rest)
    (orderly : basic.stableTimers (basic.getTimerNameForChange number) ≠ .called) :
    ({ basic with waiting := rest }.gotChange number important).Sound := by
  have restarted (timerName : TimerName) : Function.update basic.stableTimers
      (basic.getTimerNameForChange number) .pending timerName = .called ↔ basic.stableTimers timerName = .called := by
    by_cases same : timerName = basic.getTimerNameForChange number
    · subst same
      simp [orderly]
    · rw [Function.update_of_ne same]
  have kept (timerName : TimerName) (pending : basic.stableTimers timerName = .pending) : Function.update
      basic.stableTimers (basic.getTimerNameForChange number) .pending timerName = .pending := by
    by_cases same : timerName = basic.getTimerNameForChange number
    · subst same
      exact Function.update_self ..
    · exact (Function.update_of_ne same _ _).trans pending
  have started := sound.classifying idle next kept restarted fun _ => Function.update_self ..
  unfold BaseBasicScheduler.gotChange
  dsimp only
  split
  · cases important with
    | false => exact sound.classifying idle next (fun _ pending => pending) (fun _ => Iff.rfl) nofun
    | true => exact started
  · exact started
  · rename_i called
    exact absurd called orderly

/-- `stableTimerFired` gets the lock. -/
theorem Sound.stableTimerFired (sound : basic.Sound) {timerName : TimerName} {rest : List Call}
    (idle : basic.running = .idle) (next : basic.waiting = .stableTimerFired timerName :: rest) :
    ({ basic with waiting := rest }.stableTimerFired timerName).Sound := by
  have progress := sound.progress
  rw [idle] at progress
  have own := sound.called timerName
  rw [next, List.count_cons_self] at own
  -- The call waits once, for a timer that has been called.
  have called : basic.stableTimers timerName = .called := by
    by_contra other
    rw [if_neg other] at own
    omega
  rw [if_pos called] at own
  have present : ({ basic with waiting := rest } : BaseBasicScheduler).stableTimers timerName ≠ .none := by
    show basic.stableTimers timerName ≠ .none
    rw [called]
    nofun
  rw [BaseBasicScheduler.stableTimerFired, if_neg present]
  refine ⟨sound.accounted, fun other change => ?_, fun other => ?_, fun other listed scanned unbuilt => ?_, progress⟩
  · rcases sound.waits change (by simp [idle]) with classified | ⟨isImportant, waits⟩
    · exact .inl classified
    · rw [next] at waits
      exact .inr ⟨isImportant, .inl ((List.mem_cons.mp waits).resolve_left nofun)⟩
  · by_cases same : other = timerName
    · subst same
      simp only [setTimer, Function.update_self]
      simpa using own
    · have before := sound.called other
      rw [next, List.count_cons_of_ne fun equal => same (by cases equal; rfl)] at before
      simp only [setTimer, Function.update_of_ne same]
      exact before
  · by_cases same : basic.getTimerNameForChange other = timerName
    · exact .inr same.symm
    rcases sound.covered other listed scanned unbuilt with (isPending | waits) | builds
    · exact .inl (.inl ((Function.update_of_ne same _ _).trans isPending))
    · rw [next] at waits
      exact .inl (.inr ((List.mem_cons.mp waits).resolve_left fun equal => same (by cases equal; rfl)))
    · rw [idle] at builds
      exact builds.elim

theorem Sound.acquire (sound : basic.Sound) (idle : basic.running = .idle) (orderly : basic.Orderly .proceed) :
    basic.acquire.Sound := by
  unfold Orderly at orderly
  rw [idle] at orderly
  unfold BaseBasicScheduler.acquire
  split
  · exact sound
  · rename_i number important rest next
    dsimp only at orderly
    rw [next] at orderly
    exact sound.gotChange idle next orderly
  · rename_i timerName rest next
    exact sound.stableTimerFired idle next

/-- What is armed or about to be built, when the call with the lock does not build. -/
theorem Covered.armed {timerName : TimerName} (covered : basic.Covered timerName)
    (builds : ¬ basic.running.Builds timerName) : basic.Armed timerName := covered.resolve_right builds

theorem Sound.classified (sound : basic.Sound) {number : Nat} {important : Bool}
    (running : basic.running = .classifying number important) (unbuilt : built basic.buildsets number = 0) :
    { basic with
      schedulerChanges := basic.schedulerChanges.classifyChanges number important
      classified := basic.classified ++ [number]
      unscanned := basic.unscanned.filter (· ≠ number)
      running := .idle : BaseBasicScheduler }.Sound := by
  have progress := sound.progress
  rw [running] at progress
  refine ⟨sound.accounted.classify important unbuilt, fun other change => ?_, sound.called,
    fun other listed scanned none => ?_, progress.1.classify important unbuilt⟩
  · rcases sound.arrives other change with classified | ⟨isImportant, waits | runs⟩
    · exact .inl (List.mem_append_left _ classified)
    · exact .inr ⟨isImportant, .inl waits⟩
    · rw [running] at runs
      cases runs
      exact .inl (List.mem_append_right _ (List.mem_singleton_self _))
  · rcases Classifications.mem_classifyChanges listed with now | ⟨earlier, other⟩
    · cases now
      exact .inl (progress.2 rfl)
    · have before := sound.covered _ earlier (fun member => scanned (by simpa using ⟨member, other⟩)) none
      exact .inl (before.armed (by rw [running]; exact id))

theorem mem_getChangeClassificationsForTimer {row : Nat × Bool} (listed : row ∈ basic.schedulerChanges) :
    row ∈ basic.getChangeClassificationsForTimer (basic.getTimerNameForChange row.1) := by
  unfold getTimerNameForChange getChangeClassificationsForTimer
  split
  · exact listed
  · rename_i columns named
    split at named
    · cases named
      exact List.mem_filter.mpr ⟨listed, decide_eq_true rfl⟩
    · cases named

theorem getChangeClassificationsForTimer_sublist (timerName : TimerName) :
    (basic.getChangeClassificationsForTimer timerName).Sublist basic.schedulerChanges := by
  cases timerName with
  | only => exact List.Sublist.refl _
  | of columns => exact List.filter_sublist

theorem Sound.got (sound : basic.Sound) {timerName : TimerName}
    (running : basic.running = .gettingChangeClassifications timerName) : basic.proceed.Sound := by
  have progress := sound.progress
  rw [running] at progress
  have arrives {other : Nat} (change : other ∈ basic.changes) := sound.waits change (by simp [running])
  have sublist := basic.getChangeClassificationsForTimer_sublist timerName
  unfold BaseBasicScheduler.proceed
  rw [running]
  dsimp only
  split
  · rename_i empty
    refine ⟨sound.accounted, fun other change => (arrives change).imp_right fun ⟨important, waits⟩ =>
      ⟨important, .inl waits⟩, sound.called, fun other listed scanned unbuilt => ?_, progress⟩
    have before := sound.covered other listed scanned unbuilt
    refine .inl (before.armed fun builds => ?_)
    rw [running] at builds
    have found : (other, true) ∈ basic.getChangeClassificationsForTimer (basic.getTimerNameForChange other) :=
      mem_getChangeClassificationsForTimer listed
    rw [← builds, empty] at found
    cases found
  · refine ⟨sound.accounted, fun other change => (arrives change).imp_right fun ⟨important, waits⟩ =>
      ⟨important, .inl waits⟩, sound.called, fun other listed scanned unbuilt => ?_, progress, ⟨?_, ?_⟩, ?_⟩
    · have before := sound.covered other listed scanned unbuilt
      rw [Covered, running] at before
      exact before
    · exact sound.accounted.distinct.sublist (sublist.map _)
    · exact fun other member => (sublist.map _).subset member
    · intro other member named
      obtain ⟨row, listed, rfl⟩ := List.mem_map.mp member
      have found : row ∈ basic.getChangeClassificationsForTimer (basic.getTimerNameForChange row.1) :=
        mem_getChangeClassificationsForTimer listed
      rw [show basic.getTimerNameForChange row.1 = timerName from named] at found
      exact List.mem_map_of_mem found

theorem Sound.proceed (sound : basic.Sound) (orderly : basic.Orderly .proceed) : basic.proceed.Sound := by
  have progress := sound.progress
  cases running : basic.running with
  | idle =>
    unfold BaseBasicScheduler.proceed
    rw [running]
    exact sound.acquire running orderly
  | classifying number important =>
    unfold Orderly at orderly
    unfold BaseBasicScheduler.proceed
    rw [running] at orderly ⊢
    exact sound.classified running orderly
  | gettingChangeClassifications timerName => exact sound.got running
  | adding timerName classifications =>
    unfold BaseBasicScheduler.proceed
    rw [running] at progress ⊢
    obtain ⟨clean, still, reads⟩ := progress
    refine ⟨sound.accounted.add still, fun other change => ?_, sound.called, fun other listed scanned unbuilt => ?_,
      still.added clean, still⟩
    · rcases sound.waits change (by simp [running]) with classified | ⟨isImportant, waits⟩
      · exact .inl classified
      · exact .inr ⟨isImportant, .inl waits⟩
    · have member : other ∈ basic.schedulerChanges.numbers := List.mem_map_of_mem listed
      have before := sound.covered other listed scanned (clean other member)
      refine .inl (before.armed fun builds => ?_)
      -- What the call builds is no longer unbuilt.
      rw [running] at builds
      have one := (still.added clean other member).trans (if_pos (reads other member builds.symm))
      exact absurd (one.symm.trans unbuilt) Nat.one_ne_zero
  | flushing classifications =>
    unfold Orderly at orderly
    unfold BaseBasicScheduler.proceed
    rw [running] at progress orderly ⊢
    refine ⟨sound.accounted.flush progress.1 orderly, fun other change => ?_, sound.called,
      fun other listed scanned unbuilt => ?_, progress.1.flush⟩
    · rcases sound.waits change (by simp [running]) with classified | ⟨isImportant, waits⟩
      · exact .inl classified
      · exact .inr ⟨isImportant, .inl waits⟩
    · have before := sound.covered other (List.mem_of_mem_filter listed) scanned unbuilt
      exact .inl (before.armed (by rw [running]; exact id))

theorem Sound.step (sound : basic.Sound) (event : BasicEvent) (orderly : basic.Orderly event) :
    (basic.step event).1.Sound := by
  cases event with
  | gotChange number important =>
    simp only [BaseBasicScheduler.step]
    split
    · exact sound
    · exact sound.enqueue number important
  | fireTimer timerName =>
    simp only [BaseBasicScheduler.step]
    split
    · rename_i fires
      exact sound.fire fires.2
    · exact sound
  | proceed => exact sound.proceed orderly

/-- No change is lost in a run in which no call finds a timer that has been called, no change is classified again
after it was built, and every flush takes what was read. -/
theorem basic_accounts (anyBranch : Bool) (columns : Nat → Columns) (stored : Classifications)
    (distinct : stored.numbers.Nodup) (events : List BasicEvent)
    (orderly : Always step Orderly (start anyBranch columns stored) events) :
    (final step (start anyBranch columns stored) events).Accounts := by
  have preserved (basic : BaseBasicScheduler) (event : BasicEvent) (sound : basic.Sound)
      (orderly : basic.Orderly event) := sound.step event orderly
  exact (invariant_of_always preserved (start_sound anyBranch columns distinct) orderly).accounts

/-- Change 2 is on another branch than the others. -/
def twoBranches (number : Nat) : Columns := ⟨"", "", "", some (if number = 2 then "b" else "a")⟩

/-- The timer of the first branch fires twice; the change on the other branch has its own. -/
def separate : List BasicEvent :=
  [.gotChange 1 true, .proceed, .proceed, .fireTimer (.of (twoBranches 1)), .proceed, .proceed, .proceed, .proceed,
    .gotChange 2 true, .proceed, .proceed, .fireTimer (.of (twoBranches 2)), .proceed, .proceed, .proceed, .proceed]

theorem separate_accounts : (final step (start true twoBranches []) separate).Accounts := by
  refine basic_accounts true twoBranches [] List.nodup_nil separate ?_
  refine ⟨trivial, nofun, rfl, trivial, trivial, trivial, trivial, ?_, trivial, nofun, rfl, trivial, trivial, trivial,
    trivial, ?_, trivial⟩
  · show ∀ number ∈ [1], number ≤ 1 → number ∈ [1]
    decide
  · show ∀ number ∈ [2], number ≤ 2 → number ∈ [2]
    decide

/-- The timer of the change with the greater number fires first. -/
def otherBranch : List BasicEvent :=
  [.gotChange 1 true, .proceed, .proceed, .gotChange 2 true, .proceed, .proceed, .fireTimer (.of (twoBranches 2)),
    .proceed, .proceed, .proceed, .proceed]

/-- The timer fires while a change is being classified and one more waits. -/
def firedMeanwhile : List BasicEvent :=
  [.gotChange 1 true, .proceed, .proceed, .gotChange 2 false, .proceed, .gotChange 3 true, .fireTimer .only, .proceed,
    .proceed]

theorem changes_lost :
    ¬ (final step (start true twoBranches []) otherBranch).Accounts ∧
      ¬ (final step (start false twoBranches []) firedMeanwhile).Accounts := by
  constructor
  · intro accounts
    have kept := accounts.kept 1 (by decide)
    revert kept
    decide
  · intro accounts
    rcases accounts.arrives 3 (by decide) with classified | ⟨important, waits | runs⟩
    · revert classified
      decide
    · cases important
      all_goals revert waits; decide
    · revert runs
      cases important
      all_goals decide

end BaseBasicScheduler

end Umbilical.Schedulers
