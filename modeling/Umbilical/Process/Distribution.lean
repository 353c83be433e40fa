import Mathlib.Data.List.Basic
import Umbilical.Shared.Interleaving

set_option autoImplicit false

/-!
# The build request distributor

Calls of `_maybeStartBuildsOn` and the activity loop share the list of pending builders
and its lock. A release of the lock resumes the next waiter before it returns, so the
loop goes on only after a cascade of calls whose sorters finish at once.
-/

namespace Umbilical.Process

namespace Distribution

open Interleaving

variable {ν : Type} [DecidableEq ν]

inductive Waiter (ν : Type) where
  | call (new_builders : List ν)
  | loop
  deriving DecidableEq

/-- `pending_builders_lock`. It is only held across an event by a call whose sorter is at work: within
the call of the sorter, or after the sorter has returned a Deferred. -/
inductive Lock (ν : Type) where
  | free
  | releasing
  | sorting (new_builders : List ν) (suspended : Bool)
  deriving DecidableEq

/-- Where `_activityLoop` is: before either lock, past a release of `pending_builders_lock` that has not
returned to it yet (with builders, or having left the loop), or in `_maybeStartBuildsOnBuilder`. -/
inductive Phase where
  | finished
  | activity
  | pending
  | took
  | stopping
  | handling
  deriving DecidableEq

inductive Contender where
  | loop
  | other
  deriving DecidableEq

structure Distributor (ν : Type) where
  -- self._pending_builders
  pending_builders : List ν
  active : Bool
  lock : Lock ν
  waiting : List (Waiter ν)
  loop : Phase
  -- the loop's own pending_builders
  taken : List ν
  -- activity_lock: its holder, and then who waits for it
  activity_lock : List Contender

/-- `sort` is the end of the sorter, with what it makes of the builders. -/
inductive Event (ν : Type) where
  | maybeStartBuildsOn (new_builders : List ν)
  | suspend
  | sort (result : List ν)
  | proceed
  | handled
  | acquire
  | release

inductive Observation (ν : Type) where
  | called (new_builders : List ν)
  | handled (builder : ν)
  | dropped (builder : ν)
  deriving DecidableEq

namespace Distributor

def start : Distributor ν := ⟨[], false, .free, [], .finished, [], []⟩

variable (self : Distributor ν)

/-- The loop has got `activity_lock`, and nothing runs above it. -/
def ready : Bool := self.loop = .activity && self.activity_lock.head? = some .loop

/-- User code runs: within a sorter, in a builder, or from the reactor. -/
def userCode : Bool :=
  match self.lock with
  | .releasing => false
  | .sorting _ false => !self.ready
  | _ => !self.ready && self.loop ≠ .took && self.loop ≠ .stopping

/-- `new_builder_set < existing_pending`. -/
def within (new_builders : List ν) : Bool :=
  new_builders.all (· ∈ self.pending_builders) && self.pending_builders.any (· ∉ new_builders)

def _maybeStartBuildsOn (new_builders : List ν) : Distributor ν :=
  if self.within new_builders then self
  else
    match self.lock with
    | .free => { self with lock := .sorting new_builders false }
    | _ => { self with waiting := self.waiting ++ [.call new_builders] }

/-- The rest of the call when its sorter has finished, up to the release of the lock. -/
def sorted (result : List ν) : Distributor ν :=
  let self := { self with pending_builders := result, lock := .releasing }
  if self.active then self
  else if self.activity_lock = [] then
    -- the loop gets its lock, and then waits for the one that the call still holds
    { self with
      active := true
      activity_lock := [.loop]
      loop := .pending
      waiting := self.waiting ++ [.loop] }
  else { self with active := true, activity_lock := self.activity_lock ++ [.loop], loop := .activity }

/-- `release` of `pending_builders_lock`, with what the next waiter does until it waits or releases the lock. -/
def grant : Distributor ν :=
  match self.waiting with
  | [] => { self with lock := .free }
  | .call new_builders :: waiting => { self with lock := .sorting new_builders false, waiting := waiting }
  | .loop :: waiting =>
      if self.pending_builders = [] then { self with loop := .stopping, waiting := waiting }
      else { self with loop := .took, waiting := waiting, taken := self.pending_builders, pending_builders := [] }

/-- The loop lets go of `activity_lock` and asks for it again. -/
def again : Distributor ν := { self with loop := .activity, activity_lock := self.activity_lock.tail ++ [.loop] }

/-- `pending_builders.pop(0)`, and the builder if there is one of the name. -/
def pop (known : ν → Bool) : Distributor ν × List (Observation ν) :=
  match self.taken with
  | [] => (self, [])
  | bldr_name :: taken =>
      let self := { self with taken := taken }
      if known bldr_name then ({ self with loop := .handling }, [.handled bldr_name]) else (self.again, [])

/-- The loop, with `activity_lock`, at the start of a turn. -/
def turn (known : ν → Bool) : Distributor ν × List (Observation ν) :=
  if self.taken = [] then
    match self.lock with
    | .free => ({ self with loop := .pending, lock := .releasing, waiting := [.loop] }, [])
    | _ => ({ self with loop := .pending, waiting := self.waiting ++ [.loop] }, [])
  else self.pop known

/-- The next step of what runs by itself. -/
def proceed (known : ν → Bool) : Distributor ν × List (Observation ν) :=
  match self.lock, self.loop with
  | .releasing, _ => (self.grant, [])
  | _, .activity => if self.activity_lock.head? = some .loop then self.turn known else (self, [])
  -- the sorter has been called by the release that the loop waits to return from
  | .sorting _ false, _ => (self, [])
  | _, .took => self.pop known
  | _, .stopping => ({ self with loop := .finished, active := false, activity_lock := self.activity_lock.tail }, [])
  | _, _ => (self, [])

/-- The builders that the sorter was given and has not returned. -/
def dropped (known : ν → Bool) (new_builders result : List ν) : List (Observation ν) :=
  ((self.pending_builders ++ new_builders).filter fun b => known b && b ∉ result).map .dropped

def step (known : ν → Bool) : Event ν → Distributor ν × List (Observation ν)
  | .maybeStartBuildsOn new_builders =>
      if self.userCode then (self._maybeStartBuildsOn new_builders, [.called new_builders]) else (self, [])
  | .suspend =>
      match self.lock with
      | .sorting new_builders _ => ({ self with lock := .sorting new_builders true }, [])
      | _ => (self, [])
  | .sort result =>
      match self.lock with
      | .sorting new_builders _ =>
          if self.userCode then (self.sorted result, self.dropped known new_builders result) else (self, [])
      | _ => (self, [])
  | .proceed => self.proceed known
  | .handled => if self.loop = .handling ∧ self.userCode then (self.again, []) else (self, [])
  | .acquire => (if self.userCode then { self with activity_lock := self.activity_lock ++ [.other] } else self, [])
  | .release =>
      (if self.userCode ∧ self.activity_lock.head? = some .other then
        { self with activity_lock := self.activity_lock.tail } else self, [])

/-- The sorter of a call has been given the lock or the call waits for it. -/
def Calling : Prop := (∃ new_builders suspended, self.lock = .sorting new_builders suspended) ∨
  ∃ new_builders, .call new_builders ∈ self.waiting

/-- No loop runs or is about to acquire its lock, and no call is in progress. -/
def Quiet : Prop := self.loop = .finished ∧ ¬ self.Calling

/-- No sorter returns builders between the loop's decision to stop and the end of its activity. -/
def Undisturbed : Event ν → Prop
  | .sort result => self.loop = .stopping → result = []
  | _ => True

/-! ## What every undisturbed run keeps -/

/-- The loop will come to the pending builders. -/
def Alive : Prop := self.loop ≠ .finished ∧ self.loop ≠ .stopping

structure Sound (distributor : Distributor ν) : Prop where
  active : distributor.active = true ↔ distributor.loop ≠ .finished
  unlocked : distributor.lock = .free → distributor.waiting = []
  listed : .loop ∈ distributor.waiting → distributor.loop = .pending
  once : distributor.waiting.count .loop ≤ 1
  taken : distributor.taken ≠ [] → distributor.loop = .activity ∨ distributor.loop = .took ∨ distributor.loop = .handling
  live : distributor.pending_builders ≠ [] → distributor.Alive ∨ distributor.Calling

variable {self} {known : ν → Bool}

theorem start_sound : (start : Distributor ν).Sound where
  active := by simp [start]
  unlocked _ := rfl
  listed := nofun
  once := by simp [start]
  taken absent := absurd rfl absent
  live absent := absurd rfl absent

theorem Sound.call (sound : self.Sound) (new_builders : List ν) : (self._maybeStartBuildsOn new_builders).Sound := by
  unfold _maybeStartBuildsOn
  split
  · exact sound
  · split
    · rename_i free
      exact ⟨sound.active, nofun, sound.listed, sound.once, sound.taken, fun _ => .inr (.inl ⟨_, _, rfl⟩)⟩
    · rename_i held
      refine ⟨sound.active, fun free => absurd free held, fun member => ?_, ?_, sound.taken, fun _ => ?_⟩
      · exact sound.listed (by simpa using member)
      · simpa using sound.once
      · exact .inr (.inr ⟨new_builders, List.mem_append_right _ (List.mem_singleton_self _)⟩)

theorem Sound.sorted (sound : self.Sound) {result : List ν} (undisturbed : self.loop = .stopping → result = []) :
    (self.sorted result).Sound := by
  unfold Distributor.sorted
  by_cases active : self.active
  · simp only [active, if_true]
    refine ⟨by simpa [active] using sound.active, nofun, sound.listed, sound.once, sound.taken, fun some => .inl ⟨?_, ?_⟩⟩
    · exact sound.active.mp active
    · exact fun stopping => some (undisturbed stopping)
  · -- there is no loop, so the call starts one
    have finished : self.loop = .finished := by
      by_contra other
      exact active (sound.active.mpr other)
    have unlisted : Waiter.loop ∉ self.waiting := fun member => by simp [sound.listed member] at finished
    have empty : self.taken = [] := by
      by_contra some
      rcases sound.taken some with phase | phase | phase <;> simp [phase] at finished
    simp only [active, Bool.false_eq_true, if_false]
    split
    · refine ⟨by simp, nofun, fun _ => rfl, ?_, fun some => absurd empty some, fun _ => .inl ⟨nofun, nofun⟩⟩
      simp [List.count_eq_zero.mpr unlisted]
    · refine ⟨by simp, nofun, fun member => absurd member unlisted, sound.once, fun _ => .inl rfl,
        fun _ => .inl ⟨nofun, nofun⟩⟩

theorem Sound.grant (sound : self.Sound) (releasing : self.lock = .releasing) : self.grant.Sound := by
  unfold Distributor.grant
  split
  · rename_i nobody
    refine ⟨sound.active, fun _ => nobody, sound.listed, sound.once, sound.taken, fun some => ?_⟩
    rcases sound.live some with alive | ⟨_, _, sorting⟩ | ⟨new_builders, member⟩
    · exact .inl alive
    · simp [releasing] at sorting
    · simp [nobody] at member
  · rename_i new_builders waiting next
    refine ⟨sound.active, nofun, fun member => ?_, ?_, sound.taken, fun _ => .inr (.inl ⟨_, _, rfl⟩)⟩
    · exact sound.listed (next ▸ List.mem_cons_of_mem _ member)
    · simpa [next] using sound.once
  · rename_i waiting next
    have phase := sound.listed (next ▸ List.mem_cons_self)
    have unlisted : Waiter.loop ∉ waiting := by
      have once := sound.once
      rw [next, List.count_cons_self] at once
      exact List.count_eq_zero.mp (by omega)
    have empty : self.taken = [] := by
      by_contra some
      rcases sound.taken some with other | other | other <;> simp [phase] at other
    have active : self.active = true := sound.active.mpr (by simp [phase])
    split
    · rename_i nothing
      refine ⟨by simp [active], fun free => ?_, fun member => absurd member unlisted, ?_, fun some => absurd empty some,
        fun some => absurd nothing some⟩
      · simp [releasing] at free
      · simp [List.count_eq_zero.mpr unlisted]
    · refine ⟨by simp [active], fun free => ?_, fun member => absurd member unlisted, ?_, fun _ => .inr (.inl rfl),
        fun some => absurd rfl some⟩
      · simp [releasing] at free
      · simp [List.count_eq_zero.mpr unlisted]

/-- The loop moves on while it holds no more than `activity_lock`. -/
theorem Sound.moves (sound : self.Sound) (unlisted : Waiter.loop ∉ self.waiting) (active : self.loop ≠ .finished)
    {loop : Phase} (going : loop = .activity ∨ loop = .handling) (taken : List ν) (activity_lock : List Contender) :
    ({ self with loop := loop, taken := taken, activity_lock := activity_lock } : Distributor ν).Sound := by
  have alive : loop ≠ .finished ∧ loop ≠ .stopping := by rcases going with rfl | rfl <;> exact ⟨nofun, nofun⟩
  refine ⟨⟨fun _ => alive.1, fun _ => sound.active.mpr active⟩, sound.unlocked, fun member => absurd member unlisted,
    sound.once, fun _ => ?_, fun _ => .inl alive⟩
  rcases going with rfl | rfl
  · exact .inl rfl
  · exact .inr (.inr rfl)

theorem Sound.unlisted (sound : self.Sound) (elsewhere : self.loop ≠ .pending) : Waiter.loop ∉ self.waiting :=
  fun member => elsewhere (sound.listed member)

theorem Sound.pop (sound : self.Sound) (elsewhere : self.loop ≠ .pending) (active : self.loop ≠ .finished) :
    (self.pop known).1.Sound := by
  unfold Distributor.pop
  split
  · exact sound
  · split
    · exact sound.moves (sound.unlisted elsewhere) active (.inr rfl) _ _
    · exact sound.moves (sound.unlisted elsewhere) active (.inl rfl) _ _

theorem Sound.turn (sound : self.Sound) (phase : self.loop = .activity) : (self.turn known).1.Sound := by
  have unlisted := sound.unlisted (by simp [phase])
  have active : self.active = true := sound.active.mpr (by simp [phase])
  unfold Distributor.turn
  split
  · rename_i empty
    split
    · exact ⟨by simp [active], nofun, fun _ => rfl, by simp, fun some => absurd empty some, fun _ => .inl ⟨nofun, nofun⟩⟩
    · rename_i held
      refine ⟨by simp [active], fun free => absurd free held, fun _ => rfl, ?_, fun some => absurd empty some,
        fun _ => .inl ⟨nofun, nofun⟩⟩
      simp [List.count_eq_zero.mpr unlisted]
  · exact sound.pop (by simp [phase]) (by simp [phase])

theorem Sound.proceed (sound : self.Sound) : (self.proceed known).1.Sound := by
  unfold Distributor.proceed
  split
  · rename_i releasing
    exact sound.grant releasing
  · rename_i phase _
    split
    · exact sound.turn phase
    · exact sound
  · exact sound
  · rename_i phase _ _
    exact sound.pop (by simp [phase]) (by simp [phase])
  · rename_i phase _ _
    -- the loop says that it is not active any more
    refine ⟨by simp, sound.unlocked, fun member => ?_, sound.once, fun some => ?_, fun some => ?_⟩
    · exact absurd (sound.listed member) (by simp [phase])
    · rcases sound.taken some with other | other | other <;> simp [phase] at other
    · exact .inr ((sound.live some).resolve_left fun alive => alive.2 phase)
  · exact sound

theorem Sound.step (sound : self.Sound) {event : Event ν} (undisturbed : self.Undisturbed event) :
    (self.step known event).1.Sound := by
  cases event with
  | maybeStartBuildsOn new_builders =>
    simp only [Distributor.step]
    split
    · exact sound.call new_builders
    · exact sound
  | suspend =>
    simp only [Distributor.step]
    split
    · exact ⟨sound.active, nofun, sound.listed, sound.once, sound.taken, fun _ => .inr (.inl ⟨_, _, rfl⟩)⟩
    · exact sound
  | sort result =>
    simp only [Distributor.step]
    split
    · split
      · exact sound.sorted undisturbed
      · exact sound
    · exact sound
  | proceed => exact sound.proceed
  | handled =>
    simp only [Distributor.step]
    split
    · rename_i able
      exact sound.moves (sound.unlisted (by simp [able.1])) (by simp [able.1]) (.inl rfl) _ _
    · exact sound
  | acquire =>
    simp only [Distributor.step]
    split
    · exact ⟨sound.active, sound.unlocked, sound.listed, sound.once, sound.taken, sound.live⟩
    · exact sound
  | release =>
    simp only [Distributor.step]
    split
    · exact ⟨sound.active, sound.unlocked, sound.listed, sound.once, sound.taken, sound.live⟩
    · exact sound

/-! ## What happens to a builder of a call -/

/-- A builder that the loop or a call in progress is still to come to. -/
def Holds (self : Distributor ν) (b : ν) : Prop :=
  b ∈ self.pending_builders ∨ b ∈ self.taken ∨
    (∃ new_builders suspended, self.lock = .sorting new_builders suspended ∧ b ∈ new_builders) ∨
    ∃ new_builders, .call new_builders ∈ self.waiting ∧ b ∈ new_builders

/-- Handled since, or left out by the sorter. -/
def Pays : Observation ν → ν → Prop
  | .handled builder, b => builder = b
  | .dropped builder, b => builder = b
  | .called _, _ => False

variable {b : ν}

theorem holds_call (self : Distributor ν) {new_builders : List ν} (named : b ∈ new_builders) :
    (self._maybeStartBuildsOn new_builders).Holds b := by
  unfold _maybeStartBuildsOn
  split
  · rename_i within
    have all := (Bool.and_eq_true _ _ ▸ within : (new_builders.all (· ∈ self.pending_builders)) = true ∧ _).1
    exact .inl (by simpa using List.all_eq_true.mp all b named)
  · split
    · exact .inr (.inr (.inl ⟨new_builders, false, rfl, named⟩))
    · exact .inr (.inr (.inr ⟨new_builders, List.mem_append_right _ (List.mem_singleton_self _), named⟩))

theorem Holds.call (holds : self.Holds b) (sound : self.Sound) (new_builders : List ν) :
    (self._maybeStartBuildsOn new_builders).Holds b := by
  unfold _maybeStartBuildsOn
  split
  · exact holds
  · split
    · rename_i free
      rcases holds with pending | taken | ⟨_, _, sorting, _⟩ | ⟨others, member, named⟩
      · exact .inl pending
      · exact .inr (.inl taken)
      · simp [free] at sorting
      · simp [sound.unlocked free] at member
    · rcases holds with pending | taken | sorting | ⟨others, member, named⟩
      · exact .inl pending
      · exact .inr (.inl taken)
      · exact .inr (.inr (.inl sorting))
      · exact .inr (.inr (.inr ⟨others, List.mem_append_left _ member, named⟩))

omit [DecidableEq ν] in
theorem sorted_fields (self : Distributor ν) (result : List ν) : (self.sorted result).pending_builders = result ∧
    (self.sorted result).taken = self.taken ∧
    ∀ others, .call others ∈ self.waiting → .call others ∈ (self.sorted result).waiting := by
  unfold Distributor.sorted
  by_cases active : self.active <;> by_cases free : self.activity_lock = [] <;> simp +contextual [active, free]

theorem Holds.sorted (holds : self.Holds b) (exists_ : known b) {new_builders : List ν} {suspended : Bool}
    (sorting : self.lock = .sorting new_builders suspended) (result : List ν) :
    (self.sorted result).Holds b ∨ .dropped b ∈ self.dropped known new_builders result := by
  obtain ⟨pending, taken, waits⟩ := sorted_fields self result
  have given (member : b ∈ self.pending_builders ++ new_builders) :
      (self.sorted result).Holds b ∨ .dropped b ∈ self.dropped known new_builders result := by
    by_cases kept : b ∈ result
    · exact .inl (.inl (pending.symm ▸ kept))
    · right
      refine List.mem_map.mpr ⟨b, List.mem_filter.mpr ⟨member, ?_⟩, rfl⟩
      simp [exists_, kept]
  rcases holds with here | there | ⟨others, _, locked, named⟩ | ⟨others, member, named⟩
  · exact given (List.mem_append_left _ here)
  · exact .inl (.inr (.inl (taken.symm ▸ there)))
  · obtain ⟨rfl, _⟩ := Lock.sorting.inj (sorting.symm.trans locked)
    exact given (List.mem_append_right _ named)
  · exact .inl (.inr (.inr (.inr ⟨others, waits others member, named⟩)))

theorem Holds.grant (holds : self.Holds b) (sound : self.Sound) (releasing : self.lock = .releasing) :
    self.grant.Holds b := by
  unfold Distributor.grant
  rcases holds with pending | taken | ⟨_, _, locked, _⟩ | ⟨others, member, named⟩
  · split
    · exact .inl pending
    · exact .inl pending
    · split
      · exact .inl pending
      · exact .inr (.inl pending)
  · split
    · exact .inr (.inl taken)
    · exact .inr (.inl taken)
    · rename_i waiting next
      -- a loop that waits for the list has nothing of its own
      have phase := sound.listed (next ▸ List.mem_cons_self)
      rcases sound.taken (List.ne_nil_of_mem taken) with other | other | other <;> simp [phase] at other
  · simp [releasing] at locked
  · split
    · rename_i nobody
      simp [nobody] at member
    · rename_i first waiting next
      rcases List.mem_cons.mp (next ▸ member) with same | later
      · obtain rfl := Waiter.call.inj same
        exact .inr (.inr (.inl ⟨others, false, rfl, named⟩))
      · exact .inr (.inr (.inr ⟨others, later, named⟩))
    · rename_i waiting next
      have later : .call others ∈ waiting := by
        rcases List.mem_cons.mp (next ▸ member) with same | later
        · exact absurd same nofun
        · exact later
      split
      · exact .inr (.inr (.inr ⟨others, later, named⟩))
      · exact .inr (.inr (.inr ⟨others, later, named⟩))

theorem Holds.pop (holds : self.Holds b) (exists_ : known b) :
    (self.pop known).1.Holds b ∨ .handled b ∈ (self.pop known).2 := by
  unfold Distributor.pop
  split
  · exact .inl holds
  · rename_i bldr_name rest taken
    have waits {other : Distributor ν} (pending : other.pending_builders = self.pending_builders)
        (lock : other.lock = self.lock) (waiting : other.waiting = self.waiting) (left : other.taken = rest)
        (different : bldr_name ≠ b) : other.Holds b := by
      rcases holds with here | there | locked | queued
      · exact .inl (pending.symm ▸ here)
      · refine .inr (.inl (left.symm ▸ ?_))
        exact (List.mem_cons.mp (taken ▸ there)).resolve_left (Ne.symm different)
      · exact .inr (.inr (.inl (lock.symm ▸ locked)))
      · exact .inr (.inr (.inr (waiting.symm ▸ queued)))
    by_cases same : bldr_name = b
    · right
      simp [same, exists_]
    · left
      split <;> exact waits rfl rfl rfl rfl same

theorem Holds.turn (holds : self.Holds b) (sound : self.Sound) (exists_ : known b) :
    (self.turn known).1.Holds b ∨ .handled b ∈ (self.turn known).2 := by
  unfold Distributor.turn
  split
  · left
    split
    · rename_i free
      rcases holds with pending | taken | ⟨_, _, locked, _⟩ | ⟨others, member, named⟩
      · exact .inl pending
      · exact .inr (.inl taken)
      · simp [free] at locked
      · simp [sound.unlocked free] at member
    · rcases holds with pending | taken | locked | ⟨others, member, named⟩
      · exact .inl pending
      · exact .inr (.inl taken)
      · exact .inr (.inr (.inl locked))
      · exact .inr (.inr (.inr ⟨others, List.mem_append_left _ member, named⟩))
  · exact holds.pop exists_

theorem Holds.step (holds : self.Holds b) (sound : self.Sound) (exists_ : known b) (event : Event ν) :
    (self.step known event).1.Holds b ∨ ∃ observed ∈ (self.step known event).2, Pays observed b := by
  cases event with
  | maybeStartBuildsOn new_builders =>
    simp only [Distributor.step]
    split
    · exact .inl (holds.call sound new_builders)
    · exact .inl holds
  | suspend =>
    simp only [Distributor.step]
    split
    · rename_i new_builders suspended sorting
      left
      rcases holds with pending | taken | ⟨others, _, locked, named⟩ | queued
      · exact .inl pending
      · exact .inr (.inl taken)
      · obtain ⟨rfl, _⟩ := Lock.sorting.inj (sorting.symm.trans locked)
        exact .inr (.inr (.inl ⟨_, true, rfl, named⟩))
      · exact .inr (.inr (.inr queued))
    · exact .inl holds
  | sort result =>
    simp only [Distributor.step]
    split
    · rename_i new_builders suspended sorting
      split
      · rcases holds.sorted exists_ sorting result with kept | left
        · exact .inl kept
        · exact .inr ⟨_, left, rfl⟩
      · exact .inl holds
    · exact .inl holds
  | proceed =>
    simp only [Distributor.step, Distributor.proceed]
    split
    · rename_i releasing
      exact .inl (holds.grant sound releasing)
    · split
      · rcases holds.turn sound exists_ with kept | done
        · exact .inl kept
        · exact .inr ⟨_, done, rfl⟩
      · exact .inl holds
    · exact .inl holds
    · rcases holds.pop exists_ with kept | done
      · exact .inl kept
      · exact .inr ⟨_, done, rfl⟩
    · exact .inl holds
    · exact .inl holds
  | handled | acquire | release =>
    simp only [Distributor.step]
    split <;> exact .inl holds

theorem called_step {event : Event ν} {new_builders : List ν} (member : .called new_builders ∈ (self.step known event).2) :
    self.userCode ∧ event = .maybeStartBuildsOn new_builders := by
  have quiet (self : Distributor ν) : .called new_builders ∉ (self.pop known).2 := by
    unfold Distributor.pop
    split
    · exact nofun
    · split <;> simp
  cases event with
  | maybeStartBuildsOn others =>
    simp only [Distributor.step] at member
    split at member
    · rename_i able
      obtain rfl : new_builders = others := by simpa using member
      exact ⟨able, rfl⟩
    · simp at member
  | proceed =>
    simp only [Distributor.step, Distributor.proceed] at member
    split at member
    · simp at member
    · split at member
      · unfold Distributor.turn at member
        split at member
        · split at member <;> simp at member
        · exact absurd member (quiet self)
      · simp at member
    · simp at member
    · exact absurd member (quiet self)
    · simp at member
    · simp at member
  | sort result =>
    simp only [Distributor.step] at member
    split at member
    · split at member
      · simp [Distributor.dropped] at member
      · simp at member
    · simp at member
  | suspend | handled =>
    simp only [Distributor.step] at member
    split at member <;> simp at member
  | acquire | release => simp [Distributor.step] at member

/-- Nothing is held when nothing is in progress. -/
theorem Sound.quiet (sound : self.Sound) (quiet : self.Quiet) : self.pending_builders = [] ∧ ∀ b, ¬ self.Holds b := by
  obtain ⟨finished, idle⟩ := quiet
  have pending : self.pending_builders = [] := by
    by_contra some
    rcases sound.live some with alive | calling
    · exact alive.1 finished
    · exact idle calling
  refine ⟨pending, fun b holds => ?_⟩
  rcases holds with here | taken | ⟨new_builders, suspended, locked, _⟩ | ⟨new_builders, member, _⟩
  · simp [pending] at here
  · rcases sound.taken (List.ne_nil_of_mem taken) with other | other | other <;> simp [finished] at other
  · exact idle (.inl ⟨new_builders, suspended, locked⟩)
  · exact idle (.inr ⟨new_builders, member⟩)

end Distributor

/-- While nothing is in progress nothing is pending, and every builder of an earlier call was handled after it
or left out by the sorter. -/
theorem no_trigger_lost (known : ν → Bool) (events : List (Event ν))
    (undisturbed : Always (Distributor.step · known) Distributor.Undisturbed .start events)
    (quiet : (final (Distributor.step · known) .start events).Quiet) :
    (final (Distributor.step · known) .start events).pending_builders = [] ∧
      ∀ before new_builders later, seen (Distributor.step · known) .start events = before ++ .called new_builders :: later →
        ∀ b ∈ new_builders, known b → .handled b ∈ later ∨ .dropped b ∈ later := by
  let invariant := fun (self : Distributor ν) => self.Sound
  let held := fun (self : Distributor ν) (b : ν) => known b → self.Holds b
  let paid := fun (observed : Observation ν) (b : ν) => known b ∧ Distributor.Pays observed b
  let owes := fun (observed : Observation ν) (b : ν) =>
    ∃ new_builders, observed = .called new_builders ∧ b ∈ new_builders
  have preserved : ∀ (self : Distributor ν) event, invariant self → self.Undisturbed event → invariant (self.step known event).1 :=
    fun self event sound now => Distributor.Sound.step sound now
  have keeps : ∀ (self : Distributor ν) event b, invariant self → held self b →
      held (self.step known event).1 b ∨ ∃ observed ∈ (self.step known event).2, paid observed b := by
    intro self event b sound holds
    by_cases exists_ : known b
    · rcases (holds exists_).step sound exists_ event with kept | ⟨observed, member, pays⟩
      · exact .inl fun _ => kept
      · exact .inr ⟨observed, member, exists_, pays⟩
    · exact .inl fun other => absurd other exists_
  have takes : ∀ (self : Distributor ν) event b before observed later, invariant self →
      (self.step known event).2 = before ++ observed :: later → owes observed b → held (self.step known event).1 b ∨ ∃ observed ∈ later, paid observed b := by
    rintro self event b before _ later _ split ⟨new_builders, rfl, named⟩
    have member : .called new_builders ∈ (self.step known event).2 := split ▸ List.mem_append_right _ List.mem_cons_self
    obtain ⟨able, rfl⟩ := Distributor.called_step member
    refine .inl fun _ => ?_
    simp only [Distributor.step, able, if_true]
    exact Distributor.holds_call self named
  have sound := invariant_of_always preserved (Distributor.start_sound : invariant .start) undisturbed
  obtain ⟨pending, nothing⟩ := Distributor.Sound.quiet sound quiet
  refine ⟨pending, fun before new_builders later split b named exists_ => ?_⟩
  rcases owed_of_step preserved keeps takes (Distributor.start_sound : invariant .start) undisturbed split
    ⟨new_builders, rfl, named⟩ with holds | ⟨observed, member, _, pays⟩
  · exact absurd (holds exists_) (nothing b)
  · cases observed with
    | called => exact pays.elim
    | handled builder => exact .inl ((show builder = b from pays) ▸ member)
    | dropped builder => exact .inr ((show builder = b from pays) ▸ member)

omit [DecidableEq ν] in
theorem quiet_of {self : Distributor ν} (finished : self.loop = .finished) (free : self.lock = .free)
    (nobody : self.waiting = []) : self.Quiet := by
  refine ⟨finished, ?_⟩
  rintro (⟨_, _, locked⟩ | ⟨_, member⟩)
  · simp [free] at locked
  · simp [nobody] at member

/-- One call, and the loop that it starts, from the first step to the last. -/
def triggered : List (Event Nat) :=
  [.maybeStartBuildsOn [1], .sort [1], .proceed, .proceed, .proceed, .handled, .proceed, .proceed, .proceed, .proceed]

theorem triggered_handled : (final (Distributor.step · fun _ => true) .start triggered).pending_builders = [] ∧
    ∀ before new_builders later,
      seen (Distributor.step · fun _ => true) .start triggered = before ++ .called new_builders :: later →
        ∀ b ∈ new_builders, true → .handled b ∈ later ∨ .dropped b ∈ later := by
  refine no_trigger_lost (fun _ => true) triggered ⟨trivial, fun stopping => absurd stopping (by decide), ?_⟩
    (quiet_of (by decide) (by decide) (by decide))
  exact ⟨trivial, trivial, trivial, trivial, trivial, trivial, trivial, trivial, trivial⟩

/-- The loop waits for the list behind a call whose sorter is slow and drops its builder, and before a call whose
sorter is fast. -/
def overheard : List (Event Nat) :=
  [.maybeStartBuildsOn [0], .sort [0], .proceed, .proceed, .proceed, .maybeStartBuildsOn [1], .suspend, .handled,
    .proceed, .maybeStartBuildsOn [2], .sort [], .proceed, .proceed, .sort [2], .proceed, .proceed]

theorem overheard_trigger_lost :
    let last := final (Distributor.step · fun _ => true) .start overheard
    last.Quiet ∧ last.pending_builders = [2] ∧
      seen (Distributor.step · fun _ => true) .start overheard =
        [.called [0], .handled 0, .called [1], .called [2], .dropped 1] :=
  ⟨quiet_of (by decide) (by decide) (by decide), by decide, by decide⟩

end Distribution

end Umbilical.Process
