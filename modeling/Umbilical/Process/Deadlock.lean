import Umbilical.Locks.Guards
import Umbilical.Process.Abandonment
import Umbilical.Process.Claims

set_option autoImplicit false

/-!
# Builds that wait for each other

A build claims its locks all at once, but while it waits for one of them it keeps
its places in the queues of others. Builds that wait in one place only cannot
block each other.
-/

namespace Umbilical.Process

open Locks

variable {κ ρ : Type} [DecidableEq κ] [DecidableEq ρ] {self : ρ}

/-- A lock after a requester has released what it owns. -/
structure Released (caller : ρ) (before after : BaseLock ρ) : Prop where
  limit : after.maxCount = before.maxCount
  places : after.waiting.map (fun waiter => (waiter.requester, waiter.access)) =
    before.waiting.map fun waiter => (waiter.requester, waiter.access)
  owners : ∀ owner ∈ before.owners, owner.1 ≠ caller → owner ∈ after.owners
  guarded : BaseLock.Asking before.waiting → before.Guarded → after.Guarded

section Releases

variable {before between after : BaseLock ρ}

omit [DecidableEq κ] [DecidableEq ρ]

theorem Released.refl (self : ρ) (lock : BaseLock ρ) : Released self lock lock :=
  ⟨rfl, rfl, fun _ member _ => member, fun _ guarded => guarded⟩

/-- A waiter of the queue afterwards had the same place before. -/
theorem Released.place (released : Released self before after) {waiter : Waiter ρ} (member : waiter ∈ after.waiting) :
    ∃ original ∈ before.waiting, original.requester = waiter.requester ∧ original.access = waiter.access := by
  have kept : (waiter.requester, waiter.access) ∈ before.waiting.map fun waiter => (waiter.requester, waiter.access) := by
    rw [← released.places]
    exact List.mem_map.mpr ⟨waiter, member, rfl⟩
  obtain ⟨original, among, same⟩ := List.mem_map.mp kept
  exact ⟨original, among, congrArg Prod.fst same, congrArg Prod.snd same⟩

theorem Released.asking (released : Released self before after) (asking : BaseLock.Asking before.waiting) :
    BaseLock.Asking after.waiting := by
  intro waiter member
  obtain ⟨original, among, _, same⟩ := released.place member
  exact same ▸ asking original among

theorem Released.trans (first : Released self before between) (second : Released self between after) :
    Released self before after where
  limit := second.limit.trans first.limit
  places := second.places.trans first.places
  owners owner member other := second.owners owner (first.owners owner member other) other
  guarded asking guarded := second.guarded (first.asking asking) (first.guarded asking guarded)

variable [DecidableEq ρ]

theorem release_released (self : ρ) (lock : BaseLock ρ) (access : LockAccess) :
    Released self lock (lock.release self access).1 := by
  unfold BaseLock.release BaseLock.removeOwner
  split_ifs with zero owned
  · exact .refl self lock
  · have same : (lock.withoutOwner self access).waiting = lock.waiting := BaseLock.withoutOwner_waiting
    refine ⟨?_, ?_, ?_, ?_⟩
    · simp
    · have kept := (lock.withoutOwner self access).wakeFrom_waiting (lock.withoutOwner self access).claimedExcl
        (lock.withoutOwner self access).claimedCounting (lock.withoutOwner self access).waiting
      rw [same] at kept
      rw [← kept, ← same]
      rfl
    · intro owner member other
      simp only [BaseLock.tryWakeUp_owners, BaseLock.withoutOwner_owners]
      exact (List.mem_erase_of_ne fun same => other (congrArg Prod.fst same)).mpr member
    · intro asking _
      have asking' : BaseLock.Asking (lock.withoutOwner self access).waiting := same.symm ▸ asking
      exact asking'.alert_tryWakeUp.blocked.guarded
  · exact .refl self lock

end Releases

theorem Build.releaseOwned_released (self : ρ) (locks : κ → BaseLock ρ) (wanted : List (κ × LockAccess)) (lock : κ) :
    Released self (locks lock) ((Build.releaseOwned self locks wanted).1 lock) := by
  induction wanted generalizing locks with
  | nil => exact .refl self _
  | cons pair rest ih =>
    obtain ⟨head, access⟩ := pair
    unfold releaseOwned
    split_ifs with owner
    · have later := ih (Function.update locks head ((locks head).release self access).1)
      by_cases same : lock = head
      · subst same
        rw [Function.update_self] at later
        exact (release_released self (locks lock) access).trans later
      · rwa [Function.update_of_ne same] at later
    · exact ih locks

/-- What builds do about their locks. -/
inductive Turn (ρ : Type) where
  | acquireLocks (self : ρ)
  | wakeup (self : ρ)
  | releaseLocks (self : ρ)

def Turn.event : Turn ρ → Event κ ρ
  | .acquireLocks self => .acquire self
  | .wakeup self => .wakeup self
  | .releaseLocks self => .release self

namespace World

/-- Builds with their lists. -/
def ofBuilds (maxCount : κ → Int) (wanted : ρ → Option (List (κ × {access : LockAccess // access.Valid}))) : World κ ρ :=
  .new maxCount fun self => (wanted self).map fun list =>
    (.build, list.map fun (lock, access) => (lock, access.val))

def turn (world : World κ ρ) (turn : Turn ρ) : World κ ρ × List (ρ × Failure) := world.step turn.event

/-- Every lock is unowned and no wakeup is pending, and yet some build waits. -/
def Deadlocked (world : World κ ρ) : Prop :=
  (∀ lock, (world.locks lock).owners = []) ∧ world.scheduled = [] ∧
    ∃ self build d, world.parties self = some (.ofBuild build) ∧ build.phase = .waiting d

/-- Whose turn it is to go through its list, if anybody's. -/
def asks (world : World κ ρ) : Turn ρ → Option (ρ × Party κ)
  | .acquireLocks self => (world.parties self).bind fun party => if party.phase = .idle then some (self, party) else none
  | .wakeup self => (world.parties self).bind fun party =>
      match party.phase with
      | .waiting d => if d ∈ world.scheduled then some (self, party) else none
      | _ => none
  | .releaseLocks _ => none

/-- A build that finds a lock unavailable has no place in the queue of another one, and does not ask for more than
the lock has. -/
def WaitsInOnePlace (world : World κ ρ) (turn : Turn ρ) : Prop :=
  ∀ asking ∈ world.asks turn, ∀ missing ∈ firstUnavailable asking.1 world.locks asking.2.locksToAcquire,
    (∀ lock, (world.locks lock).Queued asking.1 → lock = missing.1) ∧
      (missing.2.mode = .counting → missing.2.count ≤ (world.locks missing.1).maxCount)

instance [Fintype κ] (world : World κ ρ) (turn : Turn ρ) : Decidable (world.WaitsInOnePlace turn) :=
  inferInstanceAs (Decidable (∀ asking ∈ world.asks turn,
    ∀ missing ∈ firstUnavailable asking.1 world.locks asking.2.locksToAcquire, _ ∧ _))

/-- A build that failed to take its locks keeps what it has taken. -/
structure Stuck (world : World κ ρ) : Prop where
  builds : ∀ self, ∀ party ∈ world.parties self, party.kind = .build
  keeps : ∃ self, ∃ party ∈ world.parties self, (∃ failure, party.phase = .failed failure) ∧
    ∃ lock access, (self, access) ∈ (world.locks lock).owners

/-- What holds between turns, as long as nobody is stuck. -/
structure Live (world : World κ ρ) : Prop where
  sound : world.Sound
  builds : ∀ self, ∀ party ∈ world.parties self, party.kind = .build ∧ party.stopped = false ∧
    (∀ failure, party.phase ≠ .failed failure) ∧ ∀ wanted ∈ party.locksToAcquire, wanted.2.Valid
  pending : ∀ self, ∀ party ∈ world.parties self, ∀ d, party.phase = .waiting d → d < world.next ∧
    (d ∈ world.scheduled ∨ ∃ lock, (world.locks lock).Asleep self d)
  unique : ∀ first, ∀ one ∈ world.parties first, ∀ second, ∀ other ∈ world.parties second, ∀ d,
    one.phase = .waiting d → other.phase = .waiting d → first = second
  placed : ∀ lock, ∀ waiter ∈ (world.locks lock).waiting, ∃ party ∈ world.parties waiter.requester,
    (∃ d, party.phase = .waiting d) ∧ (lock, waiter.access) ∈ party.locksToAcquire
  single : ∀ self lock lock', (world.locks lock).Queued self → (world.locks lock').Queued self → lock = lock'
  asking : ∀ lock, BaseLock.Asking (world.locks lock).waiting
  within : ∀ lock, ∀ waiter ∈ (world.locks lock).waiting, waiter.access.mode = .counting →
    waiter.access.count ≤ (world.locks lock).maxCount
  guarded : ∀ lock, (world.locks lock).Guarded

variable {world : World κ ρ}

omit [DecidableEq κ] [DecidableEq ρ] in
/-- Without anybody stuck the first entry of a queue sleeps in it, and could take the lock. -/
theorem Live.not_deadlocked (live : world.Live) : ¬ world.Deadlocked := by
  rintro ⟨unowned, silent, self, build, d, known, waits⟩
  -- whoever waits has a place in which it sleeps
  have sleeps (self : ρ) (party : Party κ) (known : party ∈ world.parties self) (d : Deferred)
      (waits : party.phase = .waiting d) : ∃ lock, (world.locks lock).Asleep self d := by
    rcases (live.pending self party known d waits).2 with called | asleep
    · rw [silent] at called
      cases called
    · exact asleep
  obtain ⟨lock, waiter, member, _⟩ := sleeps self _ known d waits
  obtain ⟨first, behind, queue⟩ := List.exists_cons_of_ne_nil (List.ne_nil_of_mem member)
  have head : first ∈ (world.locks lock).waiting := by
    rw [queue]
    exact List.mem_cons_self
  obtain ⟨party, known', ⟨d', waits'⟩, _⟩ := live.placed lock first head
  obtain ⟨lock', asleep⟩ := sleeps first.requester party known' d' waits'
  -- it sleeps in its only place, at the head of this queue
  obtain rfl := live.single first.requester lock lock' ⟨first, head, rfl⟩ asleep.queued
  obtain ⟨other, among, same, pending⟩ := asleep
  obtain rfl := (live.sound.orderly.consistent lock).placed.eq_of_key among head same
  have blocked := (live.guarded lock).first queue (by simp [pending])
  obtain ⟨valid, units⟩ := live.asking lock other head
  exact (live.sound.orderly.consistent lock).not_blocked (unowned lock) valid (live.within lock other head) units blocked

omit [DecidableEq κ] [DecidableEq ρ] in
theorem Sound.of_scheduled (sound : world.Sound) {scheduled : List Deferred}
    (fewer : ∀ d ∈ scheduled, d ∈ world.scheduled) : ({ world with scheduled := scheduled } : World κ ρ).Sound :=
  { sound with
    called := fun d member => sound.called d (fewer d member)
    apart := fun lock requester d asleep member => sound.apart lock requester d asleep (fewer d member) }

/-- A release keeps every build live. -/
theorem Live.releaseLocks {party : Party κ} (live : world.Live) (known : world.parties self = some party)
    (releases : party.Releases) : (world.releaseLocks self party).Live := by
  have sound := live.sound.releaseLocks known releases
  obtain ⟨kind, running, _, valid⟩ := live.builds self party known
  have phase (d : Deferred) : party.phase ≠ .waiting d := by
    intro waiting
    simp [Party.Releases, waiting] at releases
  cases party with
  | ofStep step => cases kind
  | ofBuild build =>
    have released (lock : κ) := Build.releaseOwned_released self world.locks build.locksToAcquire lock
    obtain ⟨quieter, _⟩ := Build.releaseOwned_quieter self live.sound.orderly build.locksToAcquire
    have unfailed (failure : Failure) : Phase.released ≠ .failed failure := by simp
    refine ⟨sound, ?_, ?_, ?_, ?_, ?_, ?_, ?_, ?_⟩
    · intro other party' known'
      rcases update_cases known' with ⟨rfl, rfl⟩ | ⟨_, known'⟩
      · exact ⟨rfl, running, unfailed, valid⟩
      · exact live.builds other party' known'
    · intro other party' known' d waits
      rcases update_cases known' with ⟨rfl, rfl⟩ | ⟨different, known'⟩
      · cases waits
      · obtain ⟨issued, called | ⟨lock, asleep⟩⟩ := live.pending other party' known' d waits
        · exact ⟨issued, .inl (List.mem_append_left _ called)⟩
        · refine ⟨issued, ?_⟩
          rcases quieter.kept lock other d (fun same => different (Option.some.inj same)) asleep with still | woken
          · exact .inr ⟨lock, still⟩
          · exact .inl (List.mem_append_right _ woken)
    · intro first one known' second two known'' d waits waits'
      rcases update_cases known' with ⟨_, rfl⟩ | ⟨_, known'⟩
      · cases waits
      · rcases update_cases known'' with ⟨_, rfl⟩ | ⟨_, known''⟩
        · cases waits'
        · exact live.unique first one known' second two known'' d waits waits'
    · intro lock waiter member
      obtain ⟨original, among, same, same'⟩ := (released lock).place member
      obtain ⟨party', known', ⟨d, waits⟩, listed⟩ := live.placed lock original among
      rw [same] at known'
      rw [same'] at listed
      have different : waiter.requester ≠ self := by
        intro mine
        rw [mine] at known'
        cases (Option.some.inj (known.symm.trans known'))
        exact phase d waits
      exact ⟨party', (Function.update_of_ne different _ _).trans known', ⟨d, waits⟩, listed⟩
    · intro other lock lock' queued queued'
      exact live.single other lock lock' (quieter.queued lock other queued) (quieter.queued lock' other queued')
    · exact fun lock => (released lock).asking (live.asking lock)
    · intro lock waiter member mode
      obtain ⟨original, among, _, same⟩ := (released lock).place member
      have bound := live.within lock original among (same ▸ mode)
      rw [same] at bound
      exact bound.trans (released lock).limit.ge
    · exact fun lock => (released lock).guarded (live.asking lock) (live.guarded lock)

section Acquiring

variable {party party' : Party κ} {locks' : κ → BaseLock ρ} {scheduled : List Deferred}

omit [DecidableEq κ] [DecidableEq ρ] in
/-- A build that waits is asleep, or its wakeup is still scheduled when another wakeup has been taken out. -/
theorem Live.pending_of_scheduled (live : world.Live) (known : world.parties self = some party)
    (others : ∀ d ∈ world.scheduled, d ∈ scheduled ∨ party.phase = .waiting d) {other : ρ} {party' : Party κ}
    (different : other ≠ self) (known' : world.parties other = some party') {d : Deferred}
    (waits : party'.phase = .waiting d) : d < world.next ∧ (d ∈ scheduled ∨ ∃ lock, (world.locks lock).Asleep other d) := by
  obtain ⟨issued, called | asleep⟩ := live.pending other party' known' d waits
  · rcases others d called with still | mine
    · exact ⟨issued, .inl still⟩
    · exact absurd (live.unique other party' known' self party known d waits mine) different
  · exact ⟨issued, .inr asleep⟩

omit [DecidableEq κ] in
/-- A build that has gone through its list without having to wait is in no queue any more. -/
theorem Live.settled (live : world.Live) (known : world.parties self = some party)
    (others : ∀ d ∈ world.scheduled, d ∈ scheduled ∨ party.phase = .waiting d) (keeps : party.Keeps party')
    (phase : party'.phase = .claimed) (quieter : Quieter (some self) world.locks locks' [])
    (sound : Sound ⟨locks', Function.update world.parties self (some party'), scheduled, world.next + 1⟩)
    (fewer : ∀ lock, ∀ waiter ∈ (locks' lock).waiting, waiter ∈ (world.locks lock).waiting ∧ waiter.requester ≠ self)
    (limit : ∀ lock, (locks' lock).maxCount = (world.locks lock).maxCount) (guarded : ∀ lock, (locks' lock).Guarded) :
    Live ⟨locks', Function.update world.parties self (some party'), scheduled, world.next + 1⟩ := by
  obtain ⟨kind, running, _, valid⟩ := live.builds self party known
  refine ⟨sound, ?_, ?_, ?_, ?_, ?_, ?_, ?_, guarded⟩
  · intro other party'' known'
    rcases update_cases known' with ⟨rfl, rfl⟩ | ⟨_, known'⟩
    · refine ⟨keeps.kind.trans kind, keeps.stopped.trans running, fun failure failed => ?_, keeps.locksToAcquire ▸ valid⟩
      cases phase.symm.trans failed
    · exact live.builds other party'' known'
  · intro other party'' known' d waits
    rcases update_cases known' with ⟨rfl, rfl⟩ | ⟨different, known'⟩
    · cases phase.symm.trans waits
    · obtain ⟨issued, called | ⟨lock, asleep⟩⟩ := live.pending_of_scheduled known others different known' waits
      · exact ⟨Nat.lt_succ_of_lt issued, .inl called⟩
      · refine ⟨Nat.lt_succ_of_lt issued, ?_⟩
        rcases quieter.kept lock other d (fun same => different (Option.some.inj same)) asleep with still | woken
        · exact .inr ⟨lock, still⟩
        · cases woken
  · intro first one known' second two known'' d waits waits'
    rcases update_cases known' with ⟨_, rfl⟩ | ⟨_, known'⟩
    · cases phase.symm.trans waits
    · rcases update_cases known'' with ⟨_, rfl⟩ | ⟨_, known''⟩
      · cases phase.symm.trans waits'
      · exact live.unique first one known' second two known'' d waits waits'
  · intro lock waiter member
    obtain ⟨before, different⟩ := fewer lock waiter member
    obtain ⟨party'', known', waits, listed⟩ := live.placed lock waiter before
    exact ⟨party'', (Function.update_of_ne different _ _).trans known', waits, listed⟩
  · intro other lock lock' queued queued'
    exact live.single other lock lock' (quieter.queued lock other queued) (quieter.queued lock' other queued')
  · exact fun lock waiter member => live.asking lock waiter (fewer lock waiter member).1
  · exact fun lock waiter member mode => (live.within lock waiter (fewer lock waiter member).1 mode).trans (limit lock).ge

/-- A build that has claimed its list has turned all its places into claims. -/
theorem Live.claims (live : world.Live) (known : world.parties self = some party)
    (awake : ∀ lock d, ¬ (world.locks lock).Asleep self d)
    (claims : claimAll self world.locks party.locksToAcquire = (locks', none)) (lock : κ) :
    (∀ waiter ∈ (locks' lock).waiting, waiter ∈ (world.locks lock).waiting ∧ waiter.requester ≠ self) ∧
      (locks' lock).Guarded := by
  have grown := claimAll_grown claims lock
  have paid (waiter : Waiter ρ) (member : waiter ∈ (world.locks lock).waiting) (mine : waiter.requester = self) :
      Paid self waiter.access (world.locks lock) (locks' lock) := by
    obtain ⟨party'', known', _, listed⟩ := live.placed lock waiter member
    rw [mine] at known'
    cases Option.some.inj (known.symm.trans known')
    exact claimAll_paid claims listed (live.asking lock waiter member).2
  have gone : (locks' lock).waiting = ((world.locks lock).without self).waiting := by
    rcases grown.waiting with same | gone
    · by_cases queued : (world.locks lock).Queued self
      · obtain ⟨waiter, member, mine⟩ := queued
        exact (paid waiter member mine).waiting
      · refine same.trans (List.filter_eq_self.mpr fun waiter member => ?_).symm
        simpa using fun mine => queued ⟨waiter, member, mine⟩
    · exact gone
  constructor
  · intro waiter member
    rw [gone] at member
    obtain ⟨before, different⟩ := List.mem_filter.mp member
    exact ⟨before, by simpa using different⟩
  · refine (live.guarded lock).claimed (live.sound.orderly.consistent lock) (live.asking lock) gone grown.limit grown.excl
      grown.counting fun waiter member mine => ⟨?_, (paid waiter member mine).excl, (paid waiter member mine).counting⟩
    refine Option.eq_none_iff_forall_ne_some.mpr fun d pending => ?_
    exact awake lock d ⟨waiter, member, mine, pending⟩

/-- A build that has to wait, and has no place in another queue, sleeps in its only place. -/
theorem Live.waiting {lock : κ} {access : LockAccess} {after : BaseLock ρ} (live : world.Live)
    (known : world.parties self = some party)
    (others : ∀ d ∈ world.scheduled, d ∈ scheduled ∨ party.phase = .waiting d) (keeps : party.Keeps party')
    (phase : party'.phase = .waiting world.next)
    (sound : Sound ⟨Function.update world.locks lock after, Function.update world.parties self (some party'), scheduled,
      world.next + 1⟩)
    (first : firstUnavailable self world.locks party.locksToAcquire = some (lock, access))
    (waited : (world.locks lock).waitUntilMaybeAvailable self access world.next = .ok (after, true))
    (joins : Joins self world.next (world.locks lock) after)
    (onePlace : ∀ other, (world.locks other).Queued self → other = lock)
    (enough : access.mode = .counting → access.count ≤ (world.locks lock).maxCount) :
    Live ⟨Function.update world.locks lock after, Function.update world.parties self (some party'), scheduled,
      world.next + 1⟩ := by
  obtain ⟨kind, running, _, valid⟩ := live.builds self party known
  obtain ⟨orderly, queued, asleep⟩ := live.sound.orderly.join joins live.sound.fresh
  have listed : (lock, access) ∈ party.locksToAcquire := List.mem_of_find?_eq_some first
  have unavailable : (world.locks lock).isAvailable self access = false := by simpa using List.find?_some first
  have units : access.count ≠ 0 := by
    intro zero
    simp [BaseLock.isAvailable, zero] at unavailable
  have change : Change (world.locks lock) (.waitUntilMaybeAvailable self access world.next) after := by
    have performed := (world.locks lock).perform_change (.waitUntilMaybeAvailable self access world.next)
    have same : (world.locks lock).perform (.waitUntilMaybeAvailable self access world.next) = after := by
      change (((world.locks lock).waitUntilMaybeAvailable self access world.next).toOption.map Prod.fst).getD _ = after
      rw [waited]
      rfl
    rwa [same] at performed
  have limit (other : κ) : (Function.update world.locks lock after other).maxCount = (world.locks other).maxCount := by
    by_cases same : other = lock
    · subst same
      rw [Function.update_self]
      cases change <;> rfl
    · rw [Function.update_of_ne same]
  -- whoever is in a queue now was there before, or is the requester at its only place
  have places (other : κ) (waiter : Waiter ρ) (member : waiter ∈ (Function.update world.locks lock after other).waiting) :
      waiter ∈ (world.locks other).waiting ∧ waiter.requester ≠ self ∨
        other = lock ∧ waiter = ⟨self, access, some world.next⟩ := by
    by_cases same : other = lock
    · subst same
      rw [Function.update_self] at member
      have consistent := live.sound.orderly.consistent other
      cases change with
      | unchanged =>
        -- the deferred is a fresh one, so the entry is new
        exact absurd ((joins.asleep self world.next).mpr (.inr ⟨rfl, rfl⟩)) (live.sound.fresh other self)
      | queued _ absent =>
        rcases List.mem_append.mp member with before | new
        · exact .inl ⟨before, absent waiter before⟩
        · exact .inr ⟨rfl, List.mem_singleton.mp new⟩
      | requeued _ place mine =>
        by_cases new : waiter = ⟨self, access, some world.next⟩
        · exact .inr ⟨rfl, new⟩
        · left
          have rest : waiter ∈ ((world.locks other).without self).waiting := by
            rw [BaseLock.without_waiting consistent place mine]
            simpa [new] using member
          obtain ⟨before, different⟩ := List.mem_filter.mp rest
          exact ⟨before, by simpa using different⟩
    · rw [Function.update_of_ne same] at member
      refine .inl ⟨member, fun mine => same (onePlace other ⟨waiter, member, mine⟩)⟩
  refine ⟨sound, ?_, ?_, ?_, ?_, ?_, ?_, ?_, ?_⟩
  · intro other party'' known'
    rcases update_cases known' with ⟨rfl, rfl⟩ | ⟨_, known'⟩
    · refine ⟨keeps.kind.trans kind, keeps.stopped.trans running, fun failure failed => ?_, keeps.locksToAcquire ▸ valid⟩
      cases phase.symm.trans failed
    · exact live.builds other party'' known'
  · intro other party'' known' d waits
    rcases update_cases known' with ⟨rfl, rfl⟩ | ⟨different, known'⟩
    · cases phase.symm.trans waits
      exact ⟨Nat.lt_succ_self _, .inr ⟨lock, (asleep lock other _).mpr (.inr ⟨rfl, rfl, rfl⟩)⟩⟩
    · obtain ⟨issued, called | ⟨place, sleeps⟩⟩ := live.pending_of_scheduled known others different known' waits
      · exact ⟨Nat.lt_succ_of_lt issued, .inl called⟩
      · exact ⟨Nat.lt_succ_of_lt issued, .inr ⟨place, (asleep place other d).mpr (.inl sleeps)⟩⟩
  · intro left one known' right two known'' d waits waits'
    rcases update_cases known' with ⟨mine, rfl⟩ | ⟨_, before⟩ <;>
      rcases update_cases known'' with ⟨mine', rfl⟩ | ⟨_, before'⟩
    · exact mine.trans mine'.symm
    · cases phase.symm.trans waits
      exact absurd (live.pending right two before' _ waits').1 (Nat.lt_irrefl _)
    · cases phase.symm.trans waits'
      exact absurd (live.pending left one before _ waits).1 (Nat.lt_irrefl _)
    · exact live.unique left one before right two before' d waits waits'
  · intro other waiter member
    rcases places other waiter member with ⟨before, different⟩ | ⟨rfl, rfl⟩
    · obtain ⟨party'', known', waits, listed⟩ := live.placed other waiter before
      exact ⟨party'', (Function.update_of_ne different _ _).trans known', waits, listed⟩
    · exact ⟨party', Function.update_self _ _ _, ⟨_, phase⟩, keeps.locksToAcquire ▸ listed⟩
  · intro other place place' here there
    rcases (queued place other).mp here with before | ⟨rfl, rfl⟩ <;>
      rcases (queued place' other).mp there with before' | ⟨rfl, mine⟩
    · exact live.single other place place' before before'
    · exact onePlace place (mine ▸ before)
    · exact (onePlace place' before').symm
    · rfl
  · intro other waiter member
    rcases places other waiter member with ⟨before, _⟩ | ⟨rfl, rfl⟩
    · exact live.asking other waiter before
    · exact ⟨valid _ listed, units⟩
  · intro other waiter member mode
    rcases places other waiter member with ⟨before, _⟩ | ⟨rfl, rfl⟩
    · exact (live.within other waiter before mode).trans (limit other).ge
    · exact (enough mode).trans (limit other).ge
  · intro other
    change (Function.update world.locks lock after other).Guarded
    by_cases same : other = lock
    · subst same
      rw [Function.update_self]
      exact (live.guarded other).waited change
    · rw [Function.update_of_ne same]
      exact live.guarded other

/-- A build goes through its list: it is live afterwards, or stuck. -/
theorem Live.acquireLocks (live : world.Live) (known : world.parties self = some party)
    (called : ∀ d, party.phase = .waiting d → d ∈ world.scheduled) (fewer : ∀ d ∈ scheduled, d ∈ world.scheduled)
    (others : ∀ d ∈ world.scheduled, d ∈ scheduled ∨ party.phase = .waiting d)
    (waits : ∀ missing ∈ firstUnavailable self world.locks party.locksToAcquire,
      (∀ lock, (world.locks lock).Queued self → lock = missing.1) ∧
        (missing.2.mode = .counting → missing.2.count ≤ (world.locks missing.1).maxCount)) :
    (World.acquireLocks { world with scheduled := scheduled } self party).1.Live ∨
      (World.acquireLocks { world with scheduled := scheduled } self party).1.Stuck := by
  have awake := live.sound.awake known called
  have sound := (live.sound.acquireLocks known called fewer).1
  obtain ⟨kind, running, _, valid⟩ := live.builds self party known
  revert sound
  unfold World.acquireLocks
  rcases taken : party.acquireLocks self world.locks world.next with ⟨locks', party', failures⟩
  have acquires := Party.acquireLocks_acquires live.sound.orderly awake taken
  simp only
  intro sound
  cases acquires with
  | nothing keeps none phase =>
    refine .inl (live.settled known others keeps phase (.refl _ _) sound (fun lock waiter member => ⟨member, ?_⟩)
      (fun _ => rfl) live.guarded)
    intro mine
    obtain ⟨party'', known', _, listed⟩ := live.placed lock waiter member
    rw [mine] at known'
    cases Option.some.inj (known.symm.trans known')
    rw [none] at listed
    cases listed
  | skipped keeps stopped phase => cases running.symm.trans stopped
  | waiting earlier keeps _ phase last first waited joins =>
    obtain ⟨onePlace, enough⟩ := waits _ first
    exact .inl (live.waiting known others keeps phase sound first waited joins onePlace enough)
  | claimed keeps _ phase all claims =>
    have quieter := (claimAll_quieter self live.sound.orderly party.locksToAcquire).1
    rw [claims] at quieter
    exact .inl (live.settled known others keeps phase quieter sound (fun lock => (live.claims known awake claims lock).1)
      (fun lock => (claimAll_grown claims lock).limit) (fun lock => (live.claims known awake claims lock).2))
  | @failed _ _ failure keeps _ phase all claims =>
    have available (wanted : κ × LockAccess) (member : wanted ∈ party.locksToAcquire) :
        (world.locks wanted.1).isAvailable self wanted.2 := by
      simpa using List.find?_eq_none.mp all wanted member
    obtain ⟨lock, access, owned⟩ := claimAll_owns live.sound.orderly.consistent available valid claims
    refine .inr ⟨fun other party'' known' => ?_, self, party', Function.update_self _ _ _, ⟨failure, phase⟩, lock, access, owned⟩
    rcases update_cases known' with ⟨_, rfl⟩ | ⟨_, known'⟩
    · exact keeps.kind.trans kind
    · exact (live.builds other party'' known').1

end Acquiring

omit [DecidableEq κ] [DecidableEq ρ] in
theorem Stuck.not_deadlocked (stuck : world.Stuck) : ¬ world.Deadlocked := by
  rintro ⟨unowned, _⟩
  obtain ⟨self, party, _, _, lock, access, owned⟩ := stuck.keeps
  rw [unowned lock] at owned
  cases owned

omit [DecidableEq κ] in
/-- Somebody else goes on, and does not release what the stuck build owns. -/
theorem Stuck.replaced {locks' : κ → BaseLock ρ} {party party' : Party κ} {scheduled : List Deferred} {next : Deferred}
    (stuck : world.Stuck) (known : world.parties self = some party) (kind : party'.kind = party.kind)
    (free : ∀ failure, party.phase ≠ .failed failure)
    (owners : ∀ lock, ∀ owner ∈ (world.locks lock).owners, owner.1 ≠ self → owner ∈ (locks' lock).owners) :
    Stuck ⟨locks', Function.update world.parties self (some party'), scheduled, next⟩ := by
  obtain ⟨builds, holder, held, among, ⟨failure, failed⟩, lock, access, owned⟩ := stuck
  have different : holder ≠ self := by
    rintro rfl
    cases Option.some.inj (known.symm.trans among)
    exact free failure failed
  constructor
  · intro other party'' known'
    rcases update_cases known' with ⟨_, rfl⟩ | ⟨_, known'⟩
    · exact kind.trans (builds self party known)
    · exact builds other party'' known'
  · exact ⟨holder, held, (Function.update_of_ne different _ _).trans among, ⟨failure, failed⟩, lock, access,
      owners lock _ owned different⟩

theorem Stuck.acquireLocks {party : Party κ} {scheduled : List Deferred} (stuck : world.Stuck) (sound : world.Sound)
    (known : world.parties self = some party) (called : ∀ d, party.phase = .waiting d → d ∈ world.scheduled)
    (free : ∀ failure, party.phase ≠ .failed failure) :
    (World.acquireLocks { world with scheduled := scheduled } self party).1.Stuck := by
  have awake := sound.awake known called
  unfold World.acquireLocks
  rcases taken : party.acquireLocks self world.locks world.next with ⟨locks', party', failures⟩
  have acquires := Party.acquireLocks_acquires sound.orderly awake taken
  simp only
  cases acquires with
  | nothing keeps | skipped keeps => exact stuck.replaced known keeps.kind free fun _ _ owned _ => owned
  | @waiting lock access after _ _ keeps _ _ _ _ waited =>
    refine stuck.replaced known keeps.kind free fun other owner owned _ => ?_
    by_cases same : other = lock
    · subst same
      rw [Function.update_self, BaseLock.waitUntilMaybeAvailable_owners waited]
      exact owned
    · rwa [Function.update_of_ne same]
  | claimed keeps _ _ _ claims | failed keeps _ _ _ claims =>
    exact stuck.replaced known keeps.kind free fun lock owner owned _ => (claimAll_grown claims lock).owners owner owned

theorem Stuck.releaseLocks {party : Party κ} (stuck : world.Stuck) (known : world.parties self = some party)
    (releases : party.Releases) : (world.releaseLocks self party).Stuck := by
  cases party with
  | ofStep step => cases stuck.builds self _ known
  | ofBuild build =>
    refine stuck.replaced known rfl (fun failure failed => ?_) fun lock owner owned different =>
      (Build.releaseOwned_released self world.locks build.locksToAcquire lock).owners owner owned different
    have failed : build.phase = .failed failure := failed
    simp [Party.Releases, Party.phase, failed] at releases

/-- Every turn keeps the builds live, or leaves one of them stuck. -/
theorem Live.turn (live : world.Live) (turn : Turn ρ) (waits : world.WaitsInOnePlace turn) :
    (world.turn turn).1.Live ∨ (world.turn turn).1.Stuck := by
  cases turn with
  | acquireLocks self =>
    have steps := world.step_steps (.acquire self)
    change (world.step (.acquire self)).1.Live ∨ (world.step (.acquire self)).1.Stuck
    generalize world.step (.acquire self) = result at steps
    cases steps with
    | still => exact .inl live
    | @acquired _ party known idle =>
      refine live.acquireLocks known (fun d waiting => nomatch idle.symm.trans waiting) (fun _ member => member)
        (fun _ member => .inl member) fun missing first => ?_
      exact waits (self, party) (by simp [asks, known, idle]) missing first
  | wakeup self =>
    have steps := world.step_steps (.wakeup self)
    change (world.step (.wakeup self)).1.Live ∨ (world.step (.wakeup self)).1.Stuck
    generalize world.step (.wakeup self) = result at steps
    cases steps with
    | still => exact .inl live
    | @woken _ party d known waiting called =>
      refine live.acquireLocks known ?_ (fun _ member => List.mem_of_mem_erase member) ?_ fun missing first => ?_
      · intro d' waiting'
        cases waiting.symm.trans waiting'
        exact called
      · intro d' member
        by_cases same : d' = d
        · exact .inr (same ▸ waiting)
        · exact .inl ((List.mem_erase_of_ne same).mpr member)
      · exact waits (self, party) (by simp [asks, known, waiting, called]) missing first
  | releaseLocks self =>
    have steps := world.step_steps (.release self)
    change (world.step (.release self)).1.Live ∨ (world.step (.release self)).1.Stuck
    generalize world.step (.release self) = result at steps
    cases steps with
    | still => exact .inl live
    | released known releases => exact .inl (live.releaseLocks known releases)

theorem Stuck.turn (stuck : world.Stuck) (sound : world.Sound) (turn : Turn ρ) : (world.turn turn).1.Stuck := by
  have steps := world.step_steps turn.event
  change (world.step turn.event).1.Stuck
  generalize world.step turn.event = result at steps
  cases turn with
  | acquireLocks self =>
    cases steps with
    | still => exact stuck
    | acquired known idle =>
      exact stuck.acquireLocks sound known (fun d waiting => nomatch idle.symm.trans waiting)
        fun failure failed => nomatch idle.symm.trans failed
  | wakeup self =>
    cases steps with
    | still => exact stuck
    | woken known waiting called =>
      refine stuck.acquireLocks sound known ?_ fun failure failed => nomatch waiting.symm.trans failed
      intro d' waiting'
      cases waiting.symm.trans waiting'
      exact called
  | releaseLocks self =>
    cases steps with
    | still => exact stuck
    | released known releases => exact stuck.releaseLocks known releases

omit [DecidableEq κ] [DecidableEq ρ] in
theorem ofBuilds_live (maxCount : κ → Int) (wanted : ρ → Option (List (κ × {access : LockAccess // access.Valid}))) :
    (ofBuilds maxCount wanted).Live := by
  have fresh (self : ρ) (party : Party κ) (known : party ∈ (ofBuilds maxCount wanted).parties self) :
      ∃ list : List (κ × {access : LockAccess // access.Valid}),
        party = .ofBuild (.new (list.map fun (lock, access) => (lock, access.val))) := by
    simp only [ofBuilds, World.new, Option.map_map, Option.mem_def, Option.map_eq_some_iff] at known
    obtain ⟨list, _, rfl⟩ := known
    exact ⟨list, rfl⟩
  refine ⟨new_sound _ _, ?_, ?_, ?_, nofun, ?_, nofun, nofun, ?_⟩
  · intro self party known
    obtain ⟨list, rfl⟩ := fresh self party known
    refine ⟨rfl, rfl, nofun, fun pair member => ?_⟩
    obtain ⟨⟨lock, access, valid⟩, _, rfl⟩ := List.mem_map.mp member
    exact valid
  · intro self party known d waits
    obtain ⟨list, rfl⟩ := fresh self party known
    cases waits
  · intro self party known _ _ _ d waits
    obtain ⟨list, rfl⟩ := fresh self party known
    cases waits
  · rintro self lock _ ⟨waiter, member, _⟩
    cases member
  · intro lock ahead waiter behind place
    simp [ofBuilds, World.new, BaseLock.new] at place

/-- As long as builds wait in one place only, they do not block each other for ever. -/
theorem run_not_deadlocked (maxCount : κ → Int) (wanted : ρ → Option (List (κ × {access : LockAccess // access.Valid})))
    (turns : List (Turn ρ))
    (waits : Interleaving.Always World.turn WaitsInOnePlace (ofBuilds maxCount wanted) turns) :
    ¬ (Interleaving.final World.turn (ofBuilds maxCount wanted) turns).Deadlocked := by
  have preserved (world : World κ ρ) (turn : Turn ρ) (kept : world.Sound ∧ (world.Live ∨ world.Stuck))
      (waits : world.WaitsInOnePlace turn) :
      ((world.turn turn).1.Sound ∧ ((world.turn turn).1.Live ∨ (world.turn turn).1.Stuck)) ∧
        ∀ observed ∈ (world.turn turn).2, ¬ OfWaiting observed.2 := by
    obtain ⟨sound, live | stuck⟩ := kept
    all_goals
      have after := sound.step turn.event (by cases turn <;> exact trivial)
    · exact ⟨⟨after.1, live.turn turn waits⟩, after.2⟩
    · exact ⟨⟨after.1, .inr (stuck.turn sound turn)⟩, after.2⟩
  have live := ofBuilds_live maxCount wanted
  obtain ⟨⟨_, live | stuck⟩, _⟩ := Interleaving.final_of_always preserved ⟨live.sound, .inl live⟩ waits
  · exact live.not_deadlocked
  · exact stuck.not_deadlocked

section Instances

def exclusively (name : String) : {access : LockAccess // access.Valid} := ⟨⟨.masterLock name 1, .exclusive, 1⟩, rfl⟩

/-- The second build takes the two locks in the other order. -/
def crossed : Nat → Option (List (Bool × {access : LockAccess // access.Valid}))
  | 0 | 2 => some [(false, exclusively "first"), (true, exclusively "second")]
  | 1 => some [(true, exclusively "second"), (false, exclusively "first")]
  | _ => none

/-- One build at a time waits for the one that has both. -/
theorem inTurn_not_deadlocked : ¬ (Interleaving.final World.turn (ofBuilds (fun _ => 1) crossed)
    [.acquireLocks 2, .acquireLocks 0, .releaseLocks 2, .wakeup 0]).Deadlocked :=
  run_not_deadlocked (fun _ => 1) crossed _ ⟨by decide, by decide, by decide, by decide, trivial⟩

/-- Two builds wait for the one that has both, are woken for the first lock of their lists and wait behind each
other for the second one. -/
theorem crossed_deadlocked : (Interleaving.final World.turn (ofBuilds (fun _ => 1) crossed)
    [.acquireLocks 2, .acquireLocks 0, .acquireLocks 1, .releaseLocks 2, .wakeup 0, .wakeup 1]).Deadlocked := by
  refine ⟨by decide, by decide, 0, _, 3, rfl, by decide⟩

end Instances

end World

end Umbilical.Process
