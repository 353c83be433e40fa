import Umbilical.Locks.Queues
import Umbilical.Process.Acquisition

set_option autoImplicit false

/-!
# What taking and releasing does to the queues

The loops over the locks of a list, seen from the queues of all locks.
-/

namespace Umbilical.Locks.BaseLock

variable {ρ : Type} [DecidableEq ρ] {lock after : BaseLock ρ} {owner : ρ} {access : LockAccess} {d : Deferred}

theorem Consistent.of_claim (consistent : lock.Consistent) (claimed : lock.claim owner access = .ok after) :
    after.Consistent := by
  have performed : ((lock.claim owner access).toOption.getD lock).Consistent := consistent.perform (.claim owner access)
  rwa [claimed] at performed

theorem Consistent.of_release (consistent : lock.Consistent) : (lock.release owner access).1.Consistent :=
  consistent.perform (.release owner access)

theorem Consistent.of_wait {waits : Bool} (consistent : lock.Consistent)
    (waited : lock.waitUntilMaybeAvailable owner access d = .ok (after, waits)) : after.Consistent := by
  have performed : (((lock.waitUntilMaybeAvailable owner access d).toOption.map Prod.fst).getD lock).Consistent :=
    consistent.perform (.waitUntilMaybeAvailable owner access d)
  rwa [waited] at performed

theorem Consistent.of_stop {woken : Option (List Deferred)} (consistent : lock.Consistent)
    (left : lock.stopWaitingUntilAvailable owner access d = .ok (after, woken)) : after.Consistent := by
  have performed : (((lock.stopWaitingUntilAvailable owner access d).toOption.map Prod.fst).getD lock).Consistent :=
    consistent.perform (.stopWaitingUntilAvailable owner access d)
  rwa [left] at performed

end Umbilical.Locks.BaseLock

namespace Umbilical.Process

open Locks

/-- The assertions of `waitUntilMaybeAvailable` and `stopWaitingUntilAvailable`. -/
def OfWaiting : Failure → Prop
  | .stillPending | .notWaiting | .otherDeferred => True
  | .notAvailable | .invalidAccess | .ownersDisagree => False

variable {κ ρ : Type}

/-- The queues of all locks after operations that put nobody into one. -/
structure Quieter (caller : Option ρ) (before after : κ → BaseLock ρ) (woken : List Deferred) : Prop where
  queued : ∀ lock requester, (after lock).Queued requester → (before lock).Queued requester
  asleep : ∀ lock requester d, (after lock).Asleep requester d → (before lock).Asleep requester d ∧ d ∉ woken
  woke : ∀ d ∈ woken, ∃ lock requester, (before lock).Asleep requester d
  kept : ∀ lock requester d, some requester ≠ caller → (before lock).Asleep requester d →
    (after lock).Asleep requester d ∨ d ∈ woken

/-- What the locks keep between events: no deferred is pending in two places. -/
structure Orderly (locks : κ → BaseLock ρ) : Prop where
  consistent : ∀ lock, (locks lock).Consistent
  once : ∀ lock requester lock' requester' d, (locks lock).Asleep requester d → (locks lock').Asleep requester' d →
    lock = lock' ∧ requester = requester'

/-- A requester gets a place in the queue of a lock and sleeps there. -/
structure Joins (caller : ρ) (d : Deferred) (before after : BaseLock ρ) : Prop where
  consistent : after.Consistent
  queued : ∀ requester, after.Queued requester ↔ before.Queued requester ∨ requester = caller
  asleep : ∀ requester d', after.Asleep requester d' ↔ before.Asleep requester d' ∨ requester = caller ∧ d' = d

variable {self : ρ} {caller : Option ρ} {locks locks' : κ → BaseLock ρ} {woken : List Deferred}

theorem Orderly.solitary (orderly : Orderly locks) (lock : κ) : (locks lock).Solitary :=
  fun first second d asleep asleep' => (orderly.once lock first lock second d asleep asleep').2

theorem Quieter.refl (caller : Option ρ) (locks : κ → BaseLock ρ) : Quieter caller locks locks [] where
  queued _ _ queued := queued
  asleep _ _ _ asleep := ⟨asleep, List.not_mem_nil⟩
  woke := nofun
  kept _ _ _ _ asleep := .inl asleep

theorem Quieter.trans {between : κ → BaseLock ρ} {later : List Deferred} (first : Quieter caller locks between woken)
    (second : Quieter caller between locks' later) : Quieter caller locks locks' (woken ++ later) where
  queued lock requester queued := first.queued lock requester (second.queued lock requester queued)
  asleep lock requester d asleep := by
    obtain ⟨still, notLater⟩ := second.asleep lock requester d asleep
    obtain ⟨before, notWoken⟩ := first.asleep lock requester d still
    exact ⟨before, by simp [notLater, notWoken]⟩
  woke d member := by
    rcases List.mem_append.mp member with now | later
    · exact first.woke d now
    · obtain ⟨lock, requester, asleep⟩ := second.woke d later
      exact ⟨lock, requester, (first.asleep lock requester d asleep).1⟩
  kept lock requester d other asleep := by
    rcases first.kept lock requester d other asleep with still | now
    · rcases second.kept lock requester d other still with still | later
      · exact .inl still
      · exact .inr (List.mem_append_right _ later)
    · exact .inr (List.mem_append_left _ now)

theorem Orderly.quieter (orderly : Orderly locks) (quieter : Quieter caller locks locks' woken)
    (consistent : ∀ lock, (locks' lock).Consistent) : Orderly locks' where
  consistent := consistent
  once lock requester lock' requester' d asleep asleep' :=
    orderly.once lock requester lock' requester' d (quieter.asleep lock requester d asleep).1
      (quieter.asleep lock' requester' d asleep').1

variable [DecidableEq κ]

/-- An operation on one lock, seen from all of them. -/
theorem Orderly.update {lock : κ} {after : BaseLock ρ} (orderly : Orderly locks) (consistent : after.Consistent)
    (quieter : (locks lock).Quieter caller after woken) :
    Quieter caller locks (Function.update locks lock after) woken ∧ Orderly (Function.update locks lock after) := by
  have all : Quieter caller locks (Function.update locks lock after) woken := by
    refine ⟨?_, ?_, ?_, ?_⟩
    · intro other requester queued
      by_cases same : other = lock
      · subst same
        rw [Function.update_self] at queued
        exact quieter.queued requester queued
      · rwa [Function.update_of_ne same] at queued
    · intro other requester d asleep
      by_cases same : other = lock
      · subst same
        rw [Function.update_self] at asleep
        exact quieter.asleep requester d asleep
      · rw [Function.update_of_ne same] at asleep
        refine ⟨asleep, fun member => same ?_⟩
        -- who was woken slept at this lock, and not at another one
        obtain ⟨sleeper, here⟩ := quieter.woke d member
        exact (orderly.once other requester lock sleeper d asleep here).1
    · intro d member
      obtain ⟨requester, asleep⟩ := quieter.woke d member
      exact ⟨lock, requester, asleep⟩
    · intro other requester d different asleep
      by_cases same : other = lock
      · subst same
        rw [Function.update_self]
        exact quieter.kept requester d different asleep
      · rw [Function.update_of_ne same]
        exact .inl asleep
  refine ⟨all, orderly.quieter all fun other => ?_⟩
  by_cases same : other = lock
  · subst same
    rwa [Function.update_self]
  · rw [Function.update_of_ne same]
    exact orderly.consistent other

/-- A requester joins the queue of one lock. -/
theorem Orderly.join {lock : κ} {after : BaseLock ρ} {d : Deferred} (orderly : Orderly locks)
    (joins : Joins self d (locks lock) after) (fresh : ∀ lock requester, ¬ (locks lock).Asleep requester d) :
    Orderly (Function.update locks lock after) ∧
      (∀ other requester, (Function.update locks lock after other).Queued requester ↔
        (locks other).Queued requester ∨ other = lock ∧ requester = self) ∧
      ∀ other requester d', (Function.update locks lock after other).Asleep requester d' ↔
        (locks other).Asleep requester d' ∨ other = lock ∧ requester = self ∧ d' = d := by
  have queued (other : κ) (requester : ρ) : (Function.update locks lock after other).Queued requester ↔
      (locks other).Queued requester ∨ other = lock ∧ requester = self := by
    by_cases same : other = lock
    · subst same
      simp [joins.queued]
    · simp [same]
  have asleep (other : κ) (requester : ρ) (d' : Deferred) :
      (Function.update locks lock after other).Asleep requester d' ↔
        (locks other).Asleep requester d' ∨ other = lock ∧ requester = self ∧ d' = d := by
    by_cases same : other = lock
    · subst same
      simp [joins.asleep]
    · simp [same]
  refine ⟨⟨fun other => ?_, ?_⟩, queued, asleep⟩
  · by_cases same : other = lock
    · subst same
      rw [Function.update_self]
      exact joins.consistent
    · rw [Function.update_of_ne same]
      exact orderly.consistent other
  · intro first requester second requester' d' here there
    rcases (asleep first requester d').mp here with before | ⟨rfl, rfl, rfl⟩ <;>
      rcases (asleep second requester' _).mp there with before' | ⟨rfl, rfl, new⟩
    · exact orderly.once first requester second requester' d' before before'
    · exact absurd (new ▸ before) (fresh first requester)
    · exact absurd before' (fresh second requester')
    · exact ⟨rfl, rfl⟩

variable [DecidableEq ρ]

theorem claim_failure {lock : BaseLock ρ} {access : LockAccess} {failure : Failure}
    (failed : lock.claim self access = .error failure) : ¬ OfWaiting failure := by
  unfold BaseLock.claim BaseLock.addOwner at failed
  split_ifs at failed
  · cases failed
    exact id
  · simp only at failed
    split_ifs at failed
    cases failed
    exact id
  · cases failed
    exact id

theorem claimAll_quieter (self : ρ) (orderly : Orderly locks) (wanted : List (κ × LockAccess)) :
    Quieter (some self) locks (claimAll self locks wanted).1 [] ∧ Orderly (claimAll self locks wanted).1 ∧
      ∀ failure ∈ (claimAll self locks wanted).2, ¬ OfWaiting failure := by
  induction wanted generalizing locks with
  | nil => exact ⟨.refl (some self) locks, orderly, nofun⟩
  | cons pair rest ih =>
    obtain ⟨lock, access⟩ := pair
    unfold claimAll
    cases claimed : (locks lock).claim self access with
    | error failure =>
      refine ⟨.refl (some self) locks, orderly, ?_⟩
      rintro _ ⟨⟩
      exact claim_failure claimed
    | ok after =>
      have consistent := (orderly.consistent lock).of_claim claimed
      obtain ⟨now, orderly'⟩ := orderly.update consistent (BaseLock.claim_quieter claimed)
      obtain ⟨later, orderly'', failures⟩ := ih orderly'
      exact ⟨now.trans later, orderly'', failures⟩

/-- A release of what is owned, in a loop. -/
theorem Orderly.release (self : ρ) (orderly : Orderly locks) (lock : κ) (access : LockAccess) :
    Quieter (some self) locks (Function.update locks lock ((locks lock).release self access).1)
      ((locks lock).release self access).2 ∧
      Orderly (Function.update locks lock ((locks lock).release self access).1) :=
  orderly.update (orderly.consistent lock).of_release
    (BaseLock.release_quieter (some self) self access (orderly.consistent lock) (orderly.solitary lock))

theorem Build.releaseOwned_quieter (self : ρ) (orderly : Orderly locks) (wanted : List (κ × LockAccess)) :
    Quieter (some self) locks (Build.releaseOwned self locks wanted).1 (Build.releaseOwned self locks wanted).2 ∧
      Orderly (Build.releaseOwned self locks wanted).1 := by
  induction wanted generalizing locks with
  | nil => exact ⟨.refl (some self) locks, orderly⟩
  | cons pair rest ih =>
    obtain ⟨lock, access⟩ := pair
    unfold releaseOwned
    split_ifs with owner
    · obtain ⟨now, orderly'⟩ := orderly.release self lock access
      obtain ⟨later, orderly''⟩ := ih orderly'
      exact ⟨now.trans later, orderly''⟩
    · exact ih orderly

theorem BuildStep.releaseOwned_quieter (self : ρ) (stopped : Bool) (orderly : Orderly locks) (wanted : List (κ × LockAccess)) :
    Quieter (some self) locks (BuildStep.releaseOwned self stopped locks wanted).1
        (BuildStep.releaseOwned self stopped locks wanted).2 ∧
      Orderly (BuildStep.releaseOwned self stopped locks wanted).1 := by
  induction wanted generalizing locks with
  | nil => exact ⟨.refl (some self) locks, orderly⟩
  | cons pair rest ih =>
    obtain ⟨lock, access⟩ := pair
    unfold releaseOwned
    split_ifs with owner
    · obtain ⟨now, orderly'⟩ := orderly.release self lock access
      obtain ⟨later, orderly''⟩ := ih orderly'
      exact ⟨now.trans later, orderly''⟩
    · exact ih orderly
    · exact ⟨.refl (some self) locks, orderly⟩

/-- All that the loops of `acquireLocks` can come to, for a requester that is not asleep. -/
inductive Takes (self : ρ) (locks : κ → BaseLock ρ) (wanted : List (κ × LockAccess)) (d : Deferred) :
    (κ → BaseLock ρ) × Taken κ → Prop
  | waiting {lock : κ} {access : LockAccess} {after : BaseLock ρ}
      (first : firstUnavailable self locks wanted = some (lock, access))
      (waited : (locks lock).waitUntilMaybeAvailable self access d = .ok (after, true))
      (joins : Joins self d (locks lock) after) :
      Takes self locks wanted d (Function.update locks lock after, .waiting lock access)
  | claimed {locks' : κ → BaseLock ρ} (all : firstUnavailable self locks wanted = none)
      (claims : claimAll self locks wanted = (locks', none)) :
      Takes self locks wanted d (locks', .claimed)
  | failed {locks' : κ → BaseLock ρ} {failure : Failure} (all : firstUnavailable self locks wanted = none)
      (claims : claimAll self locks wanted = (locks', some failure)) :
      Takes self locks wanted d (locks', .failed failure)

theorem takeLocks_takes (orderly : Orderly locks) (wanted : List (κ × LockAccess)) (d : Deferred)
    (awake : ∀ lock d', ¬ (locks lock).Asleep self d') : Takes self locks wanted d (takeLocks self locks wanted d) := by
  unfold takeLocks
  cases first : firstUnavailable self locks wanted with
  | some pair =>
    obtain ⟨lock, access⟩ := pair
    have unavailable : (locks lock).isAvailable self access = false := by simpa using List.find?_some first
    obtain ⟨after, waited, queued, asleep⟩ := BaseLock.waitUntilMaybeAvailable_eq d unavailable (awake lock)
    simp only [waited]
    exact .waiting first waited ⟨(orderly.consistent lock).of_wait waited, queued, asleep⟩
  | none =>
    cases claims : claimAll self locks wanted with
    | mk locks' failure =>
      cases failure with
      | none => exact .claimed first claims
      | some failure => exact .failed first claims

/-- All that a call by anybody can do to the queue of a lock. -/
theorem useLock_moves {lock after : BaseLock ρ} {d : Deferred} {use : Use ρ} (consistent : lock.Consistent)
    (solitary : lock.Solitary) (used : useLock lock d use = (after, woken)) :
    (after.Consistent ∧ lock.Quieter (requester use) after woken) ∨
      woken = [] ∧ ∃ owner ∈ requester use, Joins owner d lock after := by
  cases use with
  | claim owner access =>
    cases claimed : lock.claim owner access with
    | error =>
      simp only [useLock, claimed] at used
      cases used
      exact .inl ⟨consistent, .refl _ _⟩
    | ok =>
      simp only [useLock, claimed] at used
      cases used
      exact .inl ⟨consistent.of_claim claimed, BaseLock.claim_quieter claimed⟩
  | release owner access =>
    have consistent' : (lock.release owner access).1.Consistent := consistent.of_release
    have quieter := BaseLock.release_quieter (some owner) owner access consistent solitary
    rw [show lock.release owner access = (after, woken) from used] at consistent' quieter
    exact .inl ⟨consistent', quieter⟩
  | setMaxCount count =>
    have consistent' : (lock.setMaxCount count).1.Consistent := consistent.perform (.setMaxCount count)
    have quieter := BaseLock.setMaxCount_quieter none count consistent solitary
    rw [show lock.setMaxCount count = (after, woken) from used] at consistent' quieter
    exact .inl ⟨consistent', quieter⟩
  | stopWaitingUntilAvailable owner access waited =>
    cases left : lock.stopWaitingUntilAvailable owner access waited with
    | error =>
      simp only [useLock, left] at used
      cases used
      exact .inl ⟨consistent, .refl _ _⟩
    | ok =>
      simp only [useLock, left] at used
      cases used
      exact .inl ⟨consistent.of_stop left, (BaseLock.stopWaitingUntilAvailable_quieter consistent solitary left).1⟩
  | waitUntilMaybeAvailable owner access _ =>
    have kept : (lock, ([] : List Deferred)) = (after, woken) →
        after.Consistent ∧ lock.Quieter (some owner) after woken := by
      rintro ⟨⟩
      exact ⟨consistent, .refl _ _⟩
    cases available : lock.isAvailable owner access with
    | true =>
      simp only [useLock, BaseLock.waitUntilMaybeAvailable, available, if_true] at used
      exact .inl (kept used)
    | false =>
      by_cases awake : ∀ d', ¬ lock.Asleep owner d'
      · obtain ⟨waited, result, queued, asleep⟩ := BaseLock.waitUntilMaybeAvailable_eq d available awake
        simp only [useLock, result] at used
        cases used
        exact .inr ⟨rfl, owner, rfl, consistent.of_wait result, queued, asleep⟩
      · obtain ⟨d', asleep⟩ := not_forall_not.mp awake
        simp only [useLock, BaseLock.waitUntilMaybeAvailable_asleep d consistent available asleep] at used
        exact .inl (kept used)

end Umbilical.Process
