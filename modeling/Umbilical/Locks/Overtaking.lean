import Umbilical.Locks.Wakeups

set_option autoImplicit false

/-!
# Passing a waiter

Availability counts the waiters ahead of a requester, not what they wait for.
-/

namespace Umbilical.Locks

variable {ρ : Type} [DecidableEq ρ]

def countSum (accesses : List LockAccess) : Int := (accesses.map LockAccess.count).sum

/-- `LockAccess.__init__` has been through with the access of a call. -/
def Use.Valid : Use ρ → Prop
  | .claim _ access | .release _ access | .waitUntilMaybeAvailable _ access _ | .stopWaitingUntilAvailable _ access _ =>
      access.Valid
  | .setMaxCount _ => True

instance : (use : Use ρ) → Decidable use.Valid
  | .claim _ access | .release _ access | .waitUntilMaybeAvailable _ access _ | .stopWaitingUntilAvailable _ access _ =>
      inferInstanceAs (Decidable access.Valid)
  | .setMaxCount _ => .isTrue trivial

namespace BaseLock

/-- Nobody exclusive owns the lock or waits ahead of a requester. -/
def Shared (lock : BaseLock ρ) (requester : ρ) : Prop :=
  (∀ owner ∈ lock.owners, owner.2.mode = .counting) ∧ ∀ waiter ∈ lock.ahead requester, waiter.access.mode = .counting

/-- The access of a requester fits together with those of all waiters ahead of it. -/
def Accommodates (lock : BaseLock ρ) (requester : ρ) (access : LockAccess) : Prop :=
  lock.Shared requester ∧
    match access.mode with
    | .counting => countSum (lock.owners.map Prod.snd) + countSum ((lock.ahead requester).map Waiter.access) +
        access.count ≤ lock.maxCount
    | .exclusive => lock.owners = [] ∧ lock.ahead requester = []

/-- There is room for the access and one unit for each waiter ahead, but not for all that they ask for. -/
def Crowded (lock : BaseLock ρ) (requester : ρ) (access : LockAccess) : Prop :=
  access.mode = .counting ∧ lock.Shared requester ∧
    countSum (lock.owners.map Prod.snd) + (lock.ahead requester).length + access.count ≤ lock.maxCount ∧
    lock.maxCount <
      countSum (lock.owners.map Prod.snd) + countSum ((lock.ahead requester).map Waiter.access) + access.count

variable {lock : BaseLock ρ} {requester : ρ} {access : LockAccess}

omit [DecidableEq ρ] in
/-- The counters, read off the owners. -/
theorem Consistent.claimedExcl_eq_zero (consistent : lock.Consistent) :
    lock.claimedExcl = 0 ↔ ∀ owner ∈ lock.owners, owner.2.mode = .counting := by
  rw [consistent.exclusive, sum_exclusiveUnits]
  rw [Int.natCast_eq_zero, List.length_eq_zero_iff, List.filter_eq_nil_iff]
  refine forall₂_congr fun owner _ => ?_
  cases owner.2.mode <;> simp

omit [DecidableEq ρ] in
theorem Consistent.claimedCounting_eq (consistent : lock.Consistent)
    (shared : ∀ owner ∈ lock.owners, owner.2.mode = .counting) :
    lock.claimedCounting = countSum (lock.owners.map Prod.snd) := by
  rw [consistent.counting, countSum, List.map_map]
  refine congrArg List.sum (List.map_congr_left fun owner member => ?_)
  simp [LockAccess.countingUnits, shared owner member]

omit [DecidableEq ρ] in
/-- Without exclusive owners nothing is claimed only where there are no owners at all. -/
theorem Consistent.unclaimed (consistent : lock.Consistent) (shared : ∀ owner ∈ lock.owners, owner.2.mode = .counting)
    (none : lock.claimedCounting = 0) : lock.owners = [] := by
  cases owners : lock.owners with
  | nil => rfl
  | cons owner rest =>
    have counted := consistent.counting
    rw [owners, List.map_cons, List.sum_cons] at counted
    have held := List.sum_nonneg fun units (member : units ∈ rest.map fun owner => owner.2.countingUnits) => by
      obtain ⟨other, among, rfl⟩ := List.mem_map.mp member
      exact (consistent.owned other (by simp [owners, among])).1.countingUnits_nonneg
    obtain ⟨valid, some⟩ := consistent.owned owner (by simp [owners])
    have positive := valid.units some
    have counting := shared owner (by simp [owners])
    simp only [LockAccess.exclusiveUnits, counting] at positive
    omega

/-- An available access fits with all that is ahead of it, unless the lock is crowded. -/
theorem Consistent.accommodates_iff (consistent : lock.Consistent) (some : 0 < access.count) :
    (lock.isAvailable requester access → lock.Accommodates requester access) ↔ ¬ lock.Crowded requester access := by
  rw [isAvailable_iff]
  have available (fits : lock.Fits (lock.ahead requester) access) := fits.resolve_left (by omega)
  constructor
  · rintro accommodates ⟨counting, shared, room, full⟩
    have fits : lock.Fits (lock.ahead requester) access := by
      refine .inr ⟨consistent.claimedExcl_eq_zero.mpr shared.1, ?_⟩
      simp only [counting]
      exact ⟨consistent.claimedCounting_eq shared.1 ▸ room, shared.2⟩
    have together := (accommodates fits).2
    simp only [counting] at together
    omega
  · intro uncrowded fits
    obtain ⟨excl, rest⟩ := available fits
    have owners := consistent.claimedExcl_eq_zero.mp excl
    cases mode : access.mode with
    | counting =>
      simp only [mode] at rest
      refine ⟨⟨owners, rest.2⟩, ?_⟩
      simp only [mode]
      by_contra full
      exact uncrowded ⟨mode, ⟨owners, rest.2⟩, consistent.claimedCounting_eq owners ▸ rest.1, by omega⟩
    | exclusive =>
      simp only [mode] at rest
      refine ⟨⟨owners, by rw [rest.2]; exact fun _ member => absurd member List.not_mem_nil⟩, ?_⟩
      simp only [mode]
      exact ⟨consistent.unclaimed owners rest.1, rest.2⟩

/-- Only accesses that ask for something ever wait. -/
theorem Asking.change {use : Use ρ} {after : BaseLock ρ} (asking : Asking lock.waiting) (valid : use.Valid)
    (change : Change lock use after) : Asking after.waiting := by
  have fresh {owner : ρ} {access : LockAccess} {d : Deferred} (unavailable : lock.isAvailable owner access = false)
      (valid : access.Valid) : (⟨owner, access, some d⟩ : Waiter ρ).access.Valid ∧ access.count ≠ 0 := by
    refine ⟨valid, fun zero => ?_⟩
    simp [isAvailable, zero] at unavailable
  have elsewhere {owner : ρ} {waiter : Waiter ρ} (place : lock.waiting = lock.ahead owner ++ waiter :: lock.behind owner) :
      Asking (lock.ahead owner ++ lock.behind owner) := by
    intro other member
    refine asking other ?_
    rw [place]
    exact ((List.sublist_cons_self _ _).append_left _).subset member
  cases change with
  | unchanged => exact asking
  | claimed available =>
    rw [withOwner_waiting]
    exact fun waiter member => asking waiter (List.mem_of_mem_filter member)
  | released owned some =>
    apply Asking.tryWakeUp
    rwa [withoutOwner_waiting]
  | queued unavailable absent =>
    intro waiter member
    rcases List.mem_append.mp member with before | this
    · exact asking waiter before
    · rw [List.mem_singleton.mp this]
      exact fresh unavailable valid
  | requeued unavailable place =>
    intro waiter member
    rcases List.mem_append.mp member with before | _ | ⟨_, behind⟩
    · exact elsewhere place waiter (List.mem_append_left _ before)
    · exact fresh unavailable valid
    · exact elsewhere place waiter (List.mem_append_right _ behind)
  | leftAsleep place => exact elsewhere place
  | leftWoken place => exact (show Asking ({ lock with waiting := _ } : BaseLock ρ).waiting from elsewhere place).tryWakeUp
  | @raised count => exact (show Asking ({ lock with maxCount := count } : BaseLock ρ).waiting from asking).tryWakeUp
  | lowered => exact asking

theorem Asking.run {uses : List (Use ρ)} (asking : Asking lock.waiting) (valid : ∀ use ∈ uses, use.Valid) :
    Asking (lock.run uses).waiting := by
  induction uses generalizing lock with
  | nil => exact asking
  | cons use rest ih =>
    exact ih (asking.change (valid use (by simp)) (lock.perform_change use))
      fun other member => valid other (List.mem_cons_of_mem use member)

omit [DecidableEq ρ] in
/-- Everybody who waits asks for one unit at least. -/
theorem Asking.length_le {waiters : List (Waiter ρ)} (asking : Asking waiters)
    (shared : ∀ waiter ∈ waiters, waiter.access.mode = .counting) :
    (waiters.length : Int) ≤ countSum (waiters.map Waiter.access) := by
  induction waiters with
  | nil => exact le_rfl
  | cons waiter rest ih =>
    have later := ih (fun other member => asking other (List.mem_cons_of_mem waiter member))
      fun other member => shared other (List.mem_cons_of_mem waiter member)
    have here := asking waiter (by simp)
    unfold LockAccess.Valid at here
    rw [shared waiter (by simp)] at here
    simp only [countSum, List.map_cons, List.sum_cons, List.length_cons] at later ⊢
    omega

/-- A claim that fits with what is ahead of it leaves the lock available to whoever is ahead. -/
theorem Accommodates.available {owner : ρ} {after : BaseLock ρ} (accommodates : lock.Accommodates owner access)
    (consistent : lock.Consistent) (asking : Asking lock.waiting) (some : 0 < access.count)
    (claimed : lock.claim owner access = .ok after) {waiter : Waiter ρ} (member : waiter ∈ lock.ahead owner) :
    after.isAvailable waiter.requester waiter.access := by
  obtain ⟨available, valid, ⟨zero, _⟩ | ⟨units, rfl⟩⟩ := claim_eq_ok claimed
  · omega
  have keeps := consistent.withOwner available valid units
  obtain ⟨⟨owners, shared⟩, together⟩ := accommodates
  have counting : access.mode = .counting := by
    cases mode : access.mode with
    | counting => rfl
    | exclusive =>
      simp only [mode] at together
      rw [together.2] at member
      cases member
  simp only [counting] at together
  -- where the waiter stands, before the claim and after it
  obtain ⟨front, back, ahead⟩ := List.append_of_mem member
  have place : ∃ rest, lock.waiting = lock.ahead owner ++ rest ∧
      ((lock.without owner).withOwner owner access).waiting = front ++ waiter :: (back ++ lock.behind owner) := by
    rw [withOwner_waiting]
    rcases lock.place_cases owner with ⟨nowhere, all, absent⟩ | ⟨own, place, same, _, _⟩
    · refine ⟨[], by rw [all, List.append_nil], ?_⟩
      have whole : (lock.without owner).waiting = lock.waiting :=
        List.filter_eq_self.mpr fun other among => by simpa using absent other among
      rw [whole, ← all, ahead, behind, nowhere, List.append_nil]
    · refine ⟨_, place, ?_⟩
      rw [without_waiting consistent place same, ahead, List.append_assoc, List.cons_append]
  obtain ⟨rest, place, placeAfter⟩ := place
  have asked : Asking (lock.ahead owner) := fun other among => asking other (place ▸ List.mem_append_left _ among)
  rw [ahead] at shared together asked
  have least : (front.length : Int) ≤ countSum (front.map Waiter.access) :=
    Asking.length_le (fun other among => asked other (List.mem_append_left _ among))
      fun other among => shared other (List.mem_append_left _ among)
  have more : 0 ≤ countSum (back.map Waiter.access) := by
    have : (back.length : Int) ≤ countSum (back.map Waiter.access) := Asking.length_le
      (fun other among => asked other (List.mem_append_right _ (List.mem_cons_of_mem _ among)))
      fun other among => shared other (List.mem_append_right _ (List.mem_cons_of_mem _ among))
    omega
  have mode : waiter.access.mode = .counting := shared waiter (by simp)
  rw [isAvailable_iff, (ahead_eq keeps.placed placeAfter).1]
  refine .inr ⟨?_, ?_⟩
  · rw [withOwner_claimedExcl, LockAccess.exclusiveUnits, counting]
    exact (Int.add_zero _).trans (consistent.claimedExcl_eq_zero.mpr owners)
  · simp only [mode, withOwner_claimedCounting, withOwner_maxCount, LockAccess.countingUnits, counting, without]
    refine ⟨?_, fun other among => shared other (List.mem_append_left _ among)⟩
    have claimed := consistent.claimedCounting_eq owners
    simp only [countSum, List.map_append, List.map_cons, List.sum_append, List.sum_cons] at together least more claimed
    omega

/-- Nobody is passed, unless the lock is crowded. -/
theorem run_accommodates_iff (maxCount : Int) (uses : List (Use ρ)) (valid : ∀ use ∈ uses, use.Valid) :
    let lock := (new maxCount : BaseLock ρ).run uses
    (∀ requester access, 0 < access.count →
      ((lock.isAvailable requester access → lock.Accommodates requester access) ↔ ¬ lock.Crowded requester access)) ∧
    ∀ owner access after, lock.claim owner access = .ok after → 0 < access.count → ¬ lock.Crowded owner access →
      ∀ waiter ∈ lock.ahead owner, after.isAvailable waiter.requester waiter.access := by
  intro lock
  have consistent : lock.Consistent := new_run_consistent maxCount uses
  have idle : Asking (new maxCount : BaseLock ρ).waiting := fun _ member => absurd member List.not_mem_nil
  have asking : Asking lock.waiting := idle.run valid
  refine ⟨fun _ _ some => consistent.accommodates_iff some, fun owner access after claimed some uncrowded waiter member => ?_⟩
  have accommodates := (consistent.accommodates_iff some).mpr uncrowded (claim_eq_ok claimed).1
  exact accommodates.available consistent asking some claimed member

/-- One unit is claimed, and somebody waits for three. Whoever comes next gets one, and takes one of the three with it. -/
theorem smallRequest_overtakes :
    let large : LockAccess := ⟨.masterLock "" 3, .counting, 3⟩
    let small : LockAccess := ⟨.masterLock "" 3, .counting, 1⟩
    let lock : BaseLock Nat := (new 3).run [.claim 0 small, .waitUntilMaybeAvailable 1 large 0]
    lock.isAvailable 2 small ∧ ¬ lock.Accommodates 2 small ∧
      ((lock.perform (.claim 2 small)).perform (.release 0 small)).isAvailable 1 large = false := by
  refine ⟨rfl, ?_, rfl⟩
  rintro ⟨_, together⟩
  exact absurd together (by decide)

theorem secondUnit_accommodated :
    let small : LockAccess := ⟨.masterLock "" 3, .counting, 1⟩
    let lock : BaseLock Nat := (new 3).run [.claim 0 small]
    lock.isAvailable 1 small → lock.Accommodates 1 small := by
  intro small lock
  refine ((run_accommodates_iff (ρ := Nat) 3 [.claim 0 small] (by decide)).1 1 small (by decide)).mpr ?_
  rintro ⟨_, _, _, full⟩
  exact absurd full (by decide)

end BaseLock

end Umbilical.Locks
