import Umbilical.Locks.BaseLock
import Mathlib.Algebra.Order.BigOperators.Group.List
import Mathlib.Algebra.Order.Group.Int
import Mathlib.Algebra.BigOperators.Group.List.Basic
import Mathlib.Tactic.SplitIfs
import Mathlib.Algebra.Ring.Int.Defs

set_option autoImplicit false

/-!
# What a lock keeps count of

The two counters of a lock against its owners, and its queue against double
entries, over every sequence of calls.
-/

namespace Umbilical.Locks

variable {ρ : Type} [DecidableEq ρ]

namespace LockAccess

def exclusiveUnits (access : LockAccess) : Int :=
  match access.mode with
  | .counting => 0
  | .exclusive => 1

def countingUnits (access : LockAccess) : Int :=
  match access.mode with
  | .counting => access.count
  | .exclusive => 0

theorem exclusiveUnits_nonneg (access : LockAccess) : 0 ≤ access.exclusiveUnits := by
  unfold exclusiveUnits
  cases access.mode <;> decide

theorem Valid.countingUnits_nonneg {access : LockAccess} (valid : access.Valid) : 0 ≤ access.countingUnits := by
  unfold Valid at valid
  unfold countingUnits
  cases mode : access.mode <;> simp only [mode] at valid ⊢
  · exact valid
  · exact le_rfl

/-- An access asks for one exclusive unit, or for counting units. -/
theorem Valid.units {access : LockAccess} (valid : access.Valid) (some : access.count ≠ 0) :
    access.exclusiveUnits = 1 ∧ access.countingUnits = 0 ∨ access.exclusiveUnits = 0 ∧ 0 < access.countingUnits := by
  unfold Valid at valid
  unfold exclusiveUnits countingUnits
  cases mode : access.mode <;> simp only [mode] at valid
  · exact .inr ⟨rfl, by simp only; omega⟩
  · exact .inl ⟨rfl, rfl⟩

end LockAccess

namespace BaseLock

variable {lock : BaseLock ρ} {requester : ρ} {access : LockAccess}

section Records

omit [DecidableEq ρ]

@[simp] theorem withOwner_waiting : (lock.withOwner requester access).waiting = lock.waiting := by
  unfold withOwner
  cases access.mode <;> rfl

@[simp] theorem withOwner_owners : (lock.withOwner requester access).owners = lock.owners ++ [(requester, access)] := by
  unfold withOwner
  cases access.mode <;> rfl

@[simp] theorem withOwner_maxCount : (lock.withOwner requester access).maxCount = lock.maxCount := by
  unfold withOwner
  cases access.mode <;> rfl

@[simp] theorem withOwner_claimedExcl :
    (lock.withOwner requester access).claimedExcl = lock.claimedExcl + access.exclusiveUnits := by
  unfold withOwner LockAccess.exclusiveUnits
  cases access.mode <;> simp

@[simp] theorem withOwner_claimedCounting :
    (lock.withOwner requester access).claimedCounting = lock.claimedCounting + access.countingUnits := by
  unfold withOwner LockAccess.countingUnits
  cases access.mode <;> simp

/-- Entries that have been woken keep their requesters and accesses. -/
theorem wakeFrom_waiting (lock : BaseLock ρ) (numExcl numCounting : Int) (waiting : List (Waiter ρ)) :
    (lock.wakeFrom numExcl numCounting waiting).1.map (fun waiter => (waiter.requester, waiter.access)) =
      waiting.map fun waiter => (waiter.requester, waiter.access) := by
  induction waiting generalizing numExcl numCounting with
  | nil => rfl
  | cons waiter rest ih =>
    unfold wakeFrom
    split_ifs with stops
    · rfl
    · cases waiter.access.mode <;> simp [ih]

@[simp] theorem tryWakeUp_owners : lock.tryWakeUp.1.owners = lock.owners := rfl
@[simp] theorem tryWakeUp_maxCount : lock.tryWakeUp.1.maxCount = lock.maxCount := rfl
@[simp] theorem tryWakeUp_claimedExcl : lock.tryWakeUp.1.claimedExcl = lock.claimedExcl := rfl
@[simp] theorem tryWakeUp_claimedCounting : lock.tryWakeUp.1.claimedCounting = lock.claimedCounting := rfl

theorem tryWakeUp_requesters :
    lock.tryWakeUp.1.waiting.map Waiter.requester = lock.waiting.map Waiter.requester := by
  have kept := congrArg (List.map Prod.fst)
    (lock.wakeFrom_waiting lock.claimedExcl lock.claimedCounting lock.waiting)
  rw [List.map_map, List.map_map] at kept
  exact kept

end Records

@[simp] theorem withoutOwner_waiting : (lock.withoutOwner requester access).waiting = lock.waiting := by
  unfold withoutOwner
  cases access.mode <;> rfl

@[simp] theorem withoutOwner_owners :
    (lock.withoutOwner requester access).owners = lock.owners.erase (requester, access) := by
  unfold withoutOwner
  cases access.mode <;> rfl

@[simp] theorem withoutOwner_maxCount : (lock.withoutOwner requester access).maxCount = lock.maxCount := by
  unfold withoutOwner
  cases access.mode <;> rfl

@[simp] theorem withoutOwner_claimedExcl :
    (lock.withoutOwner requester access).claimedExcl = lock.claimedExcl - access.exclusiveUnits := by
  unfold withoutOwner LockAccess.exclusiveUnits
  cases access.mode <;> simp

@[simp] theorem withoutOwner_claimedCounting :
    (lock.withoutOwner requester access).claimedCounting = lock.claimedCounting - access.countingUnits := by
  unfold withoutOwner LockAccess.countingUnits
  cases access.mode <;> simp

/-- A requester has no place in the queue, or one between what is ahead of it and what is behind it. -/
theorem place_cases (lock : BaseLock ρ) (requester : ρ) :
    (lock.findWaiting requester = none ∧ lock.ahead requester = lock.waiting ∧
      ∀ waiter ∈ lock.waiting, waiter.requester ≠ requester) ∨
    ∃ waiter, lock.waiting = lock.ahead requester ++ waiter :: lock.behind requester ∧
      waiter.requester = requester ∧ (∀ other ∈ lock.ahead requester, other.requester ≠ requester) ∧
      lock.findWaiting requester = some (lock.ahead requester).length := by
  cases found : lock.findWaiting requester with
  | none =>
    refine .inl ⟨rfl, by simp [ahead, found], fun waiter member => ?_⟩
    have absent := List.findIdx?_eq_none_iff.mp found waiter member
    simpa using absent
  | some index =>
    obtain ⟨within, here, before⟩ := List.findIdx?_eq_some_iff_getElem.mp found
    have length : (lock.ahead requester).length = index := by
      simp only [ahead, found, Option.getD_some, List.length_take]
      omega
    refine .inr ⟨lock.waiting[index], ?_, by simpa using here, ?_, by rw [length]⟩
    · simp only [ahead, behind, found, Option.getD_some]
      rw [List.getElem_cons_drop, List.take_append_drop]
    · intro other member
      simp only [ahead, found, Option.getD_some] at member
      obtain ⟨place, small, rfl⟩ := List.mem_take_iff_getElem.mp member
      simpa using before place (by omega)

end BaseLock

/-- All that a call can do to a lock. -/
inductive Change (lock : BaseLock ρ) : Use ρ → BaseLock ρ → Prop
  | unchanged (use : Use ρ) : Change lock use lock
  | claimed {owner : ρ} {access : LockAccess} (available : lock.isAvailable owner access) (valid : access.Valid)
      (some : access.count ≠ 0) :
      Change lock (.claim owner access) ((lock.without owner).withOwner owner access)
  | released {owner : ρ} {access : LockAccess} (owned : (owner, access) ∈ lock.owners) (some : access.count ≠ 0) :
      Change lock (.release owner access) (lock.withoutOwner owner access).tryWakeUp.1
  | queued {owner : ρ} {access : LockAccess} {d : Deferred} (unavailable : lock.isAvailable owner access = false)
      (absent : ∀ waiter ∈ lock.waiting, waiter.requester ≠ owner) :
      Change lock (.waitUntilMaybeAvailable owner access d)
        { lock with waiting := lock.waiting ++ [⟨owner, access, some d⟩] }
  | requeued {owner : ρ} {access : LockAccess} {d : Deferred} {waiter : Waiter ρ}
      (unavailable : lock.isAvailable owner access = false)
      (place : lock.waiting = lock.ahead owner ++ waiter :: lock.behind owner) (same : waiter.requester = owner)
      (woken : waiter.deferred = none) :
      Change lock (.waitUntilMaybeAvailable owner access d)
        { lock with waiting := lock.ahead owner ++ ⟨owner, access, some d⟩ :: lock.behind owner }
  | leftAsleep {owner : ρ} {access : LockAccess} {d : Deferred} {waiter : Waiter ρ}
      (place : lock.waiting = lock.ahead owner ++ waiter :: lock.behind owner) (same : waiter.requester = owner)
      (asleep : waiter.deferred = some d) :
      Change lock (.stopWaitingUntilAvailable owner access d)
        { lock with waiting := lock.ahead owner ++ lock.behind owner }
  | leftWoken {owner : ρ} {access : LockAccess} {d : Deferred} {waiter : Waiter ρ}
      (place : lock.waiting = lock.ahead owner ++ waiter :: lock.behind owner) (same : waiter.requester = owner)
      (woken : waiter.deferred = none) :
      Change lock (.stopWaitingUntilAvailable owner access d)
        { lock with waiting := lock.ahead owner ++ lock.behind owner }.tryWakeUp.1
  | raised {count : Int} (more : lock.maxCount < count) :
      Change lock (.setMaxCount count) { lock with maxCount := count }.tryWakeUp.1
  | lowered {count : Int} (less : count ≤ lock.maxCount) : Change lock (.setMaxCount count) { lock with maxCount := count }

namespace BaseLock

variable {lock : BaseLock ρ}

theorem claim_eq_ok {owner : ρ} {access : LockAccess} {after : BaseLock ρ} (claimed : lock.claim owner access = .ok after) :
    lock.isAvailable owner access ∧ access.Valid ∧
      (access.count = 0 ∧ after = lock ∨ access.count ≠ 0 ∧ after = (lock.without owner).withOwner owner access) := by
  unfold claim addOwner at claimed
  split_ifs at claimed with unavailable valid zero
  · cases claimed
    exact ⟨by simpa using unavailable, valid, .inl ⟨zero, rfl⟩⟩
  · simp only at claimed
    split_ifs at claimed
    cases claimed
    exact ⟨by simpa using unavailable, valid, .inr ⟨zero, rfl⟩⟩

theorem deferredAt_ahead {owner : ρ} {waiter : Waiter ρ}
    (place : lock.waiting = lock.ahead owner ++ waiter :: lock.behind owner) :
    lock.deferredAt (lock.ahead owner).length = waiter.deferred := by
  rw [deferredAt, place]
  simp

theorem perform_change (lock : BaseLock ρ) (use : Use ρ) : Change lock use (lock.perform use) := by
  cases use with
  | claim owner access =>
    change Change lock _ ((lock.claim owner access).toOption.getD lock)
    cases claimed : lock.claim owner access with
    | error => exact .unchanged _
    | ok after =>
      obtain ⟨available, valid, ⟨_, rfl⟩ | ⟨units, rfl⟩⟩ := claim_eq_ok claimed
      · exact .unchanged _
      · exact .claimed available valid units
  | release owner access =>
    change Change lock _ (lock.release owner access).1
    unfold release removeOwner
    split_ifs with zero owned
    · exact .unchanged _
    · exact .released owned zero
    · exact .unchanged _
  | waitUntilMaybeAvailable owner access d =>
    change Change lock _ (((lock.waitUntilMaybeAvailable owner access d).toOption.map Prod.fst).getD lock)
    unfold waitUntilMaybeAvailable
    split_ifs with available
    · exact .unchanged _
    · have unavailable : lock.isAvailable owner access = false := by simpa using available
      rcases lock.place_cases owner with ⟨absent, _, others⟩ | ⟨waiter, place, same, _, found⟩
      · rw [absent]
        exact .queued unavailable others
      · rw [found]
        simp only [deferredAt_ahead place]
        split_ifs with asleep
        · exact .unchanged _
        · have replaced : lock.waiting.set (lock.ahead owner).length ⟨owner, access, some d⟩ =
              lock.ahead owner ++ ⟨owner, access, some d⟩ :: lock.behind owner := by
            conv_lhs => rw [place]
            simp
          simp only [replaced]
          exact .requeued unavailable place same (by simpa using asleep)
  | stopWaitingUntilAvailable owner access d =>
    change Change lock _ (((lock.stopWaitingUntilAvailable owner access d).toOption.map Prod.fst).getD lock)
    unfold stopWaitingUntilAvailable
    rcases lock.place_cases owner with ⟨absent, _, _⟩ | ⟨waiter, place, same, _, found⟩
    · rw [absent]
      exact .unchanged _
    · have removed : lock.waiting.eraseIdx (lock.ahead owner).length = lock.ahead owner ++ lock.behind owner := by
        conv_lhs => rw [place]
        rw [List.eraseIdx_append_of_length_le le_rfl, Nat.sub_self, List.eraseIdx_cons_zero]
      rw [found]
      simp only [deferredAt_ahead place, removed]
      cases state : waiter.deferred with
      | none => exact .leftWoken place same state
      | some pending =>
        by_cases other : pending = d
        · simp only [other, ne_eq, not_true_eq_false, if_false]
          exact .leftAsleep place same (other ▸ state)
        · simp only [ne_eq, other, not_false_eq_true, if_true]
          exact .unchanged _
  | setMaxCount count =>
    change Change lock _ (lock.setMaxCount count).1
    unfold setMaxCount
    split_ifs with more
    · exact .raised more
    · exact .lowered (by omega)

/-- What a lock keeps count of, and what its queue never holds. -/
structure Consistent (lock : BaseLock ρ) : Prop where
  exclusive : lock.claimedExcl = (lock.owners.map fun owner => owner.2.exclusiveUnits).sum
  counting : lock.claimedCounting = (lock.owners.map fun owner => owner.2.countingUnits).sum
  owned : ∀ owner ∈ lock.owners, owner.2.Valid ∧ owner.2.count ≠ 0
  apart : lock.claimedExcl = 0 ∨ lock.claimedExcl = 1 ∧ lock.claimedCounting = 0
  placed : Keyed.Distinct Waiter.requester lock.waiting

omit [DecidableEq ρ] in
theorem new_consistent (maxCount : Int) : (new maxCount : BaseLock ρ).Consistent where
  exclusive := rfl
  counting := rfl
  owned := nofun
  apart := .inl rfl
  placed := List.nodup_nil

omit [DecidableEq ρ] in
/-- Only the queue and the limit differ. -/
theorem Consistent.of_owners {after : BaseLock ρ} (consistent : lock.Consistent) (owners : after.owners = lock.owners)
    (excl : after.claimedExcl = lock.claimedExcl) (counting : after.claimedCounting = lock.claimedCounting)
    (placed : Keyed.Distinct Waiter.requester after.waiting) : after.Consistent where
  exclusive := by rw [excl, owners, consistent.exclusive]
  counting := by rw [counting, owners, consistent.counting]
  owned := owners ▸ consistent.owned
  apart := by rw [excl, counting]; exact consistent.apart
  placed := placed

omit [DecidableEq ρ] in
theorem Consistent.tryWakeUp (consistent : lock.Consistent) : lock.tryWakeUp.1.Consistent :=
  consistent.of_owners rfl rfl rfl (by
    unfold Keyed.Distinct
    rw [tryWakeUp_requesters]
    exact consistent.placed)

theorem Consistent.withOwner {owner : ρ} {access : LockAccess} (consistent : lock.Consistent)
    (available : lock.isAvailable owner access) (valid : access.Valid) (some : access.count ≠ 0) :
    ((lock.without owner).withOwner owner access).Consistent where
  exclusive := by simp [without, consistent.exclusive]
  counting := by simp [without, consistent.counting]
  owned := by
    simp only [withOwner_owners, List.mem_append, List.mem_singleton]
    rintro other (member | rfl)
    · exact consistent.owned other member
    · exact ⟨valid, some⟩
  apart := by
    unfold isAvailable at available
    rw [if_neg some] at available
    simp only [withOwner_claimedExcl, withOwner_claimedCounting, without, LockAccess.exclusiveUnits,
      LockAccess.countingUnits]
    cases mode : access.mode <;> simp only [mode, decide_eq_true_eq] at available ⊢
    · omega
    · omega
  placed := by
    rw [withOwner_waiting]
    exact consistent.placed.sublist (List.filter_sublist.map _)

theorem Consistent.withoutOwner {owner : ρ} {access : LockAccess} (consistent : lock.Consistent)
    (owned : (owner, access) ∈ lock.owners) : (lock.withoutOwner owner access).Consistent := by
  have split := List.perm_cons_erase owned
  have units (f : LockAccess → Int) : (lock.owners.map fun owner => f owner.2).sum =
      f access + ((lock.owners.erase (owner, access)).map fun owner => f owner.2).sum := by
    rw [(split.map _).sum_eq, List.map_cons, List.sum_cons]
  have kept : ∀ other ∈ lock.owners.erase (owner, access), other.2.Valid ∧ other.2.count ≠ 0 :=
    fun other member => consistent.owned other (List.mem_of_mem_erase member)
  have exclusive := consistent.exclusive.trans (units LockAccess.exclusiveUnits)
  have counting := consistent.counting.trans (units LockAccess.countingUnits)
  have exclusiveRest := List.sum_nonneg fun units (member : units ∈ (lock.owners.erase (owner, access)).map
      fun owner => owner.2.exclusiveUnits) => by
    obtain ⟨other, _, rfl⟩ := List.mem_map.mp member
    exact other.2.exclusiveUnits_nonneg
  have countingRest := List.sum_nonneg fun units (member : units ∈ (lock.owners.erase (owner, access)).map
      fun owner => owner.2.countingUnits) => by
    obtain ⟨other, among, rfl⟩ := List.mem_map.mp member
    exact (kept other among).1.countingUnits_nonneg
  obtain ⟨valid, some⟩ : access.Valid ∧ access.count ≠ 0 := consistent.owned _ owned
  exact {
    exclusive := by simp only [withoutOwner_claimedExcl, withoutOwner_owners]; omega
    counting := by simp only [withoutOwner_claimedCounting, withoutOwner_owners]; omega
    owned := by simpa using kept
    apart := by
      simp only [withoutOwner_claimedExcl, withoutOwner_claimedCounting]
      -- an exclusive owner is the only one, so one of the two counters cannot be what is released
      rcases valid.units some with ⟨_, _⟩ | ⟨_, _⟩ <;> rcases consistent.apart with _ | ⟨_, _⟩ <;> omega
    placed := by simpa using consistent.placed }

theorem Consistent.left {owner : ρ} {waiter : Waiter ρ} (consistent : lock.Consistent)
    (place : lock.waiting = lock.ahead owner ++ waiter :: lock.behind owner) :
    ({ lock with waiting := lock.ahead owner ++ lock.behind owner } : BaseLock ρ).Consistent := by
  have placed := consistent.placed
  rw [place] at placed
  exact consistent.of_owners rfl rfl rfl (placed.sublist (((List.sublist_cons_self _ _).append_left _).map _))

theorem without_waiting {owner : ρ} {waiter : Waiter ρ} (consistent : lock.Consistent)
    (place : lock.waiting = lock.ahead owner ++ waiter :: lock.behind owner) (same : waiter.requester = owner) :
    (lock.without owner).waiting = lock.ahead owner ++ lock.behind owner := by
  have placed := consistent.placed
  unfold Keyed.Distinct at placed
  rw [place] at placed
  simp only [List.map_append, List.map_cons, List.nodup_append, List.nodup_cons, List.mem_map, List.mem_cons,
    same] at placed
  have ahead : (lock.ahead owner).filter (fun other => other.requester ≠ owner) = lock.ahead owner := by
    refine List.filter_eq_self.mpr fun other member => ?_
    simpa using placed.2.2 other.requester ⟨other, member, rfl⟩ owner (.inl rfl)
  have behind : (lock.behind owner).filter (fun other => other.requester ≠ owner) = lock.behind owner := by
    refine List.filter_eq_self.mpr fun other member => ?_
    simp only [ne_eq, decide_not, Bool.not_eq_eq_eq_not, Bool.not_true, decide_eq_false_iff_not]
    exact fun equal => placed.2.1.1 ⟨other, member, equal⟩
  conv_lhs => rw [without, place]
  simp only [List.filter_append]
  rw [ahead, List.filter_cons_of_neg (by simp [same]), behind]

/-- Every call keeps count. -/
theorem Consistent.change {use : Use ρ} {after : BaseLock ρ} (consistent : lock.Consistent)
    (change : Change lock use after) : after.Consistent := by
  cases change with
  | unchanged => exact consistent
  | claimed available valid some => exact consistent.withOwner available valid some
  | released owned some => exact (consistent.withoutOwner owned).tryWakeUp
  | queued unavailable absent =>
    refine consistent.of_owners rfl rfl rfl (Keyed.distinct_append.mpr ⟨consistent.placed, ?_⟩)
    exact Keyed.lookup_eq_none.mpr absent
  | requeued unavailable place same woken =>
    have placed := consistent.placed
    refine consistent.of_owners rfl rfl rfl ?_
    unfold Keyed.Distinct at placed ⊢
    rw [place] at placed
    simpa [same] using placed
  | leftAsleep place => exact consistent.left place
  | leftWoken place => exact (consistent.left place).tryWakeUp
  | @raised count more =>
    have resized : ({ lock with maxCount := count } : BaseLock ρ).Consistent :=
      consistent.of_owners rfl rfl rfl consistent.placed
    exact resized.tryWakeUp
  | lowered less => exact consistent.of_owners rfl rfl rfl consistent.placed

theorem Consistent.perform (consistent : lock.Consistent) (use : Use ρ) : (lock.perform use).Consistent :=
  consistent.change (lock.perform_change use)

/-- A lock after a sequence of calls. -/
def run (lock : BaseLock ρ) (uses : List (Use ρ)) : BaseLock ρ := uses.foldl perform lock

theorem Consistent.run (consistent : lock.Consistent) (uses : List (Use ρ)) : (lock.run uses).Consistent := by
  induction uses generalizing lock with
  | nil => exact consistent
  | cons use rest ih => exact ih (consistent.perform use)

theorem new_run_consistent (maxCount : Int) (uses : List (Use ρ)) : ((new maxCount : BaseLock ρ).run uses).Consistent :=
  (new_consistent maxCount).run uses

/-- A claim of an available lock with a valid access runs into no other assertion. -/
theorem Consistent.claim_ok {owner : ρ} {access : LockAccess} (consistent : lock.Consistent)
    (available : lock.isAvailable owner access) (valid : access.Valid) (some : access.count ≠ 0) :
    lock.claim owner access = .ok ((lock.without owner).withOwner owner access) := by
  have agrees := (consistent.withOwner available valid some).apart
  have limit : access.exclusiveUnits = 0 → 0 ≤ lock.maxCount := by
    intro counting
    have units := valid.units some
    have held := List.sum_nonneg fun units (member : units ∈ lock.owners.map fun owner => owner.2.countingUnits) => by
      obtain ⟨other, among, rfl⟩ := List.mem_map.mp member
      exact (consistent.owned other among).1.countingUnits_nonneg
    unfold isAvailable at available
    rw [if_neg some] at available
    have total := consistent.counting
    unfold LockAccess.exclusiveUnits LockAccess.countingUnits at *
    cases mode : access.mode <;> simp only [mode, decide_eq_true_eq] at available units counting
    · omega
    · omega
  have agrees' := (consistent.withOwner available valid some).exclusive
  have rest := consistent.apart
  unfold claim addOwner
  rw [if_neg (by simp [available]), if_neg (not_not.mpr valid), if_neg some]
  simp only [withOwner_claimedExcl, withOwner_claimedCounting, withOwner_maxCount, without] at agrees limit ⊢
  rw [if_pos]
  rcases agrees with none | ⟨one, none⟩
  · have : access.exclusiveUnits = 0 := by
      have := access.exclusiveUnits_nonneg
      omega
    have := limit this
    omega
  · omega

def exclusiveOwners (lock : BaseLock ρ) : List (ρ × LockAccess) := lock.owners.filter fun owner => owner.2.mode = .exclusive

def countingOwners (lock : BaseLock ρ) : List (ρ × LockAccess) := lock.owners.filter fun owner => owner.2.mode = .counting

omit [DecidableEq ρ] in
theorem sum_exclusiveUnits (owners : List (ρ × LockAccess)) :
    (owners.map fun owner => owner.2.exclusiveUnits).sum =
      ((owners.filter fun owner => owner.2.mode = .exclusive).length : Int) := by
  induction owners with
  | nil => rfl
  | cons owner rest ih =>
    rw [List.map_cons, List.sum_cons, ih]
    cases mode : owner.2.mode <;> simp [mode, LockAccess.exclusiveUnits, add_comm]

omit [DecidableEq ρ] in
theorem sum_countingUnits (owners : List (ρ × LockAccess)) :
    (owners.map fun owner => owner.2.countingUnits).sum =
      ((owners.filter fun owner => owner.2.mode = .counting).map fun owner => owner.2.count).sum := by
  induction owners with
  | nil => rfl
  | cons owner rest ih =>
    rw [List.map_cons, List.sum_cons, ih]
    cases mode : owner.2.mode <;> simp [mode, LockAccess.countingUnits]

omit [DecidableEq ρ] in
/-- The exclusive owner is the only owner. -/
theorem Consistent.countingOwners_nil (consistent : lock.Consistent) (one : lock.claimedExcl = 1) :
    lock.countingOwners = [] := by
  refine List.eq_nil_iff_forall_not_mem.mpr fun owner member => ?_
  obtain ⟨among, mode⟩ := List.mem_filter.mp member
  have total : (lock.owners.map fun owner => owner.2.countingUnits).sum = 0 := by
    rw [← consistent.counting]
    rcases consistent.apart with zero | ⟨_, zero⟩
    · omega
    · exact zero
  have below := List.single_le_sum (fun units (member : units ∈ lock.owners.map fun owner => owner.2.countingUnits) => by
    obtain ⟨other, among, rfl⟩ := List.mem_map.mp member
    exact (consistent.owned other among).1.countingUnits_nonneg) _ (List.mem_map_of_mem among)
  obtain ⟨valid, some⟩ := consistent.owned owner among
  have units := valid.units some
  have counting : owner.2.exclusiveUnits = 0 := by
    simp only [decide_eq_true_eq] at mode
    simp [LockAccess.exclusiveUnits, mode]
  omega

/-- The counters against the owners, the limit against claims, and the queue against double entries. -/
structure KeepsCount (lock : BaseLock ρ) : Prop where
  excl : lock.claimedExcl = lock.exclusiveOwners.length
  counting : lock.claimedCounting = (lock.countingOwners.map fun owner => owner.2.count).sum
  atMostOne : lock.claimedExcl = 0 ∨ lock.claimedExcl = 1
  alone : lock.claimedExcl = 1 → lock.countingOwners = []
  claims : ∀ owner access after, lock.claim owner access = .ok after →
    (lock.claimedCounting < after.claimedCounting → after.claimedCounting ≤ lock.maxCount) ∧
    after.claimedExcl = lock.claimedExcl + access.exclusiveUnits ∧
    after.claimedCounting = lock.claimedCounting + access.countingUnits ∧
    after.owners = lock.owners ++ if access.count = 0 then [] else [(owner, access)]
  releases : ∀ owner access, (lock.release owner access).1.owners = lock.owners.erase (owner, access) ∧
    if lock.isOwner owner access then
      (lock.release owner access).1.claimedExcl = lock.claimedExcl - access.exclusiveUnits ∧
      (lock.release owner access).1.claimedCounting = lock.claimedCounting - access.countingUnits
    else (lock.release owner access).1 = lock
  queued : (lock.waiting.map Waiter.requester).Nodup

theorem Consistent.keepsCount (consistent : lock.Consistent) : lock.KeepsCount where
  excl := consistent.exclusive.trans (sum_exclusiveUnits _)
  counting := consistent.counting.trans (sum_countingUnits _)
  atMostOne := consistent.apart.imp id And.left
  alone := consistent.countingOwners_nil
  claims := by
    intro owner access after claimed
    obtain ⟨available, valid, ⟨none, rfl⟩ | ⟨some, rfl⟩⟩ := claim_eq_ok claimed
    · have nothing : access.exclusiveUnits = 0 ∧ access.countingUnits = 0 := by
        unfold LockAccess.Valid at valid
        unfold LockAccess.exclusiveUnits LockAccess.countingUnits
        cases mode : access.mode <;> simp only [mode] at valid
        · exact ⟨rfl, none⟩
        · omega
      simp [none, nothing]
    · refine ⟨fun grown => ?_, by simp [without], by simp [without], by simp [without, some]⟩
      unfold isAvailable at available
      rw [if_neg some] at available
      simp only [withOwner_claimedCounting, without, LockAccess.countingUnits] at grown ⊢
      cases mode : access.mode <;> simp only [mode, decide_eq_true_eq] at available grown ⊢
      · omega
      · omega
  releases := by
    intro owner access
    unfold release removeOwner
    by_cases owned : (owner, access) ∈ lock.owners
    · obtain ⟨_, some⟩ := consistent.owned _ owned
      simp [owned, isOwner, if_neg some]
    · simp [isOwner, owned, List.erase_of_not_mem owned]
  queued := consistent.placed

/-- Every state that calls can bring a lock to keeps count. -/
theorem run_keepsCount (maxCount : Int) (uses : List (Use ρ)) : ((new maxCount).run uses).KeepsCount :=
  (new_run_consistent maxCount uses).keepsCount

end BaseLock

end Umbilical.Locks
