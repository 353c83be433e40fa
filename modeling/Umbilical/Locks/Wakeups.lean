import Umbilical.Locks.Bookkeeping
import Mathlib.Tactic.Positivity

set_option autoImplicit false

/-!
# Who sleeps beside a lock

A waiter is woken when the walk of the queue reaches it. Between two walks it may
sleep only if it could not take the lock, or if somebody ahead of it has been
woken and has not acted on it yet.
-/

namespace Umbilical.Locks

variable {ρ : Type} [DecidableEq ρ]

section Lists

variable {α : Type} {left right before after : List α} {x y : α}

/-- Where an element stands in a list that has another one marked. -/
theorem append_cons_cases (same : left ++ x :: right = before ++ y :: after) :
    (∃ between, left = before ++ y :: between ∧ after = between ++ x :: right) ∨
    (left = before ∧ x = y ∧ right = after) ∨
    ∃ between, before = left ++ x :: between ∧ right = between ++ y :: after := by
  rcases List.append_eq_append_iff.mp same with ⟨between, same', rest⟩ | ⟨between, same', rest⟩
  · cases between with
    | nil =>
      obtain ⟨rfl, rfl⟩ := List.cons.inj rest
      exact .inr (.inl ⟨by simpa using same'.symm, rfl, rfl⟩)
    | cons first between =>
      obtain ⟨rfl, rfl⟩ := List.cons.inj rest
      exact .inr (.inr ⟨between, same', rfl⟩)
  · cases between with
    | nil =>
      obtain ⟨rfl, rfl⟩ := List.cons.inj rest
      exact .inr (.inl ⟨by simpa using same', rfl, rfl⟩)
    | cons first between =>
      obtain ⟨rfl, rfl⟩ := List.cons.inj rest
      exact .inl ⟨between, same', rfl⟩

/-- The same where a place in the list is marked. -/
theorem append_cases (same : left ++ right = before ++ y :: after) :
    (∃ between, left = before ++ y :: between ∧ after = between ++ right) ∨
    ∃ between, before = left ++ between ∧ right = between ++ y :: after := by
  rcases List.append_eq_append_iff.mp same with ⟨between, same', rest⟩ | ⟨between, same', rest⟩
  · exact .inr ⟨between, same', rest⟩
  · cases between with
    | nil => exact .inr ⟨[], by simpa using same'.symm, rest.symm⟩
    | cons first between =>
      obtain ⟨rfl, rfl⟩ := List.cons.inj rest
      exact .inl ⟨between, same', rfl⟩

end Lists

/-- Units that entries of the queue would take. -/
def exclusiveSum (waiters : List (Waiter ρ)) : Int := (waiters.map fun waiter => waiter.access.exclusiveUnits).sum

def countingSum (waiters : List (Waiter ρ)) : Int := (waiters.map fun waiter => waiter.access.countingUnits).sum

namespace BaseLock

variable {lock : BaseLock ρ}

omit [DecidableEq ρ] in
/-- Availability behind a given part of the queue. -/
def Fits (lock : BaseLock ρ) (ahead : List (Waiter ρ)) (access : LockAccess) : Prop :=
  access.count = 0 ∨ lock.claimedExcl = 0 ∧
    match access.mode with
    | .counting => lock.claimedCounting + ahead.length + access.count ≤ lock.maxCount ∧
        ∀ waiter ∈ ahead, waiter.access.mode = .counting
    | .exclusive => lock.claimedCounting = 0 ∧ ahead = []

theorem isAvailable_iff {requester : ρ} {access : LockAccess} :
    lock.isAvailable requester access ↔ lock.Fits (lock.ahead requester) access := by
  unfold isAvailable Fits
  by_cases zero : access.count = 0
  · simp [zero]
  · cases access.mode <;> simp [zero]

theorem isAvailable_eq_false {requester : ρ} {access : LockAccess} :
    lock.isAvailable requester access = false ↔ ¬ lock.Fits (lock.ahead requester) access := by
  rw [← isAvailable_iff, Bool.not_eq_true]

/-- The part of the queue ahead of an entry, where no requester has two. -/
theorem ahead_eq {ahead behind : List (Waiter ρ)} {waiter : Waiter ρ}
    (placed : Keyed.Distinct Waiter.requester lock.waiting) (place : lock.waiting = ahead ++ waiter :: behind) :
    lock.ahead waiter.requester = ahead ∧ lock.behind waiter.requester = behind := by
  rcases lock.place_cases waiter.requester with ⟨_, _, absent⟩ | ⟨other, place', same, _, _⟩
  · exact absurd rfl (absent waiter (by simp [place]))
  · have : other = waiter := placed.eq_of_key (by rw [place']; simp) (by simp [place]) same
    subst this
    have whole := place.symm.trans place'
    rcases append_cons_cases whole with ⟨between, rfl, _⟩ | ⟨rfl, _, rfl⟩ | ⟨between, same, _⟩
    · unfold Keyed.Distinct at placed
      simp [place, List.nodup_append] at placed
    · exact ⟨rfl, rfl⟩
    · unfold Keyed.Distinct at placed
      rw [place', same] at placed
      simp [List.nodup_append] at placed

omit [DecidableEq ρ] in
/-- An entry that nothing needs to wake: it could not take the lock, or the walk breaks off at or before it
and everything before the break has been woken. -/
def Blocked (lock : BaseLock ρ) (ahead : List (Waiter ρ)) (waiter : Waiter ρ) : Prop :=
  ¬ lock.Fits ahead waiter.access ∨
    ∃ woken stop rest, ahead ++ [waiter] = woken ++ stop :: rest ∧ (∀ other ∈ woken, other.deferred = none) ∧
      lock.Stops (lock.claimedExcl + exclusiveSum woken) (lock.claimedCounting + countingSum woken) stop

omit [DecidableEq ρ] in
/-- The accesses of a queue that are valid and ask for something. -/
def Asking (waiting : List (Waiter ρ)) : Prop := ∀ waiter ∈ waiting, waiter.access.Valid ∧ waiter.access.count ≠ 0

omit [DecidableEq ρ] in
/-- Whoever sleeps is blocked. -/
def AllBlocked (lock : BaseLock ρ) : Prop :=
  ∀ ahead waiter behind, lock.waiting = ahead ++ waiter :: behind → waiter.deferred ≠ none →
    lock.Blocked ahead waiter

omit [DecidableEq ρ] in
structure Alert (lock : BaseLock ρ) : Prop where
  valid : Asking lock.waiting
  blocked : lock.AllBlocked

section Growth

omit [DecidableEq ρ]

variable {after : BaseLock ρ}

theorem Stops.of_less (limit : after.maxCount ≤ lock.maxCount) {numExcl numCounting numExcl' numCounting' : Int}
    {waiter : Waiter ρ} (moreExcl : numExcl ≤ numExcl') (moreCounting : numCounting ≤ numCounting')
    (stops : lock.Stops numExcl numCounting waiter) : after.Stops numExcl' numCounting' waiter := by
  unfold Stops at stops ⊢
  cases mode : waiter.access.mode <;> simp only [mode] at stops ⊢ <;> omega

variable (excl : lock.claimedExcl ≤ after.claimedExcl) (counting : lock.claimedCounting ≤ after.claimedCounting)
  (limit : after.maxCount ≤ lock.maxCount) (started : 0 ≤ lock.claimedExcl) (started' : 0 ≤ lock.claimedCounting)
include excl counting limit started started'

theorem Fits.of_more {ahead : List (Waiter ρ)} {access : LockAccess} (fits : after.Fits ahead access) :
    lock.Fits ahead access := by
  rcases fits with zero | ⟨free, rest⟩
  · exact .inl zero
  · refine .inr ⟨by omega, ?_⟩
    cases mode : access.mode <;> simp only [mode] at rest ⊢
    · exact ⟨by omega, rest.2⟩
    · exact ⟨by omega, rest.2⟩

theorem Blocked.of_less {ahead : List (Waiter ρ)} {waiter : Waiter ρ} (blocked : lock.Blocked ahead waiter) :
    after.Blocked ahead waiter := by
  rcases blocked with unfit | ⟨woken, stop, rest, place, all, stops⟩
  · exact .inl fun fits => unfit (Fits.of_more excl counting limit started started' fits)
  · exact .inr ⟨woken, stop, rest, place, all, Stops.of_less limit (by omega) (by omega) stops⟩

end Growth

omit [DecidableEq ρ] in
/-- After the walk whoever still sleeps is at or behind the break. -/
theorem wakeFrom_blocked (lock : BaseLock ρ) {numExcl numCounting : Int} {waiting ahead behind : List (Waiter ρ)}
    {waiter : Waiter ρ} (valid : ∀ waiter ∈ waiting, waiter.access.Valid)
    (place : (lock.wakeFrom numExcl numCounting waiting).1 = ahead ++ waiter :: behind)
    (asleep : waiter.deferred ≠ none) :
    ∃ woken stop rest, ahead ++ [waiter] = woken ++ stop :: rest ∧ (∀ other ∈ woken, other.deferred = none) ∧
      lock.Stops (numExcl + exclusiveSum woken) (numCounting + countingSum woken) stop := by
  induction waiting generalizing numExcl numCounting ahead with
  | nil => simp [wakeFrom] at place
  | cons first rest ih =>
    unfold wakeFrom at place
    split_ifs at place with stops
    · -- the walk breaks off at the first entry
      let none : List (Waiter ρ) := []
      have here : lock.Stops (numExcl + exclusiveSum none) (numCounting + countingSum none) first := by
        simpa [none, exclusiveSum, countingSum] using stops
      cases ahead with
      | nil =>
        obtain ⟨rfl, _⟩ := List.cons.inj place
        exact ⟨[], first, [], rfl, nofun, here⟩
      | cons head ahead =>
        obtain ⟨rfl, _⟩ := List.cons.inj place
        exact ⟨[], first, ahead ++ [waiter], rfl, nofun, here⟩
    · cases ahead with
      | nil =>
        obtain ⟨rfl, _⟩ := List.cons.inj place
        exact absurd rfl asleep
      | cons head ahead =>
        have onward := valid first (by simp)
        have further := fun other member => valid other (List.mem_cons_of_mem first member)
        unfold LockAccess.Valid at onward
        cases mode : first.access.mode <;> simp only [mode] at place onward
        · obtain ⟨rfl, later⟩ := List.cons.inj place
          obtain ⟨woken, stop, remaining, same, all, stops'⟩ := ih further later
          refine ⟨_ :: woken, stop, remaining, by rw [List.cons_append, same]; rfl, ?_, ?_⟩
          · rintro other (_ | ⟨_, member⟩)
            · rfl
            · exact all other member
          · simpa [exclusiveSum, countingSum, LockAccess.exclusiveUnits, LockAccess.countingUnits, mode,
              add_assoc] using stops'
        · obtain ⟨rfl, later⟩ := List.cons.inj place
          obtain ⟨woken, stop, remaining, same, all, stops'⟩ := ih further later
          refine ⟨_ :: woken, stop, remaining, by rw [List.cons_append, same]; rfl, ?_, ?_⟩
          · rintro other (_ | ⟨_, member⟩)
            · rfl
            · exact all other member
          · simpa [exclusiveSum, countingSum, LockAccess.exclusiveUnits, LockAccess.countingUnits, mode, onward,
              add_assoc] using stops'

omit [DecidableEq ρ] in
theorem tryWakeUp_accesses (lock : BaseLock ρ) :
    lock.tryWakeUp.1.waiting.map Waiter.access = lock.waiting.map Waiter.access := by
  have kept := congrArg (List.map Prod.snd)
    (lock.wakeFrom_waiting lock.claimedExcl lock.claimedCounting lock.waiting)
  rw [List.map_map, List.map_map] at kept
  exact kept

omit [DecidableEq ρ] in
theorem Asking.tryWakeUp {lock : BaseLock ρ} (asking : Asking lock.waiting) : Asking lock.tryWakeUp.1.waiting := by
  intro waiter member
  have kept : waiter.access ∈ lock.waiting.map Waiter.access := by
    rw [← tryWakeUp_accesses]
    exact List.mem_map_of_mem member
  obtain ⟨original, among, same⟩ := List.mem_map.mp kept
  rw [← same]
  exact asking original among

omit [DecidableEq ρ] in
theorem Asking.alert_tryWakeUp {lock : BaseLock ρ} (asking : Asking lock.waiting) : lock.tryWakeUp.1.Alert where
  valid := asking.tryWakeUp
  blocked _ _ _ place asleep :=
    .inr (lock.wakeFrom_blocked (fun other member => (asking other member).1) place asleep)

section Claims

omit [DecidableEq ρ]

variable {ahead between : List (Waiter ρ)} {claimant waiter : Waiter ρ}

theorem exclusiveSum_append (left right : List (Waiter ρ)) :
    exclusiveSum (left ++ right) = exclusiveSum left + exclusiveSum right := by simp [exclusiveSum]

theorem countingSum_append (left right : List (Waiter ρ)) :
    countingSum (left ++ right) = countingSum left + countingSum right := by simp [countingSum]

@[simp] theorem exclusiveSum_cons (waiter : Waiter ρ) (rest : List (Waiter ρ)) :
    exclusiveSum (waiter :: rest) = waiter.access.exclusiveUnits + exclusiveSum rest := by simp [exclusiveSum]

@[simp] theorem countingSum_cons (waiter : Waiter ρ) (rest : List (Waiter ρ)) :
    countingSum (waiter :: rest) = waiter.access.countingUnits + countingSum rest := by simp [countingSum]

theorem exclusiveSum_nonneg (waiters : List (Waiter ρ)) : 0 ≤ exclusiveSum waiters := by
  refine List.sum_nonneg fun units member => ?_
  obtain ⟨waiter, _, rfl⟩ := List.mem_map.mp member
  exact waiter.access.exclusiveUnits_nonneg

theorem Asking.countingSum_nonneg {waiters : List (Waiter ρ)} (asking : Asking waiters) : 0 ≤ countingSum waiters := by
  refine List.sum_nonneg fun units member => ?_
  obtain ⟨waiter, among, rfl⟩ := List.mem_map.mp member
  exact (asking waiter among).1.countingUnits_nonneg

/-- A place in the queue and the units it stands for are worth no more than the units claimed. -/
theorem Fits.of_claim {after : BaseLock ρ} (valid : claimant.access.Valid) (some : claimant.access.count ≠ 0)
    (excl : after.claimedExcl = lock.claimedExcl + claimant.access.exclusiveUnits)
    (counting : after.claimedCounting = lock.claimedCounting + claimant.access.countingUnits)
    (limit : after.maxCount = lock.maxCount) (started : 0 ≤ lock.claimedExcl) (started' : 0 ≤ lock.claimedCounting)
    {access : LockAccess} (fits : after.Fits (ahead ++ between) access) :
    lock.Fits (ahead ++ claimant :: between) access := by
  have units := valid.units some
  rcases fits with zero | ⟨free, rest⟩
  · exact .inl zero
  · refine .inr ⟨by omega, ?_⟩
    have shared : claimant.access.mode = .counting := by
      cases mode : claimant.access.mode with
      | counting => rfl
      | exclusive =>
        simp only [LockAccess.exclusiveUnits, mode] at excl
        omega
    cases mode : access.mode <;> simp only [mode] at rest ⊢
    · obtain ⟨room, all⟩ := rest
      simp only [List.length_append, List.length_cons] at room ⊢
      refine ⟨by push_cast at room ⊢; omega, ?_⟩
      intro other member
      simp only [List.mem_append, List.mem_cons] at member all
      rcases member with before | rfl | behind
      · exact all other (.inl before)
      · exact shared
      · exact all other (.inr behind)
    · omega

/-- The walk still breaks off for whoever is behind an entry that turned into a claim. -/
theorem Blocked.of_claim {after : BaseLock ρ} (valid : claimant.access.Valid) (some : claimant.access.count ≠ 0)
    (excl : after.claimedExcl = lock.claimedExcl + claimant.access.exclusiveUnits)
    (counting : after.claimedCounting = lock.claimedCounting + claimant.access.countingUnits)
    (limit : after.maxCount = lock.maxCount) (started : 0 ≤ lock.claimedExcl) (started' : 0 ≤ lock.claimedCounting)
    (asking : Asking ahead) (blocked : lock.Blocked (ahead ++ claimant :: between) waiter) :
    after.Blocked (ahead ++ between) waiter := by
  have units := valid.units some
  rcases blocked with unfit | ⟨woken, stop, rest, place, all, stops⟩
  · exact .inl fun fits => unfit (Fits.of_claim valid some excl counting limit started started' fits)
  have place' : ahead ++ claimant :: (between ++ [waiter]) = woken ++ stop :: rest := by simpa using place
  right
  rcases append_cons_cases place' with ⟨middle, rfl, rfl⟩ | ⟨rfl, rfl, rfl⟩ | ⟨middle, rfl, same⟩
  · -- the break is ahead of the claimant
    refine ⟨woken, stop, middle ++ between ++ [waiter], by simp, all, ?_⟩
    exact Stops.of_less (by omega) (by omega) (by omega) stops
  · -- the claimant is the break, and passes it on to the next entry
    obtain ⟨next, rest, same⟩ := List.exists_cons_of_ne_nil (List.append_ne_nil_of_right_ne_nil between (List.cons_ne_nil waiter []))
    refine ⟨ahead, next, rest, by simp [same], all, ?_⟩
    have held := asking.countingSum_nonneg
    have held' := exclusiveSum_nonneg ahead
    unfold Stops LockAccess.exclusiveUnits LockAccess.countingUnits at *
    cases mode : claimant.access.mode <;> cases next.access.mode <;>
      simp only [mode] at stops units excl counting ⊢ <;> omega
  · -- the claimant is before the break
    refine ⟨ahead ++ middle, stop, rest, by simp [same], ?_, ?_⟩
    · intro other member
      exact all other (by simp only [List.mem_append, List.mem_cons] at member ⊢; tauto)
    · have sums : after.claimedExcl + exclusiveSum (ahead ++ middle) =
          lock.claimedExcl + exclusiveSum (ahead ++ claimant :: middle) ∧
          after.claimedCounting + countingSum (ahead ++ middle) =
            lock.claimedCounting + countingSum (ahead ++ claimant :: middle) := by
        simp only [exclusiveSum_append, countingSum_append, exclusiveSum_cons, countingSum_cons]
        omega
      exact Stops.of_less (by omega) (by omega) (by omega) stops

end Claims

/-- Whoever sleeps in this part of the queue could not take the lock. -/
def Rest (lock : BaseLock ρ) (waiting : List (Waiter ρ)) : Prop :=
  ∀ waiter ∈ waiting, waiter.deferred ≠ none → lock.isAvailable waiter.requester waiter.access = false

instance (waiting : List (Waiter ρ)) : Decidable (lock.Rest waiting) :=
  inferInstanceAs (Decidable (∀ waiter ∈ waiting, waiter.deferred ≠ none → lock.isAvailable waiter.requester _ = false))

/-- The entry of a requester that waits again. -/
def requeue (lock : BaseLock ρ) (requester : ρ) (access : LockAccess) (d : Deferred) : BaseLock ρ :=
  { lock with waiting := lock.ahead requester ++ ⟨requester, access, some d⟩ :: lock.behind requester }

/-- A waiter that leaves the queue asleep, that has been woken and waits again, or that claims another access
than the one it waits for, leaves nobody asleep behind it who could now take the lock. -/
def Considerate (lock : BaseLock ρ) : Use ρ → Prop
  | .claim owner access => lock.isAvailable owner access → access.Valid → access.count ≠ 0 →
      ∀ waiter ∈ lock.waiting, waiter.requester = owner →
        ¬ (waiter.access.mode = access.mode ∧ waiter.access.count = access.count) →
          ((lock.without owner).withOwner owner access).Rest (lock.behind owner)
  | .waitUntilMaybeAvailable owner access d => access.Valid ∧
      ∀ waiter ∈ lock.waiting, waiter.requester = owner → waiter.deferred = none →
        lock.isAvailable owner access = false → (lock.requeue owner access d).Rest (lock.behind owner)
  | .stopWaitingUntilAvailable owner _ _ =>
      ∀ waiter ∈ lock.waiting, waiter.requester = owner → waiter.deferred ≠ none →
        (lock.without owner).Rest (lock.behind owner)
  | .release _ _ | .setMaxCount _ => True

instance : (use : Use ρ) → Decidable (lock.Considerate use)
  | .claim _ _ | .waitUntilMaybeAvailable _ _ _ | .stopWaitingUntilAvailable _ _ _ => by
      unfold Considerate
      infer_instance
  | .release _ _ | .setMaxCount _ => .isTrue trivial

/-- An available waiter that sleeps has somebody ahead of it who has been woken and is still to act. -/
def NoLostWakeup (lock : BaseLock ρ) : Prop :=
  ∀ ahead waiter behind, lock.waiting = ahead ++ waiter :: behind → waiter.deferred ≠ none →
    lock.isAvailable waiter.requester waiter.access → ∃ other ∈ ahead, other.deferred = none

omit [DecidableEq ρ] in
theorem Consistent.nonneg (consistent : lock.Consistent) : 0 ≤ lock.claimedExcl ∧ 0 ≤ lock.claimedCounting := by
  constructor
  · rcases consistent.apart with zero | ⟨one, _⟩ <;> omega
  · rw [consistent.counting]
    refine List.sum_nonneg fun units member => ?_
    obtain ⟨owner, among, rfl⟩ := List.mem_map.mp member
    exact (consistent.owned owner among).1.countingUnits_nonneg

theorem Alert.noLostWakeup (alert : lock.Alert) (consistent : lock.Consistent) : lock.NoLostWakeup := by
  intro ahead waiter behind place asleep available
  obtain ⟨valid, some⟩ := alert.valid waiter (by simp [place])
  rw [isAvailable_iff, (ahead_eq consistent.placed place).1] at available
  rcases alert.blocked ahead waiter behind place asleep with unfit | ⟨woken, stop, rest, same, all, stops⟩
  · exact absurd available unfit
  cases woken with
  | cons first woken =>
    -- the first entry of the queue has been woken, and is not the waiter
    cases ahead with
    | nil =>
      obtain ⟨rfl, _⟩ := List.cons.inj same
      exact absurd (all waiter (by simp)) asleep
    | cons head ahead =>
      obtain ⟨rfl, _⟩ := List.cons.inj same
      exact ⟨head, by simp, all head (by simp)⟩
  | nil =>
    -- the walk breaks off at the first entry, so nothing behind it fits either
    exfalso
    have units := valid.units some
    rcases available with zero | ⟨free, room⟩
    · exact some zero
    have none : exclusiveSum ([] : List (Waiter ρ)) = 0 ∧ countingSum ([] : List (Waiter ρ)) = 0 := ⟨rfl, rfl⟩
    unfold Stops LockAccess.exclusiveUnits LockAccess.countingUnits at *
    cases ahead with
    | nil =>
      obtain ⟨rfl, _⟩ := List.cons.inj same
      cases mode : waiter.access.mode <;> simp only [mode] at room stops units
      · simp only [List.length_nil] at room
        omega
      · omega
    | cons head ahead =>
      obtain ⟨rfl, _⟩ := List.cons.inj same
      cases mode : waiter.access.mode <;> simp only [mode] at room stops units
      · have shared := room.2 head (by simp)
        simp only [shared, List.length_cons] at stops room
        omega
      · cases room.2

/-- Whoever is ahead of a change in the queue sees no difference, and whoever is behind it rests. -/
theorem Rest.allBlocked {after : BaseLock ρ} {front behind : List (Waiter ρ)}
    (placed : Keyed.Distinct Waiter.requester after.waiting) (place : after.waiting = front ++ behind)
    (rest : after.Rest behind)
    (before : ∀ ahead waiter between, front = ahead ++ waiter :: between → waiter.deferred ≠ none →
      after.Blocked ahead waiter) : after.AllBlocked := by
  intro ahead waiter last split asleep
  rcases append_cases (place.symm.trans split) with ⟨between, same, _⟩ | ⟨between, rfl, rfl⟩
  · exact before ahead waiter between same asleep
  · left
    have unavailable := rest waiter (by simp) asleep
    rwa [isAvailable_eq_false, (ahead_eq placed split).1] at unavailable

theorem Alert.claimed {owner : ρ} {access : LockAccess} (alert : lock.Alert) (consistent : lock.Consistent)
    (considerate : lock.Considerate (.claim owner access)) (available : lock.isAvailable owner access)
    (valid : access.Valid) (some : access.count ≠ 0) : ((lock.without owner).withOwner owner access).Alert where
  valid := by
    intro waiter member
    rw [withOwner_waiting] at member
    exact alert.valid waiter (List.mem_of_mem_filter member)
  blocked := by
    obtain ⟨started, started'⟩ := consistent.nonneg
    have kept := (consistent.withOwner available valid some).placed
    have excl : ((lock.without owner).withOwner owner access).claimedExcl = lock.claimedExcl + access.exclusiveUnits :=
      withOwner_claimedExcl
    have counting : ((lock.without owner).withOwner owner access).claimedCounting =
        lock.claimedCounting + access.countingUnits := withOwner_claimedCounting
    have limit : ((lock.without owner).withOwner owner access).maxCount = lock.maxCount := withOwner_maxCount
    have less {ahead : List (Waiter ρ)} {waiter : Waiter ρ} (blocked : lock.Blocked ahead waiter) :
        ((lock.without owner).withOwner owner access).Blocked ahead waiter := by
      have := access.exclusiveUnits_nonneg
      have := valid.countingUnits_nonneg
      exact Blocked.of_less (by omega) (by omega) (by omega) started started' blocked
    rcases lock.place_cases owner with ⟨_, _, absent⟩ | ⟨claimant, place, same, _, _⟩
    · have unchanged : (lock.without owner).waiting = lock.waiting :=
        List.filter_eq_self.mpr fun other member => by simpa using absent other member
      intro ahead waiter behind split asleep
      rw [withOwner_waiting, unchanged] at split
      exact less (alert.blocked ahead waiter behind split asleep)
    · have queue : ((lock.without owner).withOwner owner access).waiting = lock.ahead owner ++ lock.behind owner := by
        rw [withOwner_waiting, without_waiting consistent place same]
      have front (ahead : List (Waiter ρ)) (waiter : Waiter ρ) (between : List (Waiter ρ))
          (split : lock.ahead owner = ahead ++ waiter :: between) (asleep : waiter.deferred ≠ none) :
          ((lock.without owner).withOwner owner access).Blocked ahead waiter :=
        less (alert.blocked ahead waiter (between ++ claimant :: lock.behind owner)
          (place.trans (by rw [split]; simp)) asleep)
      by_cases asked : claimant.access.mode = access.mode ∧ claimant.access.count = access.count
      · intro ahead waiter behind split asleep
        rcases append_cases (queue.symm.trans split) with ⟨between, front', _⟩ | ⟨between, rfl, later⟩
        · exact front ahead waiter between front' asleep
        · have blocked := alert.blocked (lock.ahead owner ++ claimant :: between) waiter behind
            (place.trans (by rw [later]; simp)) asleep
          obtain ⟨claimValid, claimSome⟩ := alert.valid claimant (by rw [place]; simp)
          have units : access.exclusiveUnits = claimant.access.exclusiveUnits ∧
              access.countingUnits = claimant.access.countingUnits := by
            simp [LockAccess.exclusiveUnits, LockAccess.countingUnits, asked]
          refine Blocked.of_claim claimValid claimSome (by rw [excl, units.1]) (by rw [counting, units.2]) limit
            started started' (fun other member => alert.valid other ?_) blocked
          rw [place]
          exact List.mem_append_left _ member
      · exact (considerate available valid some claimant (by rw [place]; simp) same asked).allBlocked kept queue front

/-- What every considerate call preserves. -/
theorem Alert.change {use : Use ρ} {after : BaseLock ρ} (alert : lock.Alert) (consistent : lock.Consistent)
    (considerate : lock.Considerate use) (change : Change lock use after) : after.Alert := by
  have kept := consistent.change change
  have asks {owner : ρ} {access : LockAccess} (unavailable : lock.isAvailable owner access = false) :
      access.count ≠ 0 := by
    intro zero
    simp [isAvailable, zero] at unavailable
  cases change with
  | unchanged => exact alert
  | claimed available valid some => exact alert.claimed consistent considerate available valid some
  | @released owner access owned some =>
    have asking : Asking (lock.withoutOwner owner access).waiting := by
      rw [withoutOwner_waiting]
      exact alert.valid
    exact asking.alert_tryWakeUp
  | @queued owner access d unavailable absent =>
    have unfit := isAvailable_eq_false.mp unavailable
    rcases lock.place_cases owner with ⟨_, all, _⟩ | ⟨waiter, place, same, _, _⟩
    · rw [all] at unfit
      constructor
      · intro waiter member
        rcases List.mem_append.mp member with before | new
        · exact alert.valid waiter before
        · obtain rfl := List.mem_singleton.mp new
          exact ⟨considerate.1, asks unavailable⟩
      · intro ahead waiter behind split asleep
        rcases append_cons_cases split with ⟨between, before, _⟩ | ⟨rfl, rfl, _⟩ | ⟨between, _, empty⟩
        · exact alert.blocked ahead waiter between before asleep
        · exact .inl unfit
        · simp at empty
    · exact absurd same (absent waiter (by rw [place]; simp))
  | @requeued owner access d waiter unavailable place same woken =>
    have unfit := isAvailable_eq_false.mp unavailable
    have rest := considerate.2 waiter (by rw [place]; simp) same woken unavailable
    constructor
    · intro other member
      simp only [List.mem_append, List.mem_cons] at member
      rcases member with ahead | rfl | behind
      · exact alert.valid other (by rw [place]; simp [ahead])
      · exact ⟨considerate.1, asks unavailable⟩
      · exact alert.valid other (by rw [place]; simp [behind])
    · refine @Rest.allBlocked _ _ _ (lock.ahead owner ++ [⟨owner, access, some d⟩]) _ kept.placed (by simp) rest
        fun ahead other between split asleep => ?_
      rcases append_cons_cases split with ⟨between', before, _⟩ | ⟨rfl, rfl, _⟩ | ⟨between', _, empty⟩
      · exact alert.blocked ahead other (between' ++ waiter :: lock.behind owner)
          (place.trans (by rw [before]; simp)) asleep
      · exact .inl unfit
      · simp at empty
  | @leftAsleep owner access d waiter place same asleep =>
    have rest := considerate waiter (by rw [place]; simp) same (by simp [asleep])
    have queue := without_waiting consistent place same
    have whole : lock.without owner = { lock with waiting := lock.ahead owner ++ lock.behind owner } := by
      rw [← queue]
      rfl
    rw [← whole] at kept ⊢
    constructor
    · exact fun other member => alert.valid other (List.mem_of_mem_filter member)
    · exact rest.allBlocked kept.placed queue fun ahead other between split asleep =>
        alert.blocked ahead other (between ++ waiter :: lock.behind owner)
          (place.trans (by rw [split]; simp)) asleep
  | @leftWoken owner access d waiter place same woken =>
    have asking : Asking ({ lock with waiting := lock.ahead owner ++ lock.behind owner } : BaseLock ρ).waiting := by
      intro other member
      refine alert.valid other ?_
      rw [place]
      simp only [List.mem_append, List.mem_cons] at member ⊢
      tauto
    exact asking.alert_tryWakeUp
  | @raised count more =>
    have asking : Asking ({ lock with maxCount := count } : BaseLock ρ).waiting := alert.valid
    exact asking.alert_tryWakeUp
  | @lowered count less =>
    obtain ⟨started, started'⟩ := consistent.nonneg
    have blocked : ({ lock with maxCount := count } : BaseLock ρ).AllBlocked :=
      fun ahead waiter behind place asleep =>
        Blocked.of_less (by exact le_rfl) (by exact le_rfl) (by exact less) started started'
          (alert.blocked ahead waiter behind place asleep)
    exact ⟨alert.valid, blocked⟩

omit [DecidableEq ρ] in
theorem new_alert (maxCount : Int) : (new maxCount : BaseLock ρ).Alert where
  valid := nofun
  blocked := by
    intro ahead waiter behind place
    simp [new] at place

/-- A sequence of calls, each of them considerate where it is made. -/
def Considerately (lock : BaseLock ρ) : List (Use ρ) → Prop
  | [] => True
  | use :: rest => lock.Considerate use ∧ (lock.perform use).Considerately rest

def decideConsiderately : (lock : BaseLock ρ) → (uses : List (Use ρ)) → Decidable (lock.Considerately uses)
  | _, [] => .isTrue trivial
  | lock, use :: rest =>
      have := decideConsiderately (lock.perform use) rest
      inferInstanceAs (Decidable (_ ∧ _))

instance (uses : List (Use ρ)) : Decidable (lock.Considerately uses) := decideConsiderately lock uses

theorem Alert.run {uses : List (Use ρ)} (alert : lock.Alert) (consistent : lock.Consistent)
    (considerately : lock.Considerately uses) : (lock.run uses).Alert := by
  induction uses generalizing lock with
  | nil => exact alert
  | cons use rest ih =>
    obtain ⟨now, later⟩ := considerately
    exact ih (alert.change consistent now (lock.perform_change use)) (consistent.perform use) later

theorem Considerately.of_prefix {past uses : List (Use ρ)} (considerately : lock.Considerately uses)
    (within : past <+: uses) : lock.Considerately past := by
  induction past generalizing lock uses with
  | nil => trivial
  | cons use past ih =>
    obtain ⟨rest, rfl⟩ := within
    exact ⟨considerately.1, ih considerately.2 ⟨rest, rfl⟩⟩

/-- Callers run into no assertion. -/
def Accepts (lock : BaseLock ρ) : List (Use ρ) → Bool
  | [] => true
  | use :: rest =>
      (match use with
        | .claim owner access => (lock.claim owner access).isOk
        | .waitUntilMaybeAvailable owner access d => (lock.waitUntilMaybeAvailable owner access d).isOk
        | .stopWaitingUntilAvailable owner access d => (lock.stopWaitingUntilAvailable owner access d).isOk
        | .release _ _ | .setMaxCount _ => true) && (lock.perform use).Accepts rest

section Instances

def oneOf (count : Int) : LockAccess := ⟨.masterLock "database" 2, .counting, count⟩

def onlyOne : LockAccess := ⟨.masterLock "database" 2, .exclusive, 1⟩

/-- One owner holds a unit of two, an exclusive waiter and a counting one queue up, and are woken in turn. -/
def wokenInTurn : List (Use Nat) :=
  [.claim 0 (oneOf 1), .waitUntilMaybeAvailable 1 onlyOne 0, .waitUntilMaybeAvailable 2 (oneOf 1) 1,
    .release 0 (oneOf 1), .stopWaitingUntilAvailable 1 onlyOne 0]

/-- The exclusive waiter gives up before it is woken. -/
def leftAsleep : List (Use Nat) :=
  [.claim 0 (oneOf 1), .waitUntilMaybeAvailable 1 onlyOne 0, .waitUntilMaybeAvailable 2 (oneOf 1) 1,
    .stopWaitingUntilAvailable 1 onlyOne 0]

end Instances

end BaseLock

end Umbilical.Locks
