import Umbilical.Locks.Wakeups

set_option autoImplicit false

/-!
# Sleepers and their guards

A waiter that is woken for nothing waits again, and then nobody behind it is
walked. Those behind it need not be blocked themselves any more, but they sleep
behind somebody who is.
-/

namespace Umbilical.Locks.BaseLock

variable {ρ : Type} {lock after : BaseLock ρ}

/-- Whoever sleeps is blocked or sleeps behind somebody who is. -/
def Guarded (lock : BaseLock ρ) : Prop :=
  ∀ ahead waiter behind, lock.waiting = ahead ++ waiter :: behind → waiter.deferred ≠ none →
    ∃ front guard rest, ahead ++ [waiter] = front ++ guard :: rest ∧ guard.deferred ≠ none ∧ lock.Blocked front guard

theorem AllBlocked.guarded (blocked : lock.AllBlocked) : lock.Guarded :=
  fun ahead waiter behind place asleep => ⟨ahead, waiter, [], rfl, asleep, blocked ahead waiter behind place asleep⟩

variable [DecidableEq ρ] {owner : ρ}

/-- A requester joins the queue, or sleeps again at its place. -/
theorem Guarded.waited {access : LockAccess} {d : Deferred} (guarded : lock.Guarded)
    (change : Change lock (.waitUntilMaybeAvailable owner access d) after) : after.Guarded := by
  cases change with
  | unchanged => exact guarded
  | queued unavailable absent =>
    have unfit := isAvailable_eq_false.mp unavailable
    rcases lock.place_cases owner with ⟨_, all, _⟩ | ⟨waiter, place, same, _, _⟩
    · rw [all] at unfit
      intro ahead waiter behind split asleep
      rcases append_cons_cases split with ⟨between, before, _⟩ | ⟨rfl, rfl, _⟩ | ⟨between, _, empty⟩
      · obtain ⟨front, guard, rest, within, sleeps, blocked⟩ := guarded ahead waiter between before asleep
        exact ⟨front, guard, rest, within, sleeps, blocked⟩
      · exact ⟨_, _, [], rfl, asleep, .inl unfit⟩
      · simp at empty
    · exact absurd same (absent waiter (by rw [place]; simp))
  | @requeued _ _ _ original unavailable place same woken =>
    have unfit := isAvailable_eq_false.mp unavailable
    intro ahead waiter behind split asleep
    rcases append_cons_cases split with ⟨between, before, _⟩ | ⟨rfl, rfl, _⟩ | ⟨between, front, _⟩
    · obtain ⟨front, guard, rest, within, sleeps, blocked⟩ := guarded ahead waiter
        (between ++ original :: lock.behind owner) (place.trans (by rw [before]; simp)) asleep
      exact ⟨front, guard, rest, within, sleeps, blocked⟩
    · exact ⟨_, _, [], rfl, asleep, .inl unfit⟩
    · -- whoever is behind the requester has it for a guard
      exact ⟨lock.ahead owner, ⟨owner, access, some d⟩, between ++ [waiter], by rw [front]; simp, by simp, .inl unfit⟩

/-- A requester that is awake turns its entry into claims that are worth as much. -/
theorem Guarded.claimed (guarded : lock.Guarded) (consistent : lock.Consistent) (asking : Asking lock.waiting)
    (gone : after.waiting = (lock.without owner).waiting) (limit : after.maxCount = lock.maxCount)
    (excl : lock.claimedExcl ≤ after.claimedExcl) (counting : lock.claimedCounting ≤ after.claimedCounting)
    (worth : ∀ waiter ∈ lock.waiting, waiter.requester = owner → waiter.deferred = none ∧
      lock.claimedExcl + waiter.access.exclusiveUnits ≤ after.claimedExcl ∧
      lock.claimedCounting + waiter.access.countingUnits ≤ after.claimedCounting) : after.Guarded := by
  obtain ⟨started, started'⟩ := consistent.nonneg
  have less {ahead : List (Waiter ρ)} {waiter : Waiter ρ} (blocked : lock.Blocked ahead waiter) :
      after.Blocked ahead waiter := Blocked.of_less excl counting limit.le started started' blocked
  rcases lock.place_cases owner with ⟨_, _, absent⟩ | ⟨claimant, place, same, _, _⟩
  · have unchanged : after.waiting = lock.waiting :=
      gone.trans (List.filter_eq_self.mpr fun other member => by simpa using absent other member)
    intro ahead waiter behind split asleep
    obtain ⟨front, guard, rest, within, sleeps, blocked⟩ :=
      guarded ahead waiter behind (unchanged.symm.trans split) asleep
    exact ⟨front, guard, rest, within, sleeps, less blocked⟩
  · have here : claimant ∈ lock.waiting := by
      rw [place]
      simp
    obtain ⟨woken, worthExcl, worthCounting⟩ := worth claimant here same
    obtain ⟨valid, units⟩ := asking claimant here
    rw [without_waiting consistent place same] at gone
    -- the lock as if exactly the access of the entry had been claimed
    let claimed := lock.withOwner owner claimant.access
    have passed {ahead between : List (Waiter ρ)} {guard : Waiter ρ} (asking : Asking ahead)
        (blocked : lock.Blocked (ahead ++ claimant :: between) guard) : after.Blocked (ahead ++ between) guard := by
      have exact : claimed.Blocked (ahead ++ between) guard := Blocked.of_claim valid units withOwner_claimedExcl
        withOwner_claimedCounting withOwner_maxCount started started' asking blocked
      have := claimant.access.exclusiveUnits_nonneg
      have := valid.countingUnits_nonneg
      have excl' : claimed.claimedExcl = lock.claimedExcl + claimant.access.exclusiveUnits := withOwner_claimedExcl
      have counting' : claimed.claimedCounting = lock.claimedCounting + claimant.access.countingUnits :=
        withOwner_claimedCounting
      have limit' : claimed.maxCount = lock.maxCount := withOwner_maxCount
      exact Blocked.of_less (by omega) (by omega) (by omega) (by omega) (by omega) exact
    intro ahead waiter behind split asleep
    rcases append_cases (gone.symm.trans split) with ⟨between, before, _⟩ | ⟨between, rfl, later⟩
    · obtain ⟨front, guard, rest, within, sleeps, blocked⟩ := guarded ahead waiter
        (between ++ claimant :: lock.behind owner) (place.trans (by rw [before]; simp)) asleep
      exact ⟨front, guard, rest, within, sleeps, less blocked⟩
    · obtain ⟨front, guard, rest, within, sleeps, blocked⟩ := guarded (lock.ahead owner ++ claimant :: between) waiter
        behind (place.trans (by rw [later]; simp)) asleep
      have within' : lock.ahead owner ++ claimant :: (between ++ [waiter]) = front ++ guard :: rest := by
        simpa using within
      rcases append_cons_cases within' with ⟨middle, ahead, _⟩ | ⟨_, rfl, _⟩ | ⟨middle, rfl, rest'⟩
      · exact ⟨front, guard, middle ++ between ++ [waiter], by rw [ahead]; simp, sleeps, less blocked⟩
      · exact absurd woken sleeps
      · refine ⟨lock.ahead owner ++ middle, guard, rest, by rw [List.append_assoc, rest', List.append_assoc], sleeps, ?_⟩
        refine passed (fun other member => asking other ?_) blocked
        rw [place]
        exact List.mem_append_left _ member

omit [DecidableEq ρ] in
/-- The first sleeper of a queue without anybody woken could not take the lock. -/
theorem Guarded.first {waiter : Waiter ρ} {behind : List (Waiter ρ)} (guarded : lock.Guarded)
    (place : lock.waiting = waiter :: behind) (asleep : waiter.deferred ≠ none) : lock.Blocked [] waiter := by
  obtain ⟨front, guard, rest, within, sleeps, blocked⟩ := guarded [] waiter behind place asleep
  cases front with
  | nil =>
    obtain ⟨rfl, _⟩ := List.cons.inj within
    exact blocked
  | cons => simp at within

omit [DecidableEq ρ] in
/-- A lock that nobody owns blocks nobody at the head of its queue who asks for no more than there is. -/
theorem Consistent.not_blocked {waiter : Waiter ρ} (consistent : lock.Consistent) (unowned : lock.owners = [])
    (valid : waiter.access.Valid) (within : waiter.access.mode = .counting → waiter.access.count ≤ lock.maxCount)
    (units : waiter.access.count ≠ 0) : ¬ lock.Blocked [] waiter := by
  have excl : lock.claimedExcl = 0 := by simpa [unowned] using consistent.exclusive
  have counting : lock.claimedCounting = 0 := by simpa [unowned] using consistent.counting
  unfold LockAccess.Valid at valid
  rintro (unfit | ⟨woken, stop, rest, split, _, stops⟩)
  · refine unfit (.inr ⟨excl, ?_⟩)
    cases mode : waiter.access.mode with
    | counting => exact ⟨by simpa [counting] using within mode, nofun⟩
    | exclusive => exact ⟨counting, rfl⟩
  · cases woken with
    | cons => simp at split
    | nil =>
      obtain ⟨rfl, _⟩ := List.cons.inj split
      unfold Stops at stops
      cases mode : waiter.access.mode with
      | counting =>
        have := within mode
        simp only [mode, excl, counting, exclusiveSum, countingSum, List.map_nil, List.sum_nil] at stops valid
        omega
      | exclusive => simp [mode, excl, counting, exclusiveSum, countingSum] at stops

end Umbilical.Locks.BaseLock
