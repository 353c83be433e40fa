import Umbilical.Locks.Bookkeeping

set_option autoImplicit false

/-!
# Places in the queue

What each operation does to the places of requesters and to the deferreds that
are still pending.
-/

namespace Umbilical.Locks.BaseLock

variable {ρ : Type}

def Queued (lock : BaseLock ρ) (requester : ρ) : Prop := ∃ waiter ∈ lock.waiting, waiter.requester = requester

def Asleep (lock : BaseLock ρ) (requester : ρ) (d : Deferred) : Prop :=
  ∃ waiter ∈ lock.waiting, waiter.requester = requester ∧ waiter.deferred = some d

instance [DecidableEq ρ] (lock : BaseLock ρ) (requester : ρ) : Decidable (lock.Queued requester) :=
  inferInstanceAs (Decidable (∃ waiter ∈ lock.waiting, waiter.requester = requester))

/-- No deferred is pending twice. -/
def Solitary (lock : BaseLock ρ) : Prop :=
  ∀ first second d, lock.Asleep first d → lock.Asleep second d → first = second

variable {lock after : BaseLock ρ} {self requester : ρ} {caller : Option ρ} {access : LockAccess}
  {d d' : Deferred} {woken : List Deferred}

theorem Asleep.queued (asleep : lock.Asleep requester d) : lock.Queued requester := by
  obtain ⟨waiter, member, same, _⟩ := asleep
  exact ⟨waiter, member, same⟩

/-- The walk wakes a first part of the queue. -/
theorem wakeFrom_eq (lock : BaseLock ρ) (numExcl numCounting : Int) (waiting : List (Waiter ρ)) :
    ∃ reached rest, waiting = reached ++ rest ∧
      lock.wakeFrom numExcl numCounting waiting =
        (reached.map (fun waiter => { waiter with deferred := none }) ++ rest, reached.filterMap Waiter.deferred) := by
  induction waiting generalizing numExcl numCounting with
  | nil => exact ⟨[], [], rfl, rfl⟩
  | cons waiter waiting ih =>
    unfold wakeFrom
    split_ifs with stops
    · exact ⟨[], waiter :: waiting, rfl, rfl⟩
    · cases waiter.access.mode with
      | counting =>
        obtain ⟨reached, rest, rfl, walk⟩ := ih numExcl (numCounting + waiter.access.count)
        refine ⟨waiter :: reached, rest, rfl, ?_⟩
        simp only [walk]
        cases pending : waiter.deferred <;> simp [pending]
      | exclusive =>
        obtain ⟨reached, rest, rfl, walk⟩ := ih (numExcl + waiter.access.count) numCounting
        refine ⟨waiter :: reached, rest, rfl, ?_⟩
        simp only [walk]
        cases pending : waiter.deferred <;> simp [pending]

/-- An operation that puts nobody into the queue: who still sleeps slept before, who is woken slept before,
and nobody but the caller leaves. -/
structure Quieter (caller : Option ρ) (before after : BaseLock ρ) (woken : List Deferred) : Prop where
  queued : ∀ requester, after.Queued requester → before.Queued requester
  asleep : ∀ requester d, after.Asleep requester d → before.Asleep requester d ∧ d ∉ woken
  woke : ∀ d ∈ woken, ∃ requester, before.Asleep requester d
  kept : ∀ requester d, some requester ≠ caller → before.Asleep requester d → after.Asleep requester d ∨ d ∈ woken

theorem Quieter.refl (caller : Option ρ) (lock : BaseLock ρ) : lock.Quieter caller lock [] where
  queued _ queued := queued
  asleep _ _ asleep := ⟨asleep, List.not_mem_nil⟩
  woke := nofun
  kept _ _ _ asleep := .inl asleep

theorem Quieter.of_waiting (same : after.waiting = lock.waiting) : lock.Quieter caller after [] := by
  have unchanged := Quieter.refl caller lock
  constructor <;> simp_all [Queued, Asleep]

theorem Quieter.trans {between : BaseLock ρ} {later : List Deferred} (first : lock.Quieter caller between woken)
    (second : between.Quieter caller after later) : lock.Quieter caller after (woken ++ later) where
  queued requester queued := first.queued requester (second.queued requester queued)
  asleep requester d asleep := by
    obtain ⟨still, notLater⟩ := second.asleep requester d asleep
    obtain ⟨before, notWoken⟩ := first.asleep requester d still
    exact ⟨before, by simp [notLater, notWoken]⟩
  woke d member := by
    rcases List.mem_append.mp member with now | later
    · exact first.woke d now
    · obtain ⟨requester, asleep⟩ := second.woke d later
      exact ⟨requester, (first.asleep requester d asleep).1⟩
  kept requester d other asleep := by
    rcases first.kept requester d other asleep with still | now
    · rcases second.kept requester d other still with still | later
      · exact .inl still
      · exact .inr (List.mem_append_right _ later)
    · exact .inr (List.mem_append_left _ now)

theorem Solitary.quieter (solitary : lock.Solitary) (quieter : lock.Quieter caller after woken) : after.Solitary :=
  fun first second d asleep asleep' =>
    solitary first second d (quieter.asleep first d asleep).1 (quieter.asleep second d asleep').1

theorem tryWakeUp_quieter (caller : Option ρ) (solitary : lock.Solitary) (placed : Keyed.Distinct Waiter.requester lock.waiting) :
    lock.Quieter caller lock.tryWakeUp.1 lock.tryWakeUp.2 := by
  obtain ⟨reached, rest, whole, walk⟩ := lock.wakeFrom_eq lock.claimedExcl lock.claimedCounting lock.waiting
  have queue : lock.tryWakeUp = ({ lock with
      waiting := reached.map (fun waiter => { waiter with deferred := none }) ++ rest }, reached.filterMap Waiter.deferred) := by
    unfold tryWakeUp
    rw [walk]
  rw [queue]
  -- an entry that still sleeps is behind the break, and no entry before the break has its deferred
  refine ⟨?_, ?_, ?_, ?_⟩
  · rintro requester ⟨waiter, member, same⟩
    rcases List.mem_append.mp member with mapped | behind
    · obtain ⟨original, among, rfl⟩ := List.mem_map.mp mapped
      exact ⟨original, by rw [whole]; exact List.mem_append_left _ among, same⟩
    · exact ⟨waiter, by rw [whole]; exact List.mem_append_right _ behind, same⟩
  · rintro requester d ⟨waiter, member, same, pending⟩
    rcases List.mem_append.mp member with mapped | behind
    · obtain ⟨original, _, rfl⟩ := List.mem_map.mp mapped
      cases pending
    · have before : lock.Asleep requester d :=
        ⟨waiter, by rw [whole]; exact List.mem_append_right _ behind, same, pending⟩
      refine ⟨before, fun among => ?_⟩
      obtain ⟨other, front, pending'⟩ := List.mem_filterMap.mp among
      have twice := solitary requester other.requester d before
        ⟨other, by rw [whole]; exact List.mem_append_left _ front, rfl, pending'⟩
      unfold Keyed.Distinct at placed
      rw [whole, List.map_append, List.nodup_append] at placed
      exact placed.2.2 other.requester (List.mem_map_of_mem front) waiter.requester (List.mem_map_of_mem behind)
        (by rw [same, twice])
  · intro d member
    obtain ⟨waiter, front, pending⟩ := List.mem_filterMap.mp member
    exact ⟨waiter.requester, waiter, by rw [whole]; exact List.mem_append_left _ front, rfl, pending⟩
  · rintro requester d _ ⟨waiter, member, same, pending⟩
    rw [whole] at member
    rcases List.mem_append.mp member with front | behind
    · exact .inr (List.mem_filterMap.mpr ⟨waiter, front, pending⟩)
    · exact .inl ⟨waiter, List.mem_append_right _ behind, same, pending⟩

variable [DecidableEq ρ]

theorem without_queued : (lock.without self).Queued requester ↔ requester ≠ self ∧ lock.Queued requester := by
  unfold Queued without
  simp only [List.mem_filter, ne_eq, decide_eq_true_eq]
  constructor
  · rintro ⟨waiter, ⟨member, other⟩, rfl⟩
    exact ⟨other, waiter, member, rfl⟩
  · rintro ⟨other, waiter, member, rfl⟩
    exact ⟨waiter, ⟨member, other⟩, rfl⟩

theorem without_asleep : (lock.without self).Asleep requester d ↔ requester ≠ self ∧ lock.Asleep requester d := by
  unfold Asleep without
  simp only [List.mem_filter, ne_eq, decide_eq_true_eq]
  constructor
  · rintro ⟨waiter, ⟨member, other⟩, rfl, pending⟩
    exact ⟨other, waiter, member, rfl, pending⟩
  · rintro ⟨other, waiter, member, rfl, pending⟩
    exact ⟨waiter, ⟨member, other⟩, rfl, pending⟩

theorem without_quieter : lock.Quieter (some self) (lock.without self) [] where
  queued _ queued := (without_queued.mp queued).2
  asleep _ _ asleep := ⟨(without_asleep.mp asleep).2, List.not_mem_nil⟩
  woke := nofun
  kept _ _ other asleep := .inl (without_asleep.mpr ⟨fun same => other (congrArg some same), asleep⟩)

theorem claim_quieter (claimed : lock.claim self access = .ok after) : lock.Quieter (some self) after [] := by
  obtain ⟨_, _, ⟨_, rfl⟩ | ⟨_, rfl⟩⟩ := claim_eq_ok claimed
  · exact .refl (some self) _
  · have owned : (lock.without self).Quieter (some self) ((lock.without self).withOwner self access) [] :=
      .of_waiting withOwner_waiting
    exact without_quieter.trans owned

/-- A claim takes the claimant out of the queue. -/
theorem claim_not_queued (claimed : lock.claim self access = .ok after) (units : access.count ≠ 0) :
    ¬ after.Queued self := by
  obtain ⟨_, _, ⟨zero, _⟩ | ⟨_, rfl⟩⟩ := claim_eq_ok claimed
  · exact absurd zero units
  · rintro ⟨waiter, member, same⟩
    rw [withOwner_waiting] at member
    exact (without_queued.mp ⟨waiter, member, same⟩).1 rfl

theorem release_quieter (caller : Option ρ) (owner : ρ) (access : LockAccess) (consistent : lock.Consistent) (solitary : lock.Solitary) :
    lock.Quieter caller (lock.release owner access).1 (lock.release owner access).2 := by
  unfold release removeOwner
  split_ifs with zero owned
  · exact .refl caller _
  · have same : (lock.withoutOwner owner access).waiting = lock.waiting := withoutOwner_waiting
    have removed : lock.Quieter caller (lock.withoutOwner owner access) [] := .of_waiting same
    have woken := tryWakeUp_quieter caller (solitary.quieter removed) (same ▸ consistent.placed)
    exact removed.trans woken
  · exact .refl caller _

omit [DecidableEq ρ] in
theorem setMaxCount_quieter (caller : Option ρ) (count : Int) (consistent : lock.Consistent) (solitary : lock.Solitary) :
    lock.Quieter caller (lock.setMaxCount count).1 (lock.setMaxCount count).2 := by
  have resized : lock.Quieter caller { lock with maxCount := count } [] := .of_waiting rfl
  unfold setMaxCount
  split_ifs with more
  · exact resized.trans (tryWakeUp_quieter caller (solitary.quieter resized) consistent.placed)
  · exact resized

/-- A requester that is not asleep can wait, and is then asleep. -/
theorem waitUntilMaybeAvailable_eq (d : Deferred) (unavailable : lock.isAvailable self access = false)
    (awake : ∀ d', ¬ lock.Asleep self d') :
    ∃ after, lock.waitUntilMaybeAvailable self access d = .ok (after, true) ∧
      (∀ requester, after.Queued requester ↔ lock.Queued requester ∨ requester = self) ∧
      ∀ requester d', after.Asleep requester d' ↔ lock.Asleep requester d' ∨ requester = self ∧ d' = d := by
  unfold waitUntilMaybeAvailable
  rw [if_neg (by simp [unavailable])]
  rcases lock.place_cases self with ⟨absent, _, others⟩ | ⟨waiter, place, same, _, found⟩
  · rw [absent]
    refine ⟨_, rfl, fun requester => ?_, fun requester d' => ?_⟩
    · simp only [Queued, List.mem_append, List.mem_singleton, or_and_right, exists_or, exists_eq_left]
      exact or_congr_right eq_comm
    · simp only [Asleep, List.mem_append, List.mem_singleton, or_and_right, exists_or, exists_eq_left,
        Option.some.injEq]
      exact or_congr_right (and_congr eq_comm eq_comm)
  · have woken : waiter.deferred = none := by
      refine Option.eq_none_iff_forall_ne_some.mpr fun d' pending => ?_
      exact awake d' ⟨waiter, by rw [place]; simp, same, pending⟩
    have replaced : lock.waiting.set (lock.ahead self).length ⟨self, access, some d⟩ =
        lock.ahead self ++ ⟨self, access, some d⟩ :: lock.behind self := by
      conv_lhs => rw [place]
      simp
    rw [found]
    simp only [deferredAt_ahead place, woken, Option.isSome_none, Bool.false_eq_true, if_false, replaced]
    refine ⟨_, rfl, fun requester => ?_, fun requester d' => ?_⟩
    · simp only [Queued, place, List.mem_append, List.mem_cons]
      constructor
      · rintro ⟨other, before | rfl | behind, rfl⟩
        · exact .inl ⟨other, .inl before, rfl⟩
        · exact .inr rfl
        · exact .inl ⟨other, .inr (.inr behind), rfl⟩
      · rintro (⟨other, before | rfl | behind, rfl⟩ | rfl)
        · exact ⟨other, .inl before, rfl⟩
        · exact ⟨_, .inr (.inl rfl), same.symm⟩
        · exact ⟨other, .inr (.inr behind), rfl⟩
        · exact ⟨_, .inr (.inl rfl), rfl⟩
    · simp only [Asleep, place, List.mem_append, List.mem_cons]
      constructor
      · rintro ⟨other, before | rfl | behind, rfl, pending⟩
        · exact .inl ⟨other, .inl before, rfl, pending⟩
        · exact .inr ⟨rfl, (Option.some.inj pending).symm⟩
        · exact .inl ⟨other, .inr (.inr behind), rfl, pending⟩
      · rintro (⟨other, before | rfl | behind, rfl, pending⟩ | ⟨rfl, rfl⟩)
        · exact ⟨other, .inl before, rfl, pending⟩
        · cases woken.symm.trans pending
        · exact ⟨other, .inr (.inr behind), rfl, pending⟩
        · exact ⟨_, .inr (.inl rfl), rfl, rfl⟩

theorem waitUntilMaybeAvailable_owners {waits : Bool}
    (waited : lock.waitUntilMaybeAvailable self access d = .ok (after, waits)) : after.owners = lock.owners := by
  unfold waitUntilMaybeAvailable at waited
  split_ifs at waited
  · cases waited
    rfl
  · cases found : lock.findWaiting self with
    | none =>
      rw [found] at waited
      cases waited
      rfl
    | some index =>
      rw [found] at waited
      simp only at waited
      split_ifs at waited
      cases waited
      rfl

/-- A requester that is asleep must not wait again. -/
theorem waitUntilMaybeAvailable_asleep (d : Deferred) (consistent : lock.Consistent)
    (unavailable : lock.isAvailable self access = false) (asleep : lock.Asleep self d') :
    lock.waitUntilMaybeAvailable self access d = .error .stillPending := by
  obtain ⟨sleeper, member, mine, pending⟩ := asleep
  unfold waitUntilMaybeAvailable
  rw [if_neg (by simp [unavailable])]
  rcases lock.place_cases self with ⟨_, _, others⟩ | ⟨waiter, place, same, _, found⟩
  · exact absurd mine (others sleeper member)
  · have here : waiter ∈ lock.waiting := by
      rw [place]
      simp
    obtain rfl := consistent.placed.eq_of_key here member (same.trans mine.symm)
    rw [found]
    simp [deferredAt_ahead place, pending]

/-- What a requester gets when it stops waiting, by the place that it has. -/
theorem stopWaitingUntilAvailable_cases (self : ρ) (access : LockAccess) (d : Deferred) (consistent : lock.Consistent) :
    (¬ lock.Queued self ∧ lock.stopWaitingUntilAvailable self access d = .error .notWaiting) ∨
    (∃ d', lock.Asleep self d' ∧ d' ≠ d ∧ lock.stopWaitingUntilAvailable self access d = .error .otherDeferred) ∨
    (lock.Asleep self d ∧ lock.stopWaitingUntilAvailable self access d = .ok (lock.without self, none)) ∨
    (lock.Queued self ∧ (∀ d', ¬ lock.Asleep self d') ∧ lock.stopWaitingUntilAvailable self access d =
      .ok ((lock.without self).tryWakeUp.1, some (lock.without self).tryWakeUp.2)) := by
  unfold stopWaitingUntilAvailable
  rcases lock.place_cases self with ⟨absent, _, others⟩ | ⟨waiter, place, same, _, found⟩
  · rw [absent]
    refine .inl ⟨?_, rfl⟩
    rintro ⟨waiter, member, same⟩
    exact others waiter member same
  · right
    have gone : lock.waiting.eraseIdx (lock.ahead self).length = (lock.without self).waiting := by
      rw [without_waiting consistent place same]
      conv_lhs => rw [place]
      rw [List.eraseIdx_append_of_length_le le_rfl, Nat.sub_self, List.eraseIdx_cons_zero]
    have here : waiter ∈ lock.waiting := by
      rw [place]
      simp
    rw [found]
    simp only [deferredAt_ahead place, gone]
    cases pending : waiter.deferred with
    | some d' =>
      by_cases other : d' = d
      · subst other
        exact .inr (.inl ⟨⟨waiter, here, same, pending⟩, by simp [without]⟩)
      · exact .inl ⟨d', ⟨waiter, here, same, pending⟩, other, by simp [other]⟩
    | none =>
      refine .inr (.inr ⟨⟨waiter, here, same⟩, ?_, rfl⟩)
      rintro d' ⟨other, member, same', pending'⟩
      -- the requester has one place only
      obtain rfl := consistent.placed.eq_of_key here member (same.trans same'.symm)
      cases pending.symm.trans pending'

theorem stopWaitingUntilAvailable_quieter {result : Option (List Deferred)} (consistent : lock.Consistent)
    (solitary : lock.Solitary) (left : lock.stopWaitingUntilAvailable self access d = .ok (after, result)) :
    lock.Quieter (some self) after (result.getD []) ∧ ¬ after.Queued self := by
  have notQueued : ¬ (lock.without self).Queued self := fun queued => (without_queued.mp queued).1 rfl
  rcases lock.stopWaitingUntilAvailable_cases self access d consistent with
    ⟨_, failed⟩ | ⟨_, _, _, failed⟩ | ⟨_, stopped⟩ | ⟨_, _, stopped⟩
  · cases failed.symm.trans left
  · cases failed.symm.trans left
  · cases stopped.symm.trans left
    exact ⟨without_quieter, notQueued⟩
  · cases stopped.symm.trans left
    have placed : Keyed.Distinct Waiter.requester (lock.without self).waiting :=
      consistent.placed.sublist (List.filter_sublist.map _)
    have wakes := tryWakeUp_quieter (some self) (solitary.quieter without_quieter) placed
    exact ⟨without_quieter.trans wakes, fun queued => notQueued (wakes.queued self queued)⟩

/-- A requester with a place can give it up with its own deferred. -/
theorem stopWaitingUntilAvailable_ok (access : LockAccess) (consistent : lock.Consistent)
    (queued : lock.Queued self) (own : ∀ d', lock.Asleep self d' → d' = d) :
    ∃ after result, lock.stopWaitingUntilAvailable self access d = .ok (after, result) := by
  rcases lock.stopWaitingUntilAvailable_cases self access d consistent with
    ⟨absent, _⟩ | ⟨d', asleep, other, _⟩ | ⟨_, stopped⟩ | ⟨_, _, stopped⟩
  · exact absurd queued absent
  · exact absurd (own d' asleep) other
  · exact ⟨_, _, stopped⟩
  · exact ⟨_, _, stopped⟩

end Umbilical.Locks.BaseLock
