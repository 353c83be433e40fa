import Umbilical.Process.Acquisition

set_option autoImplicit false

/-!
# What claims do to locks

The claims of a whole list, seen from each lock.
-/

namespace Umbilical.Process

open Locks

variable {κ ρ : Type} [DecidableEq ρ] {self : ρ}

/-- A lock after claims by a requester. -/
structure Grown (caller : ρ) (before after : BaseLock ρ) : Prop where
  limit : after.maxCount = before.maxCount
  excl : before.claimedExcl ≤ after.claimedExcl
  counting : before.claimedCounting ≤ after.claimedCounting
  owners : ∀ owner ∈ before.owners, owner ∈ after.owners
  waiting : after.waiting = before.waiting ∨ after.waiting = (before.without caller).waiting

/-- A lock after claims by a requester among which there is one with a given access. -/
structure Paid (caller : ρ) (access : LockAccess) (before after : BaseLock ρ) : Prop where
  excl : before.claimedExcl + access.exclusiveUnits ≤ after.claimedExcl
  counting : before.claimedCounting + access.countingUnits ≤ after.claimedCounting
  waiting : after.waiting = (before.without caller).waiting

variable {before between after : BaseLock ρ} {access : LockAccess}

theorem without_without (lock : BaseLock ρ) : (lock.without self).without self = lock.without self := by
  simp [BaseLock.without, List.filter_filter]

theorem without_congr (same : before.waiting = after.waiting) :
    (before.without self).waiting = (after.without self).waiting := by simp [BaseLock.without, same]

theorem Grown.refl (lock : BaseLock ρ) : Grown self lock lock := ⟨rfl, le_rfl, le_rfl, fun _ member => member, .inl rfl⟩

theorem Grown.trans (first : Grown self before between) (second : Grown self between after) : Grown self before after where
  limit := second.limit.trans first.limit
  excl := first.excl.trans second.excl
  counting := first.counting.trans second.counting
  owners owner member := second.owners owner (first.owners owner member)
  waiting := by
    rcases first.waiting with same | gone <;> rcases second.waiting with same' | gone'
    · exact .inl (same'.trans same)
    · exact .inr (gone'.trans (without_congr same))
    · exact .inr (same'.trans gone)
    · refine .inr (gone'.trans ((without_congr gone).trans ?_))
      rw [without_without]

theorem Paid.of_grown (first : Paid self access before between) (second : Grown self between after) :
    Paid self access before after where
  excl := first.excl.trans second.excl
  counting := first.counting.trans second.counting
  waiting := by
    rcases second.waiting with same | gone
    · exact same.trans first.waiting
    · refine gone.trans ((without_congr first.waiting).trans ?_)
      rw [without_without]

theorem Grown.paid (first : Grown self before between) (second : Paid self access between after) :
    Paid self access before after where
  excl := by have := first.excl; have := second.excl; omega
  counting := by have := first.counting; have := second.counting; omega
  waiting := by
    refine second.waiting.trans ?_
    rcases first.waiting with same | gone
    · exact without_congr same
    · refine (without_congr gone).trans ?_
      rw [without_without]

/-- A claim that goes through. -/
theorem claim_grown (claimed : before.claim self access = .ok after) :
    Grown self before after ∧ (access.count ≠ 0 → Paid self access before after ∧ (self, access) ∈ after.owners) := by
  obtain ⟨_, valid, ⟨zero, rfl⟩ | ⟨units, rfl⟩⟩ := BaseLock.claim_eq_ok claimed
  · exact ⟨.refl _, fun units => absurd zero units⟩
  · have excl := access.exclusiveUnits_nonneg
    have counting := valid.countingUnits_nonneg
    refine ⟨⟨by simp [BaseLock.without], ?_, ?_, ?_, .inr BaseLock.withOwner_waiting⟩, fun _ => ⟨⟨?_, ?_, ?_⟩, ?_⟩⟩
    · simp only [BaseLock.withOwner_claimedExcl, BaseLock.without]
      omega
    · simp only [BaseLock.withOwner_claimedCounting, BaseLock.without]
      omega
    · intro owner member
      simp only [BaseLock.withOwner_owners, BaseLock.without]
      exact List.mem_append_left _ member
    · simp [BaseLock.without]
    · simp [BaseLock.without]
    · exact BaseLock.withOwner_waiting
    · simp

variable [DecidableEq κ] {locks locks' : κ → BaseLock ρ} {wanted : List (κ × LockAccess)} {failure : Option Failure}

theorem claimAll_grown (claims : claimAll self locks wanted = (locks', failure)) (lock : κ) :
    Grown self (locks lock) (locks' lock) := by
  induction wanted generalizing locks with
  | nil =>
    cases claims
    exact .refl _
  | cons pair rest ih =>
    obtain ⟨head, access⟩ := pair
    unfold claimAll at claims
    cases claimed : (locks head).claim self access with
    | error =>
      rw [claimed] at claims
      cases claims
      exact .refl _
    | ok after =>
      rw [claimed] at claims
      have later := ih claims
      by_cases same : lock = head
      · subst same
        rw [Function.update_self] at later
        exact (claim_grown claimed).1.trans later
      · rwa [Function.update_of_ne same] at later

/-- Where all claims go through, each of them counts. -/
theorem claimAll_paid (claims : claimAll self locks wanted = (locks', none)) {lock : κ}
    (among : (lock, access) ∈ wanted) (units : access.count ≠ 0) : Paid self access (locks lock) (locks' lock) := by
  induction wanted generalizing locks with
  | nil => cases among
  | cons pair rest ih =>
    obtain ⟨head, headAccess⟩ := pair
    unfold claimAll at claims
    cases claimed : (locks head).claim self headAccess with
    | error =>
      rw [claimed] at claims
      cases claims
    | ok after =>
      rw [claimed] at claims
      rcases List.mem_cons.mp among with here | later
      · obtain ⟨rfl, rfl⟩ := Prod.mk.inj here
        have grown := claimAll_grown claims lock
        rw [Function.update_self] at grown
        exact ((claim_grown claimed).2 units).1.of_grown grown
      · have paid := ih claims later
        by_cases same : lock = head
        · subst same
          rw [Function.update_self] at paid
          exact (claim_grown claimed).1.paid paid
        · rwa [Function.update_of_ne same] at paid

/-- Claims of locks that were all available fail only after one of them has been taken. -/
theorem claimAll_owns (consistent : ∀ lock, (locks lock).Consistent)
    (available : ∀ pair ∈ wanted, (locks pair.1).isAvailable self pair.2) (valid : ∀ pair ∈ wanted, pair.2.Valid)
    {reason : Failure} (claims : claimAll self locks wanted = (locks', some reason)) :
    ∃ lock access, (self, access) ∈ (locks' lock).owners := by
  induction wanted generalizing locks with
  | nil => cases claims
  | cons pair rest ih =>
    obtain ⟨head, access⟩ := pair
    unfold claimAll at claims
    by_cases zero : access.count = 0
    · have claimed : (locks head).claim self access = .ok (locks head) := by
        unfold BaseLock.claim
        rw [if_neg (by simp [available _ List.mem_cons_self]), if_neg (not_not.mpr (valid _ List.mem_cons_self)),
          if_pos zero]
      rw [claimed] at claims
      simp only [Function.update_eq_self] at claims
      exact ih consistent (fun pair member => available pair (List.mem_cons_of_mem _ member))
        (fun pair member => valid pair (List.mem_cons_of_mem _ member)) claims
    · have claimed := (consistent head).claim_ok (available _ List.mem_cons_self) (valid _ List.mem_cons_self) zero
      rw [claimed] at claims
      refine ⟨head, access, (claimAll_grown claims head).owners _ ?_⟩
      rw [Function.update_self]
      exact ((claim_grown claimed).2 zero).2

/-- Where all claims go through, each access of the list is owned. -/
theorem claimAll_owned (claims : claimAll self locks wanted = (locks', none)) {lock : κ}
    (among : (lock, access) ∈ wanted) (units : access.count ≠ 0) : (self, access) ∈ (locks' lock).owners := by
  induction wanted generalizing locks with
  | nil => cases among
  | cons pair rest ih =>
    obtain ⟨head, headAccess⟩ := pair
    unfold claimAll at claims
    cases claimed : (locks head).claim self headAccess with
    | error =>
      rw [claimed] at claims
      cases claims
    | ok after =>
      rw [claimed] at claims
      rcases List.mem_cons.mp among with here | later
      · obtain ⟨rfl, rfl⟩ := Prod.mk.inj here
        refine (claimAll_grown claims lock).owners _ ?_
        rw [Function.update_self]
        exact ((claim_grown claimed).2 units).2
      · exact ih claims later

end Umbilical.Process
