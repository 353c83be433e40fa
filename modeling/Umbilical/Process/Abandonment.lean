import Umbilical.Process.Waiting
import Mathlib.Data.Fintype.Basic

set_option autoImplicit false

/-!
# Giving up on locks

A build or a step that is stopped gives up its places. Both remember what they
wait for on their own, so the places they give up are theirs only as long as what
they remember agrees with the queues.
-/

namespace Umbilical.Process

open Locks

variable {κ ρ : Type} [DecidableEq κ] [DecidableEq ρ] {self : ρ} {locks : κ → BaseLock ρ}

/-- What no call of `acquireLocks` changes. -/
structure Party.Keeps (before after : Party κ) : Prop where
  kind : after.kind = before.kind
  stopped : after.stopped = before.stopped
  locksToAcquire : after.locksToAcquire = before.locksToAcquire

/-- All that `acquireLocks` can do for a requester that is not asleep. -/
inductive Acquires (self : ρ) (locks : κ → BaseLock ρ) (d : Deferred) (party : Party κ) :
    (κ → BaseLock ρ) → Party κ → List Failure → Prop
  | nothing {party' : Party κ} (keeps : party.Keeps party') (none : party.locksToAcquire = [])
      (phase : party'.phase = .claimed) : Acquires self locks d party locks party' []
  | skipped {party' : Party κ} (keeps : party.Keeps party') (stopped : party.stopped = true)
      (phase : party'.phase = .skipped) : Acquires self locks d party locks party' []
  | waiting {lock : κ} {access : LockAccess} {after : BaseLock ρ} {party' : Party κ}
      (earlier : List (κ × LockAccess × Deferred)) (keeps : party.Keeps party') (running : party.stopped = false)
      (phase : party'.phase = .waiting d) (last : party'.acquiring = earlier ++ [(lock, access, d)])
      (first : firstUnavailable self locks party.locksToAcquire = some (lock, access))
      (waited : (locks lock).waitUntilMaybeAvailable self access d = .ok (after, true))
      (joins : Joins self d (locks lock) after) :
      Acquires self locks d party (Function.update locks lock after) party' []
  | claimed {locks' : κ → BaseLock ρ} {party' : Party κ} (keeps : party.Keeps party') (running : party.stopped = false)
      (phase : party'.phase = .claimed) (all : firstUnavailable self locks party.locksToAcquire = none)
      (claims : claimAll self locks party.locksToAcquire = (locks', none)) :
      Acquires self locks d party locks' party' []
  | failed {locks' : κ → BaseLock ρ} {party' : Party κ} {failure : Failure} (keeps : party.Keeps party')
      (running : party.stopped = false) (phase : party'.phase = .failed failure)
      (all : firstUnavailable self locks party.locksToAcquire = none)
      (claims : claimAll self locks party.locksToAcquire = (locks', some failure)) :
      Acquires self locks d party locks' party' [failure]

section Acquiring

variable {locks' : κ → BaseLock ρ} {failures : List Failure} {d : Deferred} (orderly : Orderly locks)
  (awake : ∀ lock d', ¬ (locks lock).Asleep self d')
include orderly awake

theorem Build.acquireLocks_acquires {build build' : Build κ}
    (acquired : build.acquireLocks self locks d = (locks', build', failures)) :
    Acquires self locks d (.ofBuild build) locks' (.ofBuild build') failures := by
  unfold Build.acquireLocks at acquired
  simp only at acquired
  split_ifs at acquired with nothing stopped
  · cases acquired
    exact .nothing ⟨rfl, rfl, rfl⟩ nothing rfl
  · cases acquired
    exact .skipped ⟨rfl, rfl, rfl⟩ stopped rfl
  · have running : build.stopped = false := by simpa using stopped
    have takes := takeLocks_takes orderly build.locksToAcquire d awake
    revert takes acquired
    generalize takeLocks self locks build.locksToAcquire d = taken
    rintro acquired (⟨first, waited, joins⟩ | ⟨all, claims⟩ | ⟨all, claims⟩)
    · cases acquired
      exact .waiting [] ⟨rfl, rfl, rfl⟩ running rfl rfl first waited joins
    · cases acquired
      exact .claimed ⟨rfl, rfl, rfl⟩ running rfl all claims
    · cases acquired
      exact .failed ⟨rfl, rfl, rfl⟩ running rfl all claims

theorem BuildStep.acquireLocks_acquires {step step' : BuildStep κ}
    (acquired : step.acquireLocks self locks d = (locks', step', failures)) :
    Acquires self locks d (.ofStep step) locks' (.ofStep step') failures := by
  unfold BuildStep.acquireLocks at acquired
  split_ifs at acquired with nothing stopped
  · cases acquired
    exact .nothing ⟨rfl, rfl, rfl⟩ nothing rfl
  · cases acquired
    exact .skipped ⟨rfl, rfl, rfl⟩ stopped rfl
  · have running : step.stopped = false := by simpa using stopped
    have takes := takeLocks_takes orderly step.locksToAcquire d awake
    revert takes acquired
    generalize takeLocks self locks step.locksToAcquire d = taken
    rintro acquired (⟨first, waited, joins⟩ | ⟨all, claims⟩ | ⟨all, claims⟩)
    · cases acquired
      exact .waiting step.acquiringLocks ⟨rfl, rfl, rfl⟩ running rfl rfl first waited joins
    · cases acquired
      exact .claimed ⟨rfl, rfl, rfl⟩ running rfl all claims
    · cases acquired
      exact .failed ⟨rfl, rfl, rfl⟩ running rfl all claims

theorem Party.acquireLocks_acquires {party party' : Party κ}
    (acquired : party.acquireLocks self locks d = (locks', party', failures)) :
    Acquires self locks d party locks' party' failures := by
  cases party with
  | ofBuild build =>
    cases acquired
    exact Build.acquireLocks_acquires orderly awake rfl
  | ofStep step =>
    cases acquired
    exact BuildStep.acquireLocks_acquires orderly awake rfl

end Acquiring

/-- What a requester remembers of its waits agrees with its places: each lock once, and no other lock. -/
def Agrees (self : ρ) (locks : κ → BaseLock ρ) (party : Party κ) : Prop :=
  (party.acquiring.map Prod.fst).Nodup ∧
    ∀ lock, (locks lock).Queued self ↔ lock ∈ party.acquiring.map Prod.fst

instance [Fintype κ] (party : Party κ) : Decidable (Agrees self locks party) :=
  inferInstanceAs (Decidable (_ ∧ _))

section Stopping

variable (locks) (d : Deferred)

theorem Build.acquireLocks_stopped (self : ρ) (build : Build κ) (stopped : build.stopped = true) :
    ∃ build', build.acquireLocks self locks d = (locks, build', []) := by
  unfold Build.acquireLocks
  by_cases nothing : build.locksToAcquire = []
  · exact ⟨_, by simp only [nothing, if_true]; rfl⟩
  · exact ⟨_, by simp only [nothing, stopped, if_true, if_false]; rfl⟩

theorem BuildStep.acquireLocks_stopped (self : ρ) (step : BuildStep κ) (stopped : step.stopped = true) :
    ∃ step', step.acquireLocks self locks d = (locks, step', []) ∧ step'.stopped = true := by
  unfold BuildStep.acquireLocks
  split_ifs with nothing
  · exact ⟨_, rfl, stopped⟩
  · exact ⟨_, rfl, stopped⟩

variable {locks} {d}

/-- A requester gives up its place in one queue. -/
theorem Orderly.leave {lock : κ} (access : LockAccess) (orderly : Orderly locks) (queued : (locks lock).Queued self)
    (own : ∀ d', (locks lock).Asleep self d' → d' = d) :
    ∃ after woken, (locks lock).stopWaitingUntilAvailable self access d = .ok (after, woken) ∧
      Quieter (some self) locks (Function.update locks lock after) (woken.getD []) ∧
      Orderly (Function.update locks lock after) ∧
      ∀ other, (Function.update locks lock after other).Queued self → (locks other).Queued self ∧ other ≠ lock := by
  obtain ⟨after, woken, left⟩ :=
    BaseLock.stopWaitingUntilAvailable_ok access (orderly.consistent lock) queued own
  obtain ⟨quieter, gone⟩ :=
    BaseLock.stopWaitingUntilAvailable_quieter (orderly.consistent lock) (orderly.solitary lock) left
  obtain ⟨all, orderly'⟩ := orderly.update ((orderly.consistent lock).of_stop left) quieter
  refine ⟨after, woken, left, all, orderly', fun other still => ⟨all.queued other self still, ?_⟩⟩
  rintro rfl
  rw [Function.update_self] at still
  exact gone still

theorem BuildStep.stopWaiting_eq (waits : List (κ × LockAccess × Deferred)) (step : BuildStep κ)
    (stopped : step.stopped = true) (orderly : Orderly locks) (once : (waits.map Prod.fst).Nodup)
    (queued : ∀ wait ∈ waits, (locks wait.1).Queued self)
    (own : ∀ wait ∈ waits, ∀ d, (locks wait.1).Asleep self d → d = wait.2.2) :
    ∃ locks' step' woken, stopWaiting self locks step waits = (locks', step', woken, []) ∧
      Quieter (some self) locks locks' woken ∧ Orderly locks' ∧
      ∀ lock, (locks' lock).Queued self → (locks lock).Queued self ∧ lock ∉ waits.map Prod.fst := by
  induction waits generalizing locks step with
  | nil => exact ⟨locks, _, [], rfl, .refl (some self) locks, orderly, fun _ still => ⟨still, List.not_mem_nil⟩⟩
  | cons wait rest ih =>
    obtain ⟨lock, access, d⟩ := wait
    obtain ⟨fresh, once⟩ := List.nodup_cons.mp once
    obtain ⟨after, woken, left, quieter, orderly', gone⟩ :=
      orderly.leave access (queued _ List.mem_cons_self) (own _ List.mem_cons_self)
    -- the other locks that it waits for are as they were
    have other {wait : κ × LockAccess × Deferred} (member : wait ∈ rest) :
        Function.update locks lock after wait.1 = locks wait.1 :=
      Function.update_of_ne (fun same => fresh (List.mem_map.mpr ⟨wait, member, same⟩)) _ _
    have queued' (wait : κ × LockAccess × Deferred) (member : wait ∈ rest) :
        (Function.update locks lock after wait.1).Queued self := by
      rw [other member]
      exact queued wait (List.mem_cons_of_mem _ member)
    have own' (wait : κ × LockAccess × Deferred) (member : wait ∈ rest) (d : Deferred)
        (asleep : (Function.update locks lock after wait.1).Asleep self d) : d = wait.2.2 := by
      rw [other member] at asleep
      exact own wait (List.mem_cons_of_mem _ member) d asleep
    have further {locks' : κ → BaseLock ρ} (last : ∀ other, (locks' other).Queued self →
        (Function.update locks lock after other).Queued self ∧ other ∉ rest.map Prod.fst) (other : κ)
        (still : (locks' other).Queued self) :
        (locks other).Queued self ∧ other ∉ ((lock, access, d) :: rest).map Prod.fst := by
      obtain ⟨between, notLater⟩ := last other still
      obtain ⟨before, notNow⟩ := gone other between
      exact ⟨before, by simpa using ⟨notNow, by simpa using notLater⟩⟩
    unfold stopWaiting
    simp only [left]
    cases woken with
    | some woken =>
      obtain ⟨locks', step', later, rest', quieter', orderly'', last⟩ := ih step stopped orderly' once queued' own'
      simp only [rest']
      exact ⟨locks', step', woken ++ later, rfl, quieter.trans quieter', orderly'', further last⟩
    | none =>
      obtain ⟨called, callback, stopped'⟩ := BuildStep.acquireLocks_stopped (Function.update locks lock after) d
        self step stopped
      obtain ⟨locks', step', later, rest', quieter', orderly'', last⟩ := ih called stopped' orderly' once queued' own'
      simp only [callback, rest']
      exact ⟨locks', step', later, rfl, quieter.trans quieter', orderly'', further last⟩

/-- A stop that finds what is remembered in agreement with the queues runs into no assertion and leaves no
place behind. -/
theorem Party.stop_eq (orderly : Orderly locks) (party : Party κ) (agrees : Agrees self locks party)
    (recalled : ∀ lock d, (locks lock).Asleep self d → ∃ access earlier, party.acquiring = earlier ++ [(lock, access, d)])
    (gone : party.stopped = true → ∀ lock, ¬ (locks lock).Queued self) :
    ∃ locks' party' woken, party.stop self locks = (locks', party', woken, []) ∧
      Quieter (some self) locks locks' woken ∧ Orderly locks' ∧ ∀ lock, ¬ (locks' lock).Queued self := by
  obtain ⟨once, places⟩ := agrees
  cases party with
  | ofBuild build =>
    obtain ⟨wanted, acquiringLock, stopped, phase⟩ := build
    cases acquiringLock with
    | none =>
      refine ⟨locks, _, [], rfl, .refl (some self) locks, orderly, fun lock queued => ?_⟩
      simpa [Party.acquiring] using (places lock).mp queued
    | some wait =>
      obtain ⟨lock, access, d⟩ := wait
      have own (d' : Deferred) (asleep : (locks lock).Asleep self d') : d' = d := by
        obtain ⟨access', earlier, last⟩ := recalled lock d' asleep
        have single : [(lock, access, d)] = earlier ++ [(lock, access', d')] := by
          simpa [Party.acquiring] using last
        cases earlier with
        | nil =>
          simp only [List.nil_append, List.cons.injEq, Prod.mk.injEq] at single
          exact single.1.2.2.symm
        | cons => simp at single
      obtain ⟨after, woken, left, quieter, orderly', rest⟩ :=
        orderly.leave access ((places lock).mpr (by simp [Party.acquiring])) own
      have nowhere (other : κ) : ¬ (Function.update locks lock after other).Queued self := by
        intro still
        obtain ⟨before, different⟩ := rest other still
        have among := (places other).mp before
        simp [Party.acquiring] at among
        exact different among
      unfold Party.stop Build.stop
      simp only [left]
      cases woken with
      | some woken => exact ⟨_, _, woken, rfl, quieter, orderly', nowhere⟩
      | none =>
        obtain ⟨called, callback⟩ := Build.acquireLocks_stopped (Function.update locks lock after) d self
          ⟨wanted, some (lock, access, d), true, phase⟩ rfl
        simp only [callback]
        exact ⟨_, _, [], rfl, quieter, orderly', nowhere⟩
  | ofStep step =>
    unfold Party.stop BuildStep.interrupt
    by_cases stopped : step.stopped = true
    · simp only [stopped, if_true]
      exact ⟨locks, _, [], rfl, .refl (some self) locks, orderly, gone stopped⟩
    · simp only [stopped]
      have own (wait : κ × LockAccess × Deferred) (member : wait ∈ step.acquiringLocks) (d : Deferred)
          (asleep : (locks wait.1).Asleep self d) : d = wait.2.2 := by
        -- the wait that is still pending is the last one, and no other is for the same lock
        obtain ⟨access, earlier, last⟩ := recalled wait.1 d asleep
        have last : step.acquiringLocks = earlier ++ [(wait.1, access, d)] := last
        have once : (step.acquiringLocks.map Prod.fst).Nodup := once
        rw [last] at member once
        rcases List.mem_append.mp member with before | here
        · rw [List.map_append, List.nodup_append] at once
          exact absurd rfl (once.2.2 wait.1 (List.mem_map_of_mem before) wait.1 (by simp))
        · rw [List.mem_singleton] at here
          rw [here]
      obtain ⟨locks', step', woken, result, quieter, orderly', rest⟩ := BuildStep.stopWaiting_eq step.acquiringLocks
        { step with stopped := true } rfl orderly once
        (fun wait member => (places wait.1).mpr (List.mem_map_of_mem member)) own
      simp only [Bool.false_eq_true, if_false, result]
      refine ⟨locks', _, woken, rfl, quieter, orderly', fun lock still => ?_⟩
      obtain ⟨before, notAmong⟩ := rest lock still
      exact notAmong ((places lock).mp before)

end Stopping

/-- What holds between events. A deferred that is pending belongs to the last wait that its requester remembers,
and nobody who has been stopped is in a queue. -/
structure World.Sound (world : World κ ρ) : Prop where
  orderly : Orderly world.locks
  issued : ∀ lock requester d, (world.locks lock).Asleep requester d → d < world.next
  called : ∀ d ∈ world.scheduled, d < world.next
  apart : ∀ lock requester d, (world.locks lock).Asleep requester d → d ∉ world.scheduled
  recalled : ∀ self party, world.parties self = some party → ∀ lock d, (world.locks lock).Asleep self d →
    party.phase = .waiting d ∧ ∃ access earlier, party.acquiring = earlier ++ [(lock, access, d)]
  gone : ∀ self party, world.parties self = some party → party.stopped = true →
    ∀ lock, ¬ (world.locks lock).Queued self

omit [DecidableEq κ] in
theorem update_cases {parties : ρ → Option (Party κ)} {other : ρ} {party party' : Party κ}
    (known : Function.update parties self (some party') other = some party) :
    other = self ∧ party = party' ∨ other ≠ self ∧ parties other = some party := by
  by_cases same : other = self
  · subst same
    rw [Function.update_self] at known
    exact .inl ⟨rfl, (Option.some.inj known).symm⟩
  · rw [Function.update_of_ne same] at known
    exact .inr ⟨same, known⟩

namespace World.Sound

variable {world : World κ ρ}

omit [DecidableEq κ] [DecidableEq ρ] in
theorem fresh (sound : world.Sound) (lock : κ) (requester : ρ) : ¬ (world.locks lock).Asleep requester world.next :=
  fun asleep => Nat.lt_irrefl _ (sound.issued lock requester world.next asleep)

omit [DecidableEq κ] [DecidableEq ρ] in
/-- A requester sleeps only for the deferred that it waits for. -/
theorem awake {party : Party κ} (sound : world.Sound) (known : world.parties self = some party)
    (phase : ∀ d, party.phase = .waiting d → d ∈ world.scheduled) (lock : κ) (d : Deferred) :
    ¬ (world.locks lock).Asleep self d := by
  intro asleep
  have waits := (sound.recalled self party known lock d asleep).1
  exact sound.apart lock self d asleep (phase d waits)

omit [DecidableEq κ] [DecidableEq ρ] in
/-- Nobody enters a queue. -/
theorem quieter {locks' : κ → BaseLock ρ} {woken : List Deferred} {next' : Deferred} {caller : Option ρ}
    (sound : world.Sound) (quieter : Quieter caller world.locks locks' woken) (orderly : Orderly locks') (later : world.next ≤ next') :
    Sound ⟨locks', world.parties, world.scheduled ++ woken, next'⟩ where
  orderly := orderly
  issued lock requester d asleep := by
    have before := (quieter.asleep lock requester d asleep).1
    exact Nat.lt_of_lt_of_le (sound.issued lock requester d before) later
  called d member := by
    rcases List.mem_append.mp member with before | now
    · exact Nat.lt_of_lt_of_le (sound.called d before) later
    · obtain ⟨lock, requester, asleep⟩ := quieter.woke d now
      exact Nat.lt_of_lt_of_le (sound.issued lock requester d asleep) later
  apart lock requester d asleep member := by
    obtain ⟨before, notWoken⟩ := quieter.asleep lock requester d asleep
    rcases List.mem_append.mp member with scheduled | now
    · exact sound.apart lock requester d before scheduled
    · exact notWoken now
  recalled other party known lock d asleep :=
    sound.recalled other party known lock d (quieter.asleep lock other d asleep).1
  gone other party known stopped lock queued :=
    sound.gone other party known stopped lock (quieter.queued lock other queued)

omit [DecidableEq κ] in
/-- What a requester remembers changes. -/
theorem replaced (sound : world.Sound) (party' : Party κ)
    (recalled : ∀ lock d, (world.locks lock).Asleep self d →
      party'.phase = .waiting d ∧ ∃ access earlier, party'.acquiring = earlier ++ [(lock, access, d)])
    (gone : party'.stopped = true → ∀ lock, ¬ (world.locks lock).Queued self) :
    Sound { world with parties := Function.update world.parties self (some party') } :=
  { sound with
    recalled := by
      intro other party known lock d asleep
      rcases update_cases known with ⟨rfl, rfl⟩ | ⟨_, known⟩
      · exact recalled lock d asleep
      · exact sound.recalled other party known lock d asleep
    gone := by
      intro other party known stopped lock queued
      rcases update_cases known with ⟨rfl, rfl⟩ | ⟨_, known⟩
      · exact gone stopped lock queued
      · exact sound.gone other party known stopped lock queued }

/-- A requester enters one queue, and remembers it where it is a build or a step. -/
theorem joins {lock : κ} {after : BaseLock ρ} {parties' : ρ → Option (Party κ)} (sound : world.Sound)
    (joins : Joins self world.next (world.locks lock) after)
    (others : ∀ other, other ≠ self → parties' other = world.parties other)
    (mine : ∀ party, parties' self = some party → party.stopped = false ∧ party.phase = .waiting world.next ∧
      (∃ access earlier, party.acquiring = earlier ++ [(lock, access, world.next)]) ∧
      ∀ lock d, ¬ (world.locks lock).Asleep self d) :
    Sound ⟨Function.update world.locks lock after, parties', world.scheduled, world.next + 1⟩ := by
  obtain ⟨orderly, queued, asleep⟩ := sound.orderly.join joins sound.fresh
  refine ⟨orderly, ?_, ?_, ?_, ?_, ?_⟩
  · intro other requester d now
    rcases (asleep other requester d).mp now with before | ⟨_, _, rfl⟩
    · exact Nat.lt_succ_of_lt (sound.issued other requester d before)
    · exact Nat.lt_succ_self _
  · exact fun d member => Nat.lt_succ_of_lt (sound.called d member)
  · intro other requester d now member
    rcases (asleep other requester d).mp now with before | ⟨_, _, rfl⟩
    · exact sound.apart other requester d before member
    · exact Nat.lt_irrefl _ (sound.called _ member)
  · intro requester party known other d now
    by_cases same : requester = self
    · subst same
      obtain ⟨_, phase, ⟨access, earlier, last⟩, awake⟩ := mine party known
      rcases (asleep other requester d).mp now with before | ⟨rfl, _, rfl⟩
      · exact absurd before (awake other d)
      · exact ⟨phase, access, earlier, last⟩
    · rcases (asleep other requester d).mp now with before | ⟨_, mine, _⟩
      · exact sound.recalled requester party ((others requester same).symm.trans known) other d before
      · exact absurd mine same
  · intro requester party known stopped other now
    by_cases same : requester = self
    · subst same
      exact absurd ((mine party known).1.symm.trans stopped) nofun
    · rcases (queued other requester).mp now with before | ⟨_, mine⟩
      · exact sound.gone requester party ((others requester same).symm.trans known) stopped other before
      · exact same mine

theorem acquireLocks {party : Party κ} (sound : world.Sound) (known : world.parties self = some party)
    (phase : ∀ d, party.phase = .waiting d → d ∈ world.scheduled) {scheduled : List Deferred}
    (fewer : ∀ d ∈ scheduled, d ∈ world.scheduled) :
    (World.acquireLocks { world with scheduled := scheduled } self party).1.Sound ∧
      ∀ observed ∈ (World.acquireLocks { world with scheduled := scheduled } self party).2,
        ¬ OfWaiting observed.2 := by
  have awake := sound.awake known phase
  have dequeued : ({ world with scheduled := scheduled } : World κ ρ).Sound :=
    { sound with
      called := fun d member => sound.called d (fewer d member)
      apart := fun lock requester d asleep member => sound.apart lock requester d asleep (fewer d member) }
  unfold World.acquireLocks
  rcases taken : party.acquireLocks self world.locks world.next with ⟨locks', party', failures⟩
  have acquires := Party.acquireLocks_acquires sound.orderly awake taken
  simp only
  -- where nobody waits, the requester is not asleep afterwards either
  have settled {locks' : κ → BaseLock ρ} {party' : Party κ} (keeps : party.Keeps party')
      (quieter : Quieter (some self) world.locks locks' []) (orderly : Orderly locks') :
      Sound ⟨locks', Function.update world.parties self (some party'), scheduled, world.next + 1⟩ := by
    have kept := (dequeued.quieter quieter orderly (Nat.le_succ _)).replaced party'
      (fun lock d asleep => absurd (quieter.asleep lock self d asleep).1 (awake lock d))
      (fun stopped lock queued => sound.gone self party known (keeps.stopped ▸ stopped) lock
        (quieter.queued lock self queued))
    simpa using kept
  cases acquires with
  | nothing keeps | skipped keeps => exact ⟨settled keeps (.refl _ _) sound.orderly, nofun⟩
  | waiting earlier keeps running phase' last first waited joins =>
    refine ⟨dequeued.joins joins (fun other different => Function.update_of_ne different _ _) ?_, nofun⟩
    intro other known'
    rcases update_cases known' with ⟨_, rfl⟩ | ⟨different, _⟩
    · exact ⟨keeps.stopped.trans running, phase', ⟨_, earlier, last⟩, awake⟩
    · exact absurd rfl different
  | claimed keeps running phase' all claims =>
    have claimed := claimAll_quieter self sound.orderly party.locksToAcquire
    rw [claims] at claimed
    exact ⟨settled keeps claimed.1 claimed.2.1, nofun⟩
  | failed keeps running phase' all claims =>
    have claimed := claimAll_quieter self sound.orderly party.locksToAcquire
    rw [claims] at claimed
    refine ⟨settled keeps claimed.1 claimed.2.1, ?_⟩
    intro observed member
    obtain rfl := List.mem_singleton.mp member
    exact claimed.2.2 _ rfl

theorem stop {party : Party κ} (sound : world.Sound) (known : world.parties self = some party)
    (agrees : Agrees self world.locks party) :
    (world.stop self party).1.Sound ∧ (world.stop self party).2 = [] := by
  obtain ⟨locks', party', woken, stopped, quieter, orderly, nowhere⟩ := party.stop_eq sound.orderly agrees
    (fun lock d asleep => (sound.recalled self party known lock d asleep).2) (sound.gone self party known)
  unfold World.stop
  simp only [stopped]
  refine ⟨?_, rfl⟩
  exact (sound.quieter quieter orderly le_rfl).replaced party'
    (fun lock d asleep => absurd asleep.queued (nowhere lock)) (fun _ => nowhere)

theorem releaseLocks {party : Party κ} (sound : world.Sound) (known : world.parties self = some party)
    (releases : party.Releases) : (world.releaseLocks self party).Sound := by
  have phase (d : Deferred) : party.phase ≠ .waiting d := by
    intro waiting
    simp [Party.Releases, waiting] at releases
  have awake := sound.awake known fun d waiting => absurd waiting (phase d)
  unfold World.releaseLocks
  cases party with
  | ofBuild build =>
    obtain ⟨quieter, orderly⟩ := Build.releaseOwned_quieter self sound.orderly build.locksToAcquire
    exact (sound.quieter quieter orderly le_rfl).replaced _
      (fun lock d asleep => absurd (quieter.asleep lock self d asleep).1 (awake lock d))
      (fun stopped lock queued => sound.gone self _ known stopped lock (quieter.queued lock self queued))
  | ofStep step =>
    obtain ⟨quieter, orderly⟩ :=
      BuildStep.releaseOwned_quieter self step.stopped sound.orderly step.locksToAcquire
    exact (sound.quieter quieter orderly le_rfl).replaced _
      (fun lock d asleep => absurd (quieter.asleep lock self d asleep).1 (awake lock d))
      (fun stopped lock queued => sound.gone self _ known stopped lock (quieter.queued lock self queued))

/-- Calls by others leave what builds and steps remember as it is. -/
theorem useLock {lock : κ} {use : Use ρ} {after : BaseLock ρ} {woken : List Deferred} (sound : world.Sound)
    (others : ∀ self ∈ requester use, world.parties self = none)
    (used : useLock (world.locks lock) world.next use = (after, woken)) :
    Sound ⟨Function.update world.locks lock after, world.parties, world.scheduled ++ woken, world.next + 1⟩ := by
  rcases useLock_moves (sound.orderly.consistent lock) (sound.orderly.solitary lock) used with
    ⟨consistent, quieter⟩ | ⟨rfl, owner, caller, joins⟩
  · obtain ⟨all, orderly⟩ := sound.orderly.update consistent quieter
    exact sound.quieter all orderly (Nat.le_succ _)
  · rw [List.append_nil]
    refine sound.joins joins (fun _ _ => rfl) fun party known => ?_
    cases (others owner caller).symm.trans known

end World.Sound

namespace World

/-- A stop finds what its build or step remembers in agreement with the queues. -/
def StopsWell (world : World κ ρ) : Event κ ρ → Prop
  | .stop self => ∀ party ∈ world.parties self, Agrees self world.locks party
  | _ => True

/-- Nobody who has been stopped is in a queue. -/
def LeavesNoTrace (world : World κ ρ) : Prop :=
  ∀ self, ∀ party ∈ world.parties self, party.stopped = true → ∀ lock, ¬ (world.locks lock).Queued self

variable {world : World κ ρ}

/-- Every event keeps the world sound, as long as stops find what they need. -/
theorem Sound.step (sound : world.Sound) (event : Event κ ρ) (well : world.StopsWell event) :
    (world.step event).1.Sound ∧ ∀ observed ∈ (world.step event).2, ¬ OfWaiting observed.2 := by
  have steps := world.step_steps event
  revert steps
  generalize world.step event = result
  rintro (_ | ⟨known, idle⟩ | ⟨known, waiting, called⟩ | known | ⟨known, releases⟩ | ⟨others, used⟩)
  · exact ⟨sound, nofun⟩
  · exact sound.acquireLocks known (fun d waiting => absurd (idle.symm.trans waiting) nofun) fun _ member => member
  · refine sound.acquireLocks known (fun d waiting' => ?_) fun _ member => List.mem_of_mem_erase member
    cases waiting.symm.trans waiting'
    exact called
  · obtain ⟨kept, silent⟩ := sound.stop known (well _ known)
    exact ⟨kept, by simp [silent]⟩
  · exact ⟨sound.releaseLocks known releases, nofun⟩
  · exact ⟨sound.useLock others used, nofun⟩

omit [DecidableEq κ] [DecidableEq ρ] in
theorem new_sound (maxCount : κ → Int) (wanted : ρ → Option (Kind × List (κ × LockAccess))) :
    (World.new maxCount wanted).Sound := by
  have empty (lock : κ) (requester : ρ) : ¬ ((World.new maxCount wanted).locks lock).Queued requester := by
    rintro ⟨waiter, member, _⟩
    cases member
  have nobody (lock : κ) (requester : ρ) (d : Deferred) :
      ¬ ((World.new maxCount wanted).locks lock).Asleep requester d := fun asleep => empty lock requester asleep.queued
  exact {
    orderly := ⟨fun lock => BaseLock.new_consistent (maxCount lock),
      fun lock requester _ _ d asleep _ => absurd asleep (nobody lock requester d)⟩
    issued := fun lock requester d asleep => absurd asleep (nobody lock requester d)
    called := nofun
    apart := fun lock requester d asleep => absurd asleep (nobody lock requester d)
    recalled := fun self _ _ lock d asleep => absurd asleep (nobody lock self d)
    gone := fun self _ _ _ lock => empty lock self }

/-- A run whose stops all find what is remembered in agreement with the queues leaves no place of a stopped
requester behind and runs into no assertion about waiting. -/
theorem run_leavesNoTrace (maxCount : κ → Int) (wanted : ρ → Option (Kind × List (κ × LockAccess)))
    (events : List (Event κ ρ))
    (well : Interleaving.Always World.step StopsWell (World.new maxCount wanted) events) :
    (Interleaving.final World.step (World.new maxCount wanted) events).LeavesNoTrace ∧
      ∀ observed ∈ Interleaving.seen World.step (World.new maxCount wanted) events, ¬ OfWaiting observed.2 := by
  have preserved (world : World κ ρ) (event : Event κ ρ) (sound : world.Sound) (well : world.StopsWell event) :
      (world.step event).1.Sound ∧ ∀ observed ∈ (world.step event).2, ¬ OfWaiting observed.2 := sound.step event well
  have run := Interleaving.final_of_always preserved (new_sound maxCount wanted) well
  exact ⟨fun self party known => run.1.gone self party known, run.2⟩

section Instances

def only (lock : Bool) : LockAccess := ⟨.masterLock (if lock then "second" else "first") 1, .exclusive, 1⟩

/-- A build of two locks that somebody else may hold. -/
def wantsBoth : Nat → Option (Kind × List (Bool × LockAccess))
  | 0 => some (.build, [(false, only false), (true, only true)])
  | _ => none

def heldByAnother (lock : Bool) : Event Bool Nat := .other lock (.claim 1 (only lock))

def givenBack (lock : Bool) : Event Bool Nat := .other lock (.release 1 (only lock))

/-- The build is stopped while it waits for the first lock. -/
theorem stoppedOnFirst_leavesNoTrace :
    (Interleaving.final World.step (World.new (fun _ => 1) wantsBoth)
      [heldByAnother false, .acquire 0, .stop 0]).LeavesNoTrace ∧
    ∀ observed ∈ Interleaving.seen World.step (World.new (fun _ => 1) wantsBoth)
      [heldByAnother false, .acquire 0, .stop 0], ¬ OfWaiting observed.2 := by
  refine run_leavesNoTrace (fun _ => 1) wantsBoth _ ⟨trivial, trivial, ?_, trivial⟩
  rintro party ⟨⟩
  decide

/-- It is woken for the first lock, finds the second one taken, and is stopped there: its place at the first
lock stays. -/
theorem stoppedOnSecond_leavesTrace :
    ¬ (Interleaving.final World.step (World.new (fun _ => 1) wantsBoth)
      [heldByAnother false, heldByAnother true, .acquire 0, givenBack false, .wakeup 0, .stop 0]).LeavesNoTrace := by
  intro none
  refine none 0 _ rfl rfl false ⟨⟨0, only false, .none⟩, ?_, rfl⟩
  decide

/-- A build that is stopped twice before its callback comes runs into an assertion, -/
example : Interleaving.seen World.step (World.new (fun _ => 1) wantsBoth)
    [heldByAnother false, .acquire 0, givenBack false, .stop 0, .stop 0] = [(0, .notWaiting)] := by
  decide

/-- and so does a step that wants two units of a lock, is woken for one of them, and waits again. -/
example : let unit : LockAccess := ⟨.masterLock "pair" 2, .counting, 1⟩
    Interleaving.seen World.step
      (World.new (fun _ => 2) fun self => if self = 0 then some (.step, [(false, { unit with count := 2 })]) else none)
      [.other false (.claim 1 unit), .other false (.claim 2 unit), .acquire 0, .other false (.release 1 unit),
        .wakeup 0, .stop 0] = [(0, .otherDeferred)] := by
  decide

end Instances

end World

end Umbilical.Process
