import Mathlib.Algebra.Order.Ring.Rat
import Mathlib.Data.List.Nodup
import Mathlib.Logic.Function.Basic

set_option autoImplicit false

/-!
# The tracker of old build requests

`br_by_id` and `br_by_ss` are two indexes of the same requests. A dictionary of `br_by_ss` that
becomes empty is deleted, so a missing one is an empty list here.
-/

namespace Umbilical.Schedulers

/-- A sourcestamp, or what of a change there is in it. -/
structure SourceStamp where
  project : String
  codebase : String
  repository : String
  branch : Option String
  deriving DecidableEq

/-- The filters and `branch_key`, whose values are of type `β`. -/
structure CancellerConfig (β : Type) where
  filter : String → SourceStamp → Bool
  branchKey : SourceStamp → β

abbrev SsTuple (β : Type) := String × String × String × β

structure TrackedBuildRequest (β : Type) where
  startTime : Rat
  builderName : String
  brid : Nat
  ssTuples : List (SsTuple β)
  deriving DecidableEq

structure OldBuildrequestTracker (β : Type) where
  config : CancellerConfig β
  brById : Nat → Option (TrackedBuildRequest β)
  brBySs : SsTuple β → List (TrackedBuildRequest β)
  changeTimeBySs : SsTuple β → Option Rat
  changeCountSinceClean : Nat

inductive TrackerEffect where
  | onCancel (brid : Nat)
  | keyError
  deriving DecidableEq

namespace OldBuildrequestTracker

variable {β : Type} (tracker : OldBuildrequestTracker β)

def ssTuple (ss : SourceStamp) : SsTuple β := (ss.project, ss.codebase, ss.repository, tracker.config.branchKey ss)

/-- The tuples that a new request is tracked under, if any. -/
def matchedTuples (builderName : String) (sourcestamps : List SourceStamp) : List (SsTuple β) :=
  if sourcestamps.any (·.branch = none) then []
  else (sourcestamps.filter (tracker.config.filter builderName)).map tracker.ssTuple

def insert (tracked : TrackedBuildRequest β) (requests : List (TrackedBuildRequest β)) :
    List (TrackedBuildRequest β) :=
  if requests.any (·.brid = tracked.brid) then
    requests.map fun other => if other.brid = tracked.brid then tracked else other
  else requests ++ [tracked]

section

variable [DecidableEq β]

def addNewBuildrequest (now : Rat) (brid : Nat) (builderName : String) (sourcestamps : List SourceStamp) :
    OldBuildrequestTracker β :=
  let ssTuples := tracker.matchedTuples builderName sourcestamps
  if ssTuples = [] then tracker
  else
    let tracked : TrackedBuildRequest β := ⟨now, builderName, brid, ssTuples⟩
    { tracker with
      brById := Function.update tracker.brById brid (some tracked)
      brBySs := ssTuples.foldl (fun brBySs ssTuple =>
        Function.update brBySs ssTuple (insert tracked (brBySs ssTuple))) tracker.brBySs }

/-- The loop that takes a request out of `br_by_ss`, and whether it raises `KeyError`. -/
def clear (brid : Nat) (brBySs : SsTuple β → List (TrackedBuildRequest β)) :
    List (SsTuple β) → (SsTuple β → List (TrackedBuildRequest β)) × Bool
  | [] => (brBySs, false)
  | ssTuple :: rest =>
    if (brBySs ssTuple).any (·.brid = brid) then
      clear brid (Function.update brBySs ssTuple ((brBySs ssTuple).filter (·.brid ≠ brid))) rest
    else (brBySs, true)

def remove (tracked : TrackedBuildRequest β) : OldBuildrequestTracker β × Bool :=
  let (brBySs, raised) := clear tracked.brid tracker.brBySs tracked.ssTuples
  ({ tracker with brById := Function.update tracker.brById tracked.brid none, brBySs }, raised)

/-- The loop over the requests of one tuple, with `brids_to_cancel` and whether it raises. -/
def cancelOlder (builderName : String) (newestChangeTime : Rat) (tracker : OldBuildrequestTracker β)
    (bridsToCancel : List Nat) : List (TrackedBuildRequest β) → OldBuildrequestTracker β × List Nat × Bool
  | [] => (tracker, bridsToCancel, false)
  | tracked :: rest =>
    if tracked.builderName ≠ builderName ∨ newestChangeTime ≤ tracked.startTime then
      cancelOlder builderName newestChangeTime tracker bridsToCancel rest
    else if tracker.brById tracked.brid = none then (tracker, bridsToCancel, true)
    else
      match tracker.remove tracked with
      | (tracker, true) => (tracker, bridsToCancel, true)
      | (tracker, false) => cancelOlder builderName newestChangeTime tracker (bridsToCancel ++ [tracked.brid]) rest

def maybeCancelNewObsoletedBuildrequest (builderName : String) (tracker : OldBuildrequestTracker β) :
    List SourceStamp → OldBuildrequestTracker β × List TrackerEffect
  | [] => (tracker, [])
  | sourcestamp :: rest =>
    match tracker.changeTimeBySs (tracker.ssTuple sourcestamp) with
    | none => maybeCancelNewObsoletedBuildrequest builderName tracker rest
    | some newestChangeTime =>
      match cancelOlder builderName newestChangeTime tracker [] (tracker.brBySs (tracker.ssTuple sourcestamp)) with
      | (tracker, _, true) => (tracker, [.keyError])
      | (tracker, bridsToCancel, false) =>
        let (tracker, effects) := maybeCancelNewObsoletedBuildrequest builderName tracker rest
        (tracker, bridsToCancel.map .onCancel ++ effects)

def onNewBuildrequest (now : Rat) (brid : Nat) (builderName : String) (sourcestamps : List SourceStamp) :
    OldBuildrequestTracker β × List TrackerEffect :=
  let (tracker, effects) := maybeCancelNewObsoletedBuildrequest builderName tracker sourcestamps
  if .keyError ∈ effects then (tracker, effects)
  else (tracker.addNewBuildrequest now brid builderName sourcestamps, effects)

def onCompleteBuildrequest (brid : Nat) : OldBuildrequestTracker β × List TrackerEffect :=
  match tracker.brById brid with
  | none => (tracker, [])
  | some tracked =>
    match { tracker with brById := Function.update tracker.brById brid none }.remove tracked with
    | (tracker, raised) => (tracker, if raised then [.keyError] else [])

def onChange (now : Rat) (change : SourceStamp) : OldBuildrequestTracker β :=
  let changeTimeBySs := Function.update tracker.changeTimeBySs (tracker.ssTuple change) (some now)
  if 1000 ≤ tracker.changeCountSinceClean + 1 then
    { tracker with
      changeTimeBySs := fun ssTuple => (changeTimeBySs ssTuple).filter fun ssNow => now - ssNow < 60 * 10
      changeCountSinceClean := 0 }
  else { tracker with changeTimeBySs, changeCountSinceClean := tracker.changeCountSinceClean + 1 }

end

def reconfig (config : CancellerConfig β) : OldBuildrequestTracker β := { tracker with config }

def start (config : CancellerConfig β) : OldBuildrequestTracker β := ⟨config, fun _ => none, fun _ => [], fun _ => none, 0⟩

/-- The indexes are inverse to each other. -/
structure Inverse : Prop where
  indexed : ∀ ssTuple tracked, tracked ∈ tracker.brBySs ssTuple ↔
    tracker.brById tracked.brid = some tracked ∧ ssTuple ∈ tracked.ssTuples
  own : ∀ brid tracked, tracker.brById brid = some tracked → tracked.brid = brid

/-- No tuple of a request and no request of a tuple is there twice. -/
structure Distinct : Prop where
  tuples : ∀ brid tracked, tracker.brById brid = some tracked → tracked.ssTuples.Nodup
  requests : ∀ ssTuple, (tracker.brBySs ssTuple).Nodup

/-- What is left when a request is taken out of both indexes. -/
def forget (brid : Nat) : OldBuildrequestTracker β :=
  { tracker with
    brById := Function.update tracker.brById brid none
    brBySs := fun ssTuple => (tracker.brBySs ssTuple).filter (·.brid ≠ brid) }

/-- A tracked request that a new one makes obsolete: for the same builder and one of its tuples, older than the last
change there. -/
def Obsolete (builderName : String) (sourcestamps : List SourceStamp) (tracked : TrackedBuildRequest β) : Prop :=
  tracked.builderName = builderName ∧ ∃ sourcestamp ∈ sourcestamps, tracker.ssTuple sourcestamp ∈ tracked.ssTuples ∧
    ∃ newestChangeTime, tracker.changeTimeBySs (tracker.ssTuple sourcestamp) = some newestChangeTime ∧
      tracked.startTime < newestChangeTime

/-- Requests have been taken out. -/
structure Shrinks (after : OldBuildrequestTracker β) : Prop where
  config : after.config = tracker.config
  changeTimeBySs : after.changeTimeBySs = tracker.changeTimeBySs
  brById : ∀ brid tracked, after.brById brid = some tracked → tracker.brById brid = some tracked

variable {tracker} {after : OldBuildrequestTracker β} {tracked : TrackedBuildRequest β} {brid : Nat}

theorem Shrinks.refl : tracker.Shrinks tracker := ⟨rfl, rfl, fun _ _ found => found⟩

theorem Shrinks.trans {last : OldBuildrequestTracker β} (first : tracker.Shrinks after) (second : after.Shrinks last) :
    tracker.Shrinks last :=
  ⟨second.config.trans first.config, second.changeTimeBySs.trans first.changeTimeBySs,
    fun brid tracked found => first.brById brid tracked (second.brById brid tracked found)⟩

theorem Shrinks.missing (shrinks : tracker.Shrinks after) (missing : tracker.brById brid = none) :
    after.brById brid = none := by
  by_contra present
  obtain ⟨tracked, found⟩ := Option.ne_none_iff_exists'.mp present
  rw [shrinks.brById brid tracked found] at missing
  cases missing

theorem Shrinks.matchedTuples (shrinks : tracker.Shrinks after) :
    after.matchedTuples = tracker.matchedTuples := by
  unfold OldBuildrequestTracker.matchedTuples OldBuildrequestTracker.ssTuple
  rw [shrinks.config]

theorem Shrinks.ssTuple (shrinks : tracker.Shrinks after) (ss : SourceStamp) : after.ssTuple ss = tracker.ssTuple ss := by
  unfold OldBuildrequestTracker.ssTuple
  rw [shrinks.config]

theorem Shrinks.obsolete (shrinks : tracker.Shrinks after) {builderName : String} {sourcestamps : List SourceStamp}
    (obsolete : after.Obsolete builderName sourcestamps tracked) : tracker.Obsolete builderName sourcestamps tracked := by
  obtain ⟨same, sourcestamp, member, shared, newest, changed, older⟩ := obsolete
  rw [shrinks.ssTuple] at shared changed
  rw [shrinks.changeTimeBySs] at changed
  exact ⟨same, sourcestamp, member, shared, newest, changed, older⟩

theorem brById_forget {other : Nat} (found : (tracker.forget brid).brById other = some tracked) :
    other ≠ brid ∧ tracker.brById other = some tracked := by
  have found : Function.update tracker.brById brid none other = some tracked := found
  by_cases same : other = brid
  · rw [same, Function.update_self] at found
    cases found
  · exact ⟨same, by rwa [Function.update_of_ne same] at found⟩

theorem forget_shrinks (tracker : OldBuildrequestTracker β) (brid : Nat) : tracker.Shrinks (tracker.forget brid) :=
  ⟨rfl, rfl, fun _ _ found => (brById_forget found).2⟩

theorem Inverse.forget (inverse : tracker.Inverse) (brid : Nat) : (tracker.forget brid).Inverse := by
  refine ⟨fun ssTuple tracked => ?_, fun other tracked found => inverse.own other tracked (brById_forget found).2⟩
  rw [OldBuildrequestTracker.forget, List.mem_filter, inverse.indexed]
  constructor
  · rintro ⟨⟨found, listed⟩, other⟩
    have other : tracked.brid ≠ brid := by simpa using other
    exact ⟨(Function.update_of_ne other _ _).trans found, listed⟩
  · rintro ⟨found, listed⟩
    obtain ⟨other, found⟩ := brById_forget found
    exact ⟨⟨found, listed⟩, by simpa using other⟩

theorem Distinct.forget (distinct : tracker.Distinct) (brid : Nat) : (tracker.forget brid).Distinct :=
  ⟨fun other tracked found => distinct.tuples other tracked (brById_forget found).2,
    fun ssTuple => (distinct.requests ssTuple).filter _⟩

theorem Inverse.absent (inverse : tracker.Inverse) (missing : tracker.brById brid = none) {ssTuple : SsTuple β}
    {other : TrackedBuildRequest β} (member : other ∈ tracker.brBySs ssTuple) : other.brid ≠ brid := by
  intro same
  have found := ((inverse.indexed ssTuple other).mp member).1
  rw [same, missing] at found
  cases found

variable [DecidableEq β]

theorem clear_eq (brid : Nat) (brBySs : SsTuple β → List (TrackedBuildRequest β)) {ssTuples : List (SsTuple β)}
    (distinct : ssTuples.Nodup) (present : ∀ ssTuple ∈ ssTuples, (brBySs ssTuple).any (·.brid = brid)) :
    clear brid brBySs ssTuples =
      (fun ssTuple => if ssTuple ∈ ssTuples then (brBySs ssTuple).filter (·.brid ≠ brid) else brBySs ssTuple,
        false) := by
  induction ssTuples generalizing brBySs with
  | nil => simp [clear]
  | cons first rest ih =>
    obtain ⟨fresh, distinct⟩ := List.nodup_cons.mp distinct
    have other {ssTuple : SsTuple β} (member : ssTuple ∈ rest) : ssTuple ≠ first := fun same => fresh (same ▸ member)
    rw [clear, if_pos (present first List.mem_cons_self), ih _ distinct]
    · congr 1
      funext ssTuple
      by_cases same : ssTuple = first
      · subst same
        simp [fresh]
      · simp [same]
    · intro ssTuple member
      rw [Function.update_of_ne (other member)]
      exact present ssTuple (List.mem_cons_of_mem _ member)

/-- Taking out a tracked request raises nothing. -/
theorem Inverse.clear (inverse : tracker.Inverse) (distinct : tracker.Distinct)
    (found : tracker.brById brid = some tracked) :
    OldBuildrequestTracker.clear tracked.brid tracker.brBySs tracked.ssTuples =
      ((tracker.forget tracked.brid).brBySs, false) := by
  have own := inverse.own brid tracked found
  subst own
  have listed {ssTuple : SsTuple β} (member : ssTuple ∈ tracked.ssTuples) : tracked ∈ tracker.brBySs ssTuple :=
    (inverse.indexed ssTuple tracked).mpr ⟨found, member⟩
  rw [clear_eq tracked.brid tracker.brBySs (distinct.tuples _ tracked found)]
  · congr 1
    funext ssTuple
    split
    · rfl
    · rename_i elsewhere
      refine (List.filter_eq_self.mpr fun other member => ?_).symm
      -- Another request under this tuple has another number.
      obtain ⟨indexed, shared⟩ := (inverse.indexed ssTuple other).mp member
      have different : other.brid ≠ tracked.brid := by
        intro same
        rw [same, found] at indexed
        cases indexed
        exact elsewhere shared
      simpa using different
  · intro ssTuple member
    exact List.any_eq_true.mpr ⟨tracked, listed member, by simp⟩

theorem Inverse.remove (inverse : tracker.Inverse) (distinct : tracker.Distinct)
    (found : tracker.brById brid = some tracked) : tracker.remove tracked = (tracker.forget brid, false) := by
  have own := inverse.own brid tracked found
  unfold OldBuildrequestTracker.remove
  rw [inverse.clear distinct found, own]
  rfl

/-- Completing a request raises nothing and leaves it untracked. -/
theorem complete_correct (inverse : tracker.Inverse) (distinct : tracker.Distinct) (brid : Nat) :
    ∃ after, tracker.onCompleteBuildrequest brid = (after, []) ∧ after.Inverse ∧ after.Distinct ∧
      tracker.Shrinks after ∧ after.brById brid = none := by
  unfold onCompleteBuildrequest
  split
  · rename_i missing
    exact ⟨tracker, rfl, inverse, distinct, .refl, missing⟩
  · rename_i tracked found
    have own := inverse.own brid tracked found
    refine ⟨tracker.forget brid, ?_, inverse.forget brid, distinct.forget brid, forget_shrinks tracker brid,
      Function.update_self ..⟩
    dsimp only [OldBuildrequestTracker.remove]
    rw [inverse.clear distinct found, own]
    simp [OldBuildrequestTracker.forget]

/-- The loop over requests that are tracked takes out those that the new one makes obsolete. -/
theorem cancelOlder_correct (builderName : String) (newestChangeTime : Rat) (inverse : tracker.Inverse)
    (distinct : tracker.Distinct) (bridsToCancel : List Nat) {values : List (TrackedBuildRequest β)}
    (nodup : values.Nodup) (tracks : ∀ tracked ∈ values, tracker.brById tracked.brid = some tracked) :
    ∃ after cancelled, cancelOlder builderName newestChangeTime tracker bridsToCancel values =
        (after, bridsToCancel ++ cancelled, false) ∧
      after.Inverse ∧ after.Distinct ∧ tracker.Shrinks after ∧
      ∀ brid ∈ cancelled, ∃ tracked ∈ values, tracked.brid = brid ∧ tracked.builderName = builderName ∧
        tracked.startTime < newestChangeTime := by
  induction values generalizing tracker bridsToCancel with
  | nil => exact ⟨tracker, [], by simp [cancelOlder], inverse, distinct, .refl, nofun⟩
  | cons tracked rest ih =>
    obtain ⟨fresh, nodup⟩ := List.nodup_cons.mp nodup
    have found := tracks tracked List.mem_cons_self
    unfold cancelOlder
    split
    · obtain ⟨after, cancelled, result, kept, alone, shrinks, obsolete⟩ :=
        ih inverse distinct bridsToCancel nodup fun other member => tracks other (List.mem_cons_of_mem _ member)
      refine ⟨after, cancelled, result, kept, alone, shrinks, fun brid member => ?_⟩
      obtain ⟨other, listed, facts⟩ := obsolete brid member
      exact ⟨other, List.mem_cons_of_mem _ listed, facts⟩
    · rename_i older
      rw [not_or, not_not, not_le] at older
      rw [if_neg (by simp [found]), inverse.remove distinct found]
      have still : ∀ other ∈ rest, (tracker.forget tracked.brid).brById other.brid = some other := by
        intro other member
        have present := tracks other (List.mem_cons_of_mem _ member)
        have different : other.brid ≠ tracked.brid := by
          intro same
          rw [same, found] at present
          cases present
          exact fresh member
        exact (Function.update_of_ne different _ _).trans present
      obtain ⟨after, cancelled, result, kept, alone, shrinks, obsolete⟩ := ih (inverse.forget tracked.brid)
        (distinct.forget tracked.brid) (bridsToCancel ++ [tracked.brid]) nodup still
      refine ⟨after, tracked.brid :: cancelled, ?_, kept, alone, (forget_shrinks tracker _).trans shrinks,
        fun brid member => ?_⟩
      · rw [List.append_assoc] at result
        exact result
      · rcases List.mem_cons.mp member with rfl | later
        · exact ⟨tracked, List.mem_cons_self, rfl, older⟩
        · obtain ⟨other, listed, facts⟩ := obsolete brid later
          exact ⟨other, List.mem_cons_of_mem _ listed, facts⟩

theorem maybeCancel_correct (builderName : String) (inverse : tracker.Inverse) (distinct : tracker.Distinct)
    (sourcestamps : List SourceStamp) :
    ∃ (after : OldBuildrequestTracker β) (cancelled : List Nat),
      maybeCancelNewObsoletedBuildrequest builderName tracker sourcestamps = (after, cancelled.map .onCancel) ∧
      after.Inverse ∧ after.Distinct ∧ tracker.Shrinks after ∧
      ∀ brid ∈ cancelled, ∃ tracked, tracker.brById brid = some tracked ∧
        tracker.Obsolete builderName sourcestamps tracked := by
  induction sourcestamps generalizing tracker with
  | nil => exact ⟨tracker, [], rfl, inverse, distinct, .refl, nofun⟩
  | cons sourcestamp rest ih =>
    have later {tracker : OldBuildrequestTracker β} {tracked : TrackedBuildRequest β}
        (obsolete : tracker.Obsolete builderName rest tracked) :
        tracker.Obsolete builderName (sourcestamp :: rest) tracked := by
      obtain ⟨same, other, member, facts⟩ := obsolete
      exact ⟨same, other, List.mem_cons_of_mem _ member, facts⟩
    unfold maybeCancelNewObsoletedBuildrequest
    split
    · obtain ⟨after, cancelled, result, kept, alone, shrinks, obsolete⟩ := ih inverse distinct
      refine ⟨after, cancelled, result, kept, alone, shrinks, fun brid member => ?_⟩
      obtain ⟨tracked, found, facts⟩ := obsolete brid member
      exact ⟨tracked, found, later facts⟩
    · rename_i newestChangeTime changed
      obtain ⟨middle, first, result, kept, alone, shrinks, older⟩ := cancelOlder_correct builderName newestChangeTime
        inverse distinct [] (distinct.requests (tracker.ssTuple sourcestamp))
        fun tracked member => ((inverse.indexed _ tracked).mp member).1
      rw [result]
      obtain ⟨after, cancelled, rest, kept, alone, next, obsolete⟩ := ih kept alone
      dsimp only
      rw [rest]
      refine ⟨after, first ++ cancelled, by simp, kept, alone, shrinks.trans next, fun brid member => ?_⟩
      rcases List.mem_append.mp member with now | after
      · obtain ⟨tracked, listed, rfl, same, before⟩ := older brid now
        obtain ⟨found, shared⟩ := (inverse.indexed _ tracked).mp listed
        exact ⟨tracked, found, same, sourcestamp, List.mem_cons_self, shared, newestChangeTime, changed, before⟩
      · obtain ⟨tracked, found, facts⟩ := obsolete brid after
        exact ⟨tracked, shrinks.brById brid tracked found, later (shrinks.obsolete facts)⟩

theorem insertAll (tracked : TrackedBuildRequest β) (brBySs : SsTuple β → List (TrackedBuildRequest β))
    {ssTuples : List (SsTuple β)} (distinct : ssTuples.Nodup) (ssTuple : SsTuple β) :
    ssTuples.foldl (fun brBySs ssTuple => Function.update brBySs ssTuple (insert tracked (brBySs ssTuple))) brBySs
        ssTuple =
      if ssTuple ∈ ssTuples then insert tracked (brBySs ssTuple) else brBySs ssTuple := by
  induction ssTuples generalizing brBySs with
  | nil => simp
  | cons first rest ih =>
    obtain ⟨fresh, distinct⟩ := List.nodup_cons.mp distinct
    rw [List.foldl_cons, ih _ distinct]
    by_cases same : ssTuple = first
    · subst same
      simp [fresh]
    · simp [same]

variable (tracker) in
/-- What is left when a request that is not tracked is put into both indexes. -/
def track (tracked : TrackedBuildRequest β) : OldBuildrequestTracker β :=
  { tracker with
    brById := Function.update tracker.brById tracked.brid (some tracked)
    brBySs := fun ssTuple =>
      if ssTuple ∈ tracked.ssTuples then tracker.brBySs ssTuple ++ [tracked] else tracker.brBySs ssTuple }

theorem brById_track {number : Nat} {other : TrackedBuildRequest β}
    (found : (tracker.track tracked).brById number = some other) :
    number = tracked.brid ∧ other = tracked ∨ tracker.brById number = some other := by
  have found : Function.update tracker.brById tracked.brid (some tracked) number = some other := found
  by_cases same : number = tracked.brid
  · rw [same, Function.update_self] at found
    exact .inl ⟨same, (Option.some.inj found).symm⟩
  · rw [Function.update_of_ne same] at found
    exact .inr found

theorem Inverse.track (inverse : tracker.Inverse) (missing : tracker.brById tracked.brid = none) :
    (tracker.track tracked).Inverse := by
  refine ⟨fun ssTuple other => ?_, fun number other found => ?_⟩
  · show (other ∈ if _ then _ else _) ↔ Function.update tracker.brById tracked.brid (some tracked) other.brid = _ ∧ _
    by_cases same : other.brid = tracked.brid
    · have elsewhere : other ∉ tracker.brBySs ssTuple := fun member => inverse.absent missing member same
      rw [same, Function.update_self, Option.some_inj]
      constructor
      · intro member
        split at member
        · rename_i shared
          have now := (List.mem_append.mp member).resolve_left elsewhere
          rw [List.mem_singleton.mp now]
          exact ⟨rfl, shared⟩
        · exact absurd member elsewhere
      · rintro ⟨rfl, shared⟩
        rw [if_pos shared]
        exact List.mem_append_right _ (List.mem_singleton_self _)
    · have different : other ≠ tracked := fun equal => same (congrArg TrackedBuildRequest.brid equal)
      rw [Function.update_of_ne same, ← inverse.indexed]
      split
      · rw [List.mem_append, List.mem_singleton, or_iff_left different]
      · rfl
  · rcases brById_track found with ⟨rfl, rfl⟩ | earlier
    · rfl
    · exact inverse.own number other earlier

theorem Distinct.track (distinct : tracker.Distinct) (inverse : tracker.Inverse)
    (missing : tracker.brById tracked.brid = none) (nodup : tracked.ssTuples.Nodup) :
    (tracker.track tracked).Distinct := by
  refine ⟨fun number other found => ?_, fun ssTuple => ?_⟩
  · rcases brById_track found with ⟨_, rfl⟩ | earlier
    · exact nodup
    · exact distinct.tuples number other earlier
  · unfold OldBuildrequestTracker.track
    dsimp only
    split
    · refine (distinct.requests ssTuple).append (List.nodup_singleton _) ?_
      rw [List.disjoint_singleton]
      exact fun member => inverse.absent missing member rfl
    · exact distinct.requests ssTuple

/-- A request that is not tracked yet is added under each of its tuples. -/
theorem Inverse.add (inverse : tracker.Inverse) (now : Rat) (builderName : String) {sourcestamps : List SourceStamp}
    (matched : tracker.matchedTuples builderName sourcestamps ≠ [])
    (nodup : (tracker.matchedTuples builderName sourcestamps).Nodup) (missing : tracker.brById brid = none) :
    tracker.addNewBuildrequest now brid builderName sourcestamps =
      tracker.track ⟨now, builderName, brid, tracker.matchedTuples builderName sourcestamps⟩ := by
  unfold addNewBuildrequest OldBuildrequestTracker.track
  dsimp only
  rw [if_neg matched]
  congr 1
  funext ssTuple
  rw [insertAll _ _ nodup]
  congr 1
  refine if_neg fun any => ?_
  obtain ⟨other, member, same⟩ := List.any_eq_true.mp any
  exact inverse.absent missing member (of_decide_eq_true same)

end OldBuildrequestTracker

end Umbilical.Schedulers
