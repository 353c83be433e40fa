import Umbilical.Shared.Interleaving
import Umbilical.Requests.Severity
import Mathlib.Data.List.Nodup

set_option autoImplicit false

/-!
# The dependent scheduler

It records the buildsets of its upstream scheduler and, for each that succeeds, adds a
buildset for the same source stamps. Messages about buildsets are handled one at a time
under `_subscription_lock`; between the steps of a handler buildsets come and go.
-/

namespace Umbilical.Schedulers

open Interleaving Requests

structure Buildset where
  scheduler : String
  ssids : List Nat
  /-- `none` until the buildset is complete. -/
  results : Option Int
  removed : Bool
  deriving DecidableEq

def Buildset.complete (buildset : Buildset) : Bool := buildset.results.isSome

/-- `sub_results in (SUCCESS, WARNINGS)` -/
def successful (results : Option Int) : Bool := results = some SUCCESS ∨ results = some WARNINGS

/-- An entry of `_getUpstreamBuildsets`. -/
structure Subscription where
  bsid : Nat
  ssids : List Nat
  results : Option Int
  deriving DecidableEq

def Subscription.complete (sub : Subscription) : Bool := sub.results.isSome

/-- A handler that holds the lock or waits for it. -/
inductive Task where
  | new (bsid : Nat)
  | check (bsid : Option Nat)
  deriving DecidableEq

/-- Where the handler with the lock is. -/
inductive Phase where
  | idle
  | adding (bsid : Nat)
  | reading (bsid : Option Nat) (todo : List Nat) (rv : List Subscription) (changed : Bool)
  | pruning (bsid : Option Nat) (rv : List Subscription)
  | building (bsid : Option Nat) (subs : List Subscription) (subBsids : List Nat)
  | removing (subBsids : List Nat)
  deriving DecidableEq

structure Dependent where
  upstreamName : String
  /-- The table of buildsets. -/
  buildsets : Nat → Option Buildset
  /-- The stored state `upstream_bsids`. -/
  upstreamBsids : List Nat
  cachedUpstreamBsids : Option (List Nat)
  phase : Phase
  waiting : List Task
  /-- The buildsets that a `new` message has gone out for. -/
  announced : List Nat
  /-- The upstream buildsets whose `new` message has been handled. -/
  seen : List Nat
  /-- The buildsets that were added: for which upstream buildset, and with which source stamps. -/
  downstream : List (Nat × List Nat)

inductive Event where
  | create (bsid : Nat) (scheduler : String) (ssids : List Nat)
  | complete (bsid : Nat) (results : Int)
  | remove (bsid : Nat)
  | newMessage (bsid : Nat)
  | completeMessage (bsid : Nat)
  | activate
  /-- The handler with the lock takes its next step; a call of `addBuildsetForSourceStamps` in it raises or not. -/
  | proceed (raises : Bool)
  deriving DecidableEq

namespace Dependent

variable (dependent : Dependent)

/-- What `master.data.get(('buildsets', bsid))` finds. -/
def get (bsid : Nat) : Option Buildset :=
  match dependent.buildsets bsid with
  | some buildset => if buildset.removed then none else some buildset
  | none => none

def update (bsid : Nat) (change : Buildset → Buildset) : Dependent :=
  { dependent with buildsets := Function.update dependent.buildsets bsid ((dependent.buildsets bsid).map change) }

/-- The cache after `_updateCachedUpstreamBuilds`. -/
def cached : List Nat := dependent.cachedUpstreamBsids.getD dependent.upstreamBsids

def enqueue (task : Task) : Dependent := { dependent with waiting := dependent.waiting ++ [task] }

/-- The next handler gets the lock, and fills the cache. -/
def grant : Dependent :=
  match dependent.waiting with
  | [] => dependent
  | .new bsid :: rest =>
    { dependent with waiting := rest, cachedUpstreamBsids := some dependent.cached, phase := .adding bsid }
  | .check bsid :: rest =>
    { dependent with waiting := rest, cachedUpstreamBsids := some dependent.cached, phase := .reading bsid dependent.cached [] false }

/-- `setState(self.objectid, 'upstream_bsids', self._cached_upstream_bsids)`, with this for the cache. -/
def setState (bsids : List Nat) : Dependent := { dependent with cachedUpstreamBsids := some bsids, upstreamBsids := bsids }

def add (bsid : Nat) : Dependent :=
  { dependent.setState (if bsid ∈ dependent.cached then dependent.cached else dependent.cached ++ [bsid]) with
    phase := .idle, seen := dependent.seen ++ [bsid] }

/-- One buildset read by `_getUpstreamBuildsets`, or the end of its loop. -/
def read (bsid : Option Nat) (todo : List Nat) (rv : List Subscription) (changed : Bool) : Dependent :=
  match todo with
  | [] => { dependent with phase := if changed then .pruning bsid rv else .building bsid rv [] }
  | next :: rest =>
    match dependent.get next with
    | none => { dependent with cachedUpstreamBsids := some (dependent.cached.erase next), phase := .reading bsid rest rv true }
    | some buildset =>
      { dependent with phase := .reading bsid rest (rv ++ [⟨next, buildset.ssids, buildset.results⟩]) changed }

/-- One turn of the loop over the subscriptions, or its end. -/
def build (bsid : Option Nat) (subs : List Subscription) (subBsids : List Nat) (raises : Bool) : Dependent :=
  match subs with
  | [] => { dependent with phase := .removing subBsids }
  | sub :: rest =>
    if sub.complete = false ∧ some sub.bsid ≠ bsid then { dependent with phase := .building bsid rest subBsids }
    else if successful sub.results then
      -- What has been built for so far stays in the list.
      if raises then { dependent with phase := .idle }
      else
        { dependent with
          downstream := dependent.downstream ++ [(sub.bsid, sub.ssids)]
          phase := .building bsid rest (subBsids ++ [sub.bsid]) }
    else { dependent with phase := .building bsid rest (subBsids ++ [sub.bsid]) }

/-- `list(old - set(bsids))`, in the order of the list. -/
def removeAll (subBsids : List Nat) : Dependent :=
  { dependent.setState (dependent.cached.filter (· ∉ subBsids)) with phase := .idle }

def proceed (raises : Bool) : Dependent :=
  match dependent.phase with
  | .idle => dependent.grant
  | .adding bsid => dependent.add bsid
  | .reading bsid todo rv changed => dependent.read bsid todo rv changed
  | .pruning bsid rv => { dependent.setState dependent.cached with phase := .building bsid rv [] }
  | .building bsid subs subBsids => dependent.build bsid subs subBsids raises
  | .removing subBsids => dependent.removeAll subBsids

def step (event : Event) : Dependent × List Unit :=
  match event with
  | .create bsid scheduler ssids =>
    -- Numbers are not given twice.
    (if dependent.buildsets bsid = none ∧ bsid ∉ dependent.announced then
      { dependent with buildsets := Function.update dependent.buildsets bsid (some ⟨scheduler, ssids, none, false⟩) }
    else dependent, [])
  | .complete bsid results =>
    (dependent.update bsid fun buildset => if buildset.complete then buildset else { buildset with results := some results }, [])
  | .remove bsid => (dependent.update bsid fun buildset => { buildset with removed := true }, [])
  | .newMessage bsid =>
    -- A buildset is announced once, after it has been added.
    (match dependent.buildsets bsid with
      | some buildset =>
        if bsid ∈ dependent.announced then dependent
        else if buildset.scheduler = dependent.upstreamName then
          { dependent.enqueue (.new bsid) with announced := dependent.announced ++ [bsid] }
        else { dependent with announced := dependent.announced ++ [bsid] }
      | none => dependent, [])
  | .completeMessage bsid =>
    -- The message goes out after the row has been completed.
    (match dependent.buildsets bsid with
      | some buildset => if buildset.complete then dependent.enqueue (.check (some bsid)) else dependent
      | none => dependent, [])
  | .activate => (dependent.enqueue (.check none), [])
  | .proceed raises => (dependent.proceed raises, [])

/-- A scheduler that comes up with what an earlier process has stored. -/
def start (upstreamName : String) (buildsets : Nat → Option Buildset) (stored : List Nat) : Dependent where
  upstreamName := upstreamName
  buildsets := buildsets
  upstreamBsids := stored
  cachedUpstreamBsids := none
  phase := .idle
  waiting := []
  announced := stored
  seen := stored
  downstream := []

/-- The buildset is complete or gone. -/
def Over (bsid : Nat) : Prop := ∀ buildset, dependent.get bsid = some buildset → buildset.complete

def Built (bsid : Nat) : Prop := bsid ∈ dependent.downstream.map Prod.fst

structure Follows : Prop where
  once : (dependent.downstream.map Prod.fst).Nodup
  stamps : ∀ bsid ssids, (bsid, ssids) ∈ dependent.downstream →
    ∃ buildset, dependent.buildsets bsid = some buildset ∧ buildset.ssids = ssids ∧ successful buildset.results
  leaves : ∀ bsid ∈ dependent.seen, bsid ∉ dependent.upstreamBsids → dependent.Over bsid
  followed : dependent.phase = .idle → (∀ bsid ∈ dependent.upstreamBsids, ∀ buildset, dependent.get bsid = some buildset →
      buildset.complete = false) →
    ∀ bsid ∈ dependent.seen, ∀ buildset, dependent.get bsid = some buildset → successful buildset.results → dependent.Built bsid

/-- No call of `addBuildsetForSourceStamps` raises in a check that has already added a buildset. -/
def Steady : Event → Prop
  | .proceed true =>
    match dependent.phase with
    | .building _ _ subBsids => ∀ bsid ∈ subBsids, ¬ dependent.Built bsid
    | _ => True
  | _ => True

/-- Complete or gone, and built for if it has succeeded. -/
def Settled (bsid : Nat) : Prop := ∀ buildset, dependent.get bsid = some buildset →
  buildset.complete ∧ (successful buildset.results → dependent.Built bsid)

/-- What was read of a buildset is still so, except that it may have been completed. -/
def Faithful (sub : Subscription) : Prop := ∃ buildset, dependent.buildsets sub.bsid = some buildset ∧
  buildset.ssids = sub.ssids ∧ (sub.complete → buildset.results = sub.results)

/-- What a check has still to read, has read, and has done, when `bsid` is the buildset it was called for. -/
structure Snapshot (bsid : Option Nat) (todo : List Nat) (subs : List Subscription) (done : List Nat) : Prop where
  distinct : (done ++ subs.map Subscription.bsid ++ todo).Nodup
  listed : ∀ next ∈ done ++ subs.map Subscription.bsid ++ todo, next ∈ dependent.cached
  faithful : ∀ sub ∈ subs, dependent.Faithful sub
  current : ∀ sub ∈ subs, some sub.bsid = bsid → sub.complete
  settled : ∀ next ∈ done, dependent.Settled next
  unbuilt : ∀ next ∈ dependent.upstreamBsids, dependent.Built next → next ∈ done

/-- The cache has the stored list, except for buildsets that are gone. -/
def Pruned : Prop := dependent.cached.Sublist dependent.upstreamBsids ∧
  ∀ bsid ∈ dependent.upstreamBsids, bsid ∉ dependent.cached → dependent.get bsid = none

/-- The buildset of a message about its completion. -/
def Completed (bsid : Nat) : Prop := ∃ buildset, dependent.buildsets bsid = some buildset ∧ buildset.complete

/-- What the handler with the lock relies on, in each phase. -/
def Progress (phase : Phase) : Prop :=
  match phase with
  | .idle | .adding _ => dependent.cached = dependent.upstreamBsids ∧ dependent.Snapshot none [] [] []
  | .reading bsid todo rv changed => dependent.Pruned ∧ (changed = false → dependent.cached = dependent.upstreamBsids) ∧
      dependent.Snapshot bsid todo rv [] ∧ ∀ other, bsid = some other → dependent.Completed other
  | .pruning bsid rv => dependent.Pruned ∧ dependent.Snapshot bsid [] rv []
  | .building bsid subs subBsids => dependent.cached = dependent.upstreamBsids ∧ dependent.Snapshot bsid [] subs subBsids
  | .removing subBsids => dependent.cached = dependent.upstreamBsids ∧ dependent.Snapshot none [] [] subBsids

/-- The upstream buildsets whose `new` message is still to be handled. -/
def news : List Nat :=
  (match dependent.phase with
    | .adding bsid => [bsid]
    | _ => []) ++ dependent.waiting.filterMap fun task => match task with
      | .new bsid => some bsid
      | .check _ => none

structure Sound : Prop where
  nodup : dependent.upstreamBsids.Nodup
  listed : ∀ bsid ∈ dependent.upstreamBsids, bsid ∈ dependent.seen
  announced : ∀ bsid ∈ dependent.seen, bsid ∈ dependent.announced
  news : dependent.news.Nodup
  unseen : ∀ bsid ∈ dependent.news, bsid ∈ dependent.announced ∧ bsid ∉ dependent.seen
  checks : ∀ bsid, .check (some bsid) ∈ dependent.waiting → dependent.Completed bsid
  once : (dependent.downstream.map Prod.fst).Nodup
  stamps : ∀ item ∈ dependent.downstream, item.1 ∈ dependent.seen ∧
    ∃ buildset, dependent.buildsets item.1 = some buildset ∧ buildset.ssids = item.2 ∧ successful buildset.results
  settled : ∀ bsid ∈ dependent.seen, bsid ∉ dependent.upstreamBsids → dependent.Settled bsid
  progress : dependent.Progress dependent.phase

variable {dependent : Dependent}

theorem complete_of_successful {buildset : Buildset} (success : successful buildset.results) : buildset.complete := by
  unfold Buildset.complete
  cases results : buildset.results with
  | none => simp [results, successful] at success
  | some _ => rfl

theorem Settled.over {bsid : Nat} (settled : dependent.Settled bsid) : dependent.Over bsid :=
  fun buildset found => (settled buildset found).1

theorem Sound.follows (sound : dependent.Sound) : dependent.Follows where
  once := sound.once
  stamps bsid ssids member := (sound.stamps (bsid, ssids) member).2
  leaves bsid seen unlisted := (sound.settled bsid seen unlisted).over
  followed idle open_ bsid seen buildset found success := by
    by_cases listed : bsid ∈ dependent.upstreamBsids
    · have incomplete := open_ bsid listed buildset found
      have complete : buildset.complete = true := by
        unfold Buildset.complete
        cases results : buildset.results with
        | none => simp [results, successful] at success
        | some _ => rfl
      rw [incomplete] at complete
      cases complete
    · exact (sound.settled bsid seen listed buildset found).2 success

theorem start_sound (upstreamName : String) (buildsets : Nat → Option Buildset) {stored : List Nat}
    (nodup : stored.Nodup) : (start upstreamName buildsets stored).Sound where
  nodup := nodup
  listed _ listed := listed
  announced _ seen := seen
  news := List.nodup_nil
  unseen := nofun
  checks := nofun
  once := List.nodup_nil
  stamps := nofun
  settled _ seen unlisted := absurd seen unlisted
  progress := by
    refine ⟨rfl, ?_⟩
    constructor <;> simp [start, Built]

section Evolution

/-- The table of buildsets after rows have been added, completed or removed. -/
structure Evolves (dependent : Dependent) (buildsets : Nat → Option Buildset) : Prop where
  kept : ∀ bsid buildset, dependent.buildsets bsid = some buildset → ∃ later, buildsets bsid = some later ∧
    later.ssids = buildset.ssids ∧ (buildset.complete → later.results = buildset.results) ∧
    (buildset.removed → later.removed)
  absent : ∀ bsid ∈ dependent.announced, dependent.buildsets bsid = none → buildsets bsid = none

variable {buildsets : Nat → Option Buildset} {bsid : Nat}

theorem get_eq_some {buildset : Buildset} :
    dependent.get bsid = some buildset ↔ dependent.buildsets bsid = some buildset ∧ buildset.removed = false := by
  unfold get
  cases found : dependent.buildsets bsid with
  | none => simp
  | some other =>
    by_cases removed : other.removed
    · simp only [removed, if_true, reduceCtorEq, Option.some.injEq, false_iff, not_and, Bool.not_eq_false]
      rintro rfl
      exact removed
    · simp only [removed, Option.some.injEq, Bool.false_eq_true, if_false]
      constructor
      · rintro rfl
        exact ⟨rfl, by simpa using removed⟩
      · exact And.left

theorem Evolves.get (evolves : dependent.Evolves buildsets) (announced : bsid ∈ dependent.announced) {later : Buildset}
    (found : ({ dependent with buildsets } : Dependent).get bsid = some later) :
    ∃ buildset, dependent.get bsid = some buildset ∧ (buildset.complete → later.results = buildset.results) := by
  obtain ⟨row, stays⟩ := get_eq_some.mp found
  cases before : dependent.buildsets bsid with
  | none =>
    have none := evolves.absent bsid announced before
    exact absurd (row.symm.trans none) (by simp)
  | some buildset =>
    obtain ⟨other, same, _, results, removed⟩ := evolves.kept bsid buildset before
    obtain rfl : other = later := Option.some.inj (same.symm.trans row)
    refine ⟨buildset, get_eq_some.mpr ⟨before, ?_⟩, results⟩
    by_contra gone
    rw [removed (by simpa using gone)] at stays
    cases stays

theorem Settled.evolves (settled : dependent.Settled bsid) (evolves : dependent.Evolves buildsets)
    (announced : bsid ∈ dependent.announced) : ({ dependent with buildsets } : Dependent).Settled bsid := by
  intro later found
  obtain ⟨buildset, before, results⟩ := evolves.get announced found
  obtain ⟨complete, built⟩ := settled buildset before
  have same := results complete
  refine ⟨?_, fun success => built (same ▸ success)⟩
  unfold Buildset.complete at complete ⊢
  rwa [same]

theorem Completed.evolves (completed : dependent.Completed bsid) (evolves : dependent.Evolves buildsets) :
    ({ dependent with buildsets } : Dependent).Completed bsid := by
  obtain ⟨buildset, found, complete⟩ := completed
  obtain ⟨later, row, _, results, _⟩ := evolves.kept bsid buildset found
  refine ⟨later, row, ?_⟩
  unfold Buildset.complete at complete ⊢
  rwa [results complete]

theorem Faithful.evolves {sub : Subscription} (faithful : dependent.Faithful sub)
    (evolves : dependent.Evolves buildsets) : ({ dependent with buildsets } : Dependent).Faithful sub := by
  obtain ⟨buildset, found, ssids, results⟩ := faithful
  obtain ⟨later, row, same, kept, _⟩ := evolves.kept _ buildset found
  refine ⟨later, row, same.trans ssids, fun complete => ?_⟩
  have before := results complete
  rw [kept _, before]
  unfold Buildset.complete
  rwa [before]

theorem Pruned.evolves (pruned : dependent.Pruned) (evolves : dependent.Evolves buildsets)
    (announced : ∀ bsid ∈ dependent.upstreamBsids, bsid ∈ dependent.announced) :
    ({ dependent with buildsets } : Dependent).Pruned := by
  refine ⟨pruned.1, fun bsid listed unlisted => ?_⟩
  cases found : ({ dependent with buildsets } : Dependent).get bsid with
  | none => rfl
  | some later =>
    obtain ⟨buildset, before, _⟩ := evolves.get (announced bsid listed) found
    exact absurd ((pruned.2 bsid listed unlisted).symm.trans before) (by simp)

theorem Snapshot.evolves {current : Option Nat} {todo : List Nat} {subs : List Subscription} {done : List Nat}
    (snapshot : dependent.Snapshot current todo subs done) (evolves : dependent.Evolves buildsets)
    (announced : ∀ bsid ∈ dependent.cached, bsid ∈ dependent.announced) :
    ({ dependent with buildsets } : Dependent).Snapshot current todo subs done where
  distinct := snapshot.distinct
  listed := snapshot.listed
  faithful sub member := (snapshot.faithful sub member).evolves evolves
  current := snapshot.current
  settled next member := by
    apply (snapshot.settled next member).evolves evolves
    exact announced next (snapshot.listed next (List.mem_append_left _ (List.mem_append_left _ member)))
  unbuilt := snapshot.unbuilt

theorem Sound.cached_announced (sound : dependent.Sound) : ∀ bsid ∈ dependent.cached, bsid ∈ dependent.announced := by
  have within : ∀ bsid ∈ dependent.cached, bsid ∈ dependent.upstreamBsids := by
    have progress := sound.progress
    intro bsid member
    cases phase : dependent.phase <;> rw [phase] at progress
    case reading => exact progress.1.1.subset member
    case pruning => exact progress.1.1.subset member
    all_goals exact progress.1 ▸ member
  exact fun bsid member => sound.announced bsid (sound.listed bsid (within bsid member))

theorem Progress.evolves {phase : Phase} (progress : dependent.Progress phase) (evolves : dependent.Evolves buildsets)
    (upstream : ∀ bsid ∈ dependent.upstreamBsids, bsid ∈ dependent.announced)
    (cached : ∀ bsid ∈ dependent.cached, bsid ∈ dependent.announced) :
    ({ dependent with buildsets } : Dependent).Progress phase := by
  cases phase with
  | reading bsid todo rv changed =>
    obtain ⟨pruned, same, snapshot, completed⟩ := progress
    exact ⟨pruned.evolves evolves upstream, same, snapshot.evolves evolves cached,
      fun other called => (completed other called).evolves evolves⟩
  | pruning bsid rv => exact ⟨progress.1.evolves evolves upstream, progress.2.evolves evolves cached⟩
  | idle => exact ⟨progress.1, progress.2.evolves evolves cached⟩
  | adding bsid => exact ⟨progress.1, progress.2.evolves evolves cached⟩
  | building bsid subs subBsids => exact ⟨progress.1, progress.2.evolves evolves cached⟩
  | removing subBsids => exact ⟨progress.1, progress.2.evolves evolves cached⟩

theorem Sound.evolves (sound : dependent.Sound) (evolves : dependent.Evolves buildsets) :
    ({ dependent with buildsets } : Dependent).Sound where
  nodup := sound.nodup
  listed := sound.listed
  announced := sound.announced
  news := sound.news
  unseen := sound.unseen
  checks bsid member := (sound.checks bsid member).evolves evolves
  once := sound.once
  stamps item member := by
    obtain ⟨seen, buildset, found, ssids, success⟩ := sound.stamps item member
    obtain ⟨later, row, same, kept, _⟩ := evolves.kept _ buildset found
    refine ⟨seen, later, row, same.trans ssids, ?_⟩
    rw [kept (complete_of_successful success)]
    exact success
  settled bsid seen unlisted := (sound.settled bsid seen unlisted).evolves evolves (sound.announced bsid seen)
  progress := by
    apply sound.progress.evolves evolves _ sound.cached_announced
    exact fun bsid listed => sound.announced bsid (sound.listed bsid listed)

theorem Sound.update (sound : dependent.Sound) (bsid : Nat) {change : Buildset → Buildset}
    (ssids : ∀ buildset, (change buildset).ssids = buildset.ssids)
    (results : ∀ buildset, buildset.complete → (change buildset).results = buildset.results)
    (removed : ∀ buildset, buildset.removed → (change buildset).removed) : (dependent.update bsid change).Sound := by
  apply sound.evolves
  constructor
  · intro other buildset found
    by_cases same : other = bsid
    · subst same
      exact ⟨change buildset, by simp [found], ssids buildset, results buildset, removed buildset⟩
    · exact ⟨buildset, by simp [same, found], rfl, fun _ => rfl, id⟩
  · intro other _ absent
    by_cases same : other = bsid
    · subst same
      simp [absent]
    · simp [same, absent]

theorem Sound.create (sound : dependent.Sound) {bsid : Nat} (absent : dependent.buildsets bsid = none)
    (fresh : bsid ∉ dependent.announced) (buildset : Buildset) :
    ({ dependent with buildsets := Function.update dependent.buildsets bsid (some buildset) } : Dependent).Sound := by
  apply sound.evolves
  constructor
  · intro other before found
    have apart : other ≠ bsid := by
      rintro rfl
      exact absurd (absent.symm.trans found) (by simp)
    exact ⟨before, by simp [apart, found], rfl, fun _ => rfl, id⟩
  · intro other announced none
    have apart : other ≠ bsid := by
      rintro rfl
      exact fresh announced
    simp [apart, none]

end Evolution

section Congruence

variable {other : Dependent}

/-- Two states with the same tables and lists. -/
structure Same (dependent other : Dependent) : Prop where
  buildsets : other.buildsets = dependent.buildsets
  upstream : other.upstreamBsids = dependent.upstreamBsids
  cached : other.cached = dependent.cached
  downstream : other.downstream = dependent.downstream

theorem Same.get_eq (same : Same dependent other) : other.get = dependent.get := by
  funext bsid
  unfold get
  rw [same.buildsets]

theorem Same.settled_eq (same : Same dependent other) : other.Settled = dependent.Settled := by
  unfold Settled Built
  rw [same.get_eq, same.downstream]

theorem Same.completed_eq (same : Same dependent other) : other.Completed = dependent.Completed := by
  unfold Completed
  rw [same.buildsets]

theorem Same.pruned_eq (same : Same dependent other) : other.Pruned = dependent.Pruned := by
  unfold Pruned
  rw [same.upstream, same.cached, same.get_eq]

theorem Snapshot.congr {bsid : Option Nat} {todo done : List Nat} {subs : List Subscription}
    (snapshot : dependent.Snapshot bsid todo subs done) (same : Same dependent other) :
    other.Snapshot bsid todo subs done where
  distinct := snapshot.distinct
  listed := same.cached ▸ snapshot.listed
  faithful sub member := by
    unfold Faithful
    rw [same.buildsets]
    exact snapshot.faithful sub member
  current := snapshot.current
  settled := same.settled_eq ▸ snapshot.settled
  unbuilt := by
    unfold Built
    rw [same.upstream, same.downstream]
    exact snapshot.unbuilt

theorem Progress.congr {phase : Phase} (progress : dependent.Progress phase) (same : Same dependent other) :
    other.Progress phase := by
  cases phase with
  | idle => exact ⟨same.cached.trans (progress.1.trans same.upstream.symm), progress.2.congr same⟩
  | adding bsid => exact ⟨same.cached.trans (progress.1.trans same.upstream.symm), progress.2.congr same⟩
  | reading bsid todo rv changed =>
    obtain ⟨pruned, whole, snapshot, completed⟩ := progress
    refine ⟨same.pruned_eq ▸ pruned, fun unchanged => ?_, snapshot.congr same, same.completed_eq ▸ completed⟩
    exact same.cached.trans ((whole unchanged).trans same.upstream.symm)
  | pruning bsid rv => exact ⟨same.pruned_eq ▸ progress.1, progress.2.congr same⟩
  | building bsid subs subBsids =>
    exact ⟨same.cached.trans (progress.1.trans same.upstream.symm), progress.2.congr same⟩
  | removing subBsids => exact ⟨same.cached.trans (progress.1.trans same.upstream.symm), progress.2.congr same⟩

end Congruence

theorem news_enqueue (task : Task) : (dependent.enqueue task).news = dependent.news ++ (match task with
    | .new bsid => [bsid]
    | .check _ => []) := by
  cases task <;> simp [news, enqueue, List.filterMap_append]

theorem Sound.enqueue_check (sound : dependent.Sound) (bsid : Option Nat)
    (completed : ∀ other, bsid = some other → dependent.Completed other) : (dependent.enqueue (.check bsid)).Sound where
  nodup := sound.nodup
  listed := sound.listed
  announced := sound.announced
  news := by
    rw [news_enqueue, List.append_nil]
    exact sound.news
  unseen := by
    rw [news_enqueue, List.append_nil]
    exact sound.unseen
  checks other member := by
    rcases List.mem_append.mp member with earlier | now
    · exact sound.checks other earlier
    · exact completed other (Task.check.inj (List.mem_singleton.mp now)).symm
  once := sound.once
  stamps := sound.stamps
  settled := sound.settled
  progress := sound.progress.congr ⟨rfl, rfl, rfl, rfl⟩

theorem Sound.announce (sound : dependent.Sound) {bsid : Nat} :
    ({ dependent with announced := dependent.announced ++ [bsid] } : Dependent).Sound where
  nodup := sound.nodup
  listed := sound.listed
  announced other seen := List.mem_append_left _ (sound.announced other seen)
  news := sound.news
  unseen other member := ⟨List.mem_append_left _ (sound.unseen other member).1, (sound.unseen other member).2⟩
  checks := sound.checks
  once := sound.once
  stamps := sound.stamps
  settled := sound.settled
  progress := sound.progress.congr ⟨rfl, rfl, rfl, rfl⟩

theorem Sound.enqueue_new (sound : dependent.Sound) {bsid : Nat} (fresh : bsid ∉ dependent.announced) :
    ({ dependent.enqueue (.new bsid) with announced := dependent.announced ++ [bsid] } : Dependent).Sound := by
  have added : ({ dependent.enqueue (.new bsid) with announced := dependent.announced ++ [bsid] } : Dependent).news =
      dependent.news ++ [bsid] := @news_enqueue dependent (.new bsid)
  refine { sound.announce with
    news := ?_
    unseen := ?_
    checks := ?_
    progress := sound.progress.congr ⟨rfl, rfl, rfl, rfl⟩ }
  · rw [added]
    refine sound.news.append (List.nodup_singleton _) ?_
    rw [List.disjoint_singleton]
    exact fun member => fresh (sound.unseen bsid member).1
  · rw [added]
    intro other member
    rcases List.mem_append.mp member with earlier | now
    · exact ⟨List.mem_append_left _ (sound.unseen other earlier).1, (sound.unseen other earlier).2⟩
    · obtain rfl := List.mem_singleton.mp now
      exact ⟨List.mem_append_right _ now, fun seen => fresh (sound.announced other seen)⟩
  · intro other member
    rcases List.mem_append.mp member with earlier | now
    · exact sound.checks other earlier
    · cases List.mem_singleton.mp now

theorem Snapshot.initial {bsid : Option Nat} (same : dependent.cached = dependent.upstreamBsids)
    (nodup : dependent.upstreamBsids.Nodup) (snapshot : dependent.Snapshot none [] [] []) :
    dependent.Snapshot bsid dependent.cached [] [] where
  distinct := by simpa [same] using nodup
  listed next member := by simpa using member
  faithful := nofun
  current := nofun
  settled := nofun
  unbuilt := snapshot.unbuilt

theorem Sound.grant (sound : dependent.Sound) (idle : dependent.phase = .idle) : dependent.grant.Sound := by
  have progress := sound.progress
  rw [idle] at progress
  obtain ⟨same, snapshot⟩ := progress
  have news := sound.news
  have unseen := sound.unseen
  have checks := sound.checks
  simp only [Dependent.news, idle] at news unseen
  unfold Dependent.grant
  split
  · exact sound
  · rename_i bsid rest waiting
    rw [waiting] at news unseen checks
    exact { sound with
      news := news
      unseen := unseen
      checks := fun other member => checks other (List.mem_cons_of_mem _ member)
      stamps := sound.stamps
      progress := ⟨same, snapshot.congr ⟨rfl, rfl, rfl, rfl⟩⟩ }
  · rename_i bsid rest waiting
    rw [waiting] at news unseen checks
    refine { sound with
      news := news
      unseen := unseen
      checks := fun other member => checks other (List.mem_cons_of_mem _ member)
      stamps := sound.stamps
      progress := ?_ }
    refine ⟨?_, fun _ => same, (snapshot.initial same sound.nodup).congr ⟨rfl, rfl, rfl, rfl⟩, ?_⟩
    · refine ⟨?_, fun other listed unlisted => absurd listed (same ▸ unlisted)⟩
      exact same ▸ List.Sublist.refl _
    · rintro other rfl
      exact checks other List.mem_cons_self

theorem Sound.add (sound : dependent.Sound) {bsid : Nat} (adding : dependent.phase = .adding bsid) :
    (dependent.add bsid).Sound := by
  have progress := sound.progress
  rw [adding] at progress
  obtain ⟨same, snapshot⟩ := progress
  have news := sound.news
  have unseen := sound.unseen
  simp only [Dependent.news, adding, List.singleton_append, List.nodup_cons, List.mem_cons] at news unseen
  obtain ⟨announced, unhandled⟩ := unseen bsid (.inl rfl)
  have unlisted : bsid ∉ dependent.cached := fun member => unhandled (sound.listed bsid (same ▸ member))
  have appended : dependent.add bsid =
      { dependent.setState (dependent.upstreamBsids ++ [bsid]) with phase := .idle, seen := dependent.seen ++ [bsid] } := by
    unfold Dependent.add
    rw [if_neg unlisted, same]
  rw [appended]
  have unbuilt : ¬ dependent.Built bsid := by
    intro built
    obtain ⟨item, member, rfl⟩ := List.mem_map.mp built
    exact unhandled (sound.stamps item member).1
  constructor
  · refine sound.nodup.append (List.nodup_singleton _) ?_
    rw [List.disjoint_singleton]
    exact fun member => unlisted (same ▸ member)
  · intro other member
    rcases List.mem_append.mp member with earlier | now
    · exact List.mem_append_left _ (sound.listed other earlier)
    · exact List.mem_append_right _ now
  · intro other member
    rcases List.mem_append.mp member with earlier | now
    · exact sound.announced other earlier
    · exact List.mem_singleton.mp now ▸ announced
  · exact news.2
  · intro other member
    refine ⟨(unseen other (.inr member)).1, fun seen => ?_⟩
    rcases List.mem_append.mp seen with earlier | now
    · exact (unseen other (.inr member)).2 earlier
    · obtain rfl := List.mem_singleton.mp now
      exact news.1 member
  · exact sound.checks
  · exact sound.once
  · intro item member
    exact ⟨List.mem_append_left _ (sound.stamps item member).1, (sound.stamps item member).2⟩
  · intro other member gone
    have before : other ∉ dependent.upstreamBsids := fun listed => gone (List.mem_append_left _ listed)
    rcases List.mem_append.mp member with earlier | now
    · exact sound.settled other earlier before
    · exact absurd (List.mem_append_right _ now) gone
  · refine ⟨rfl, ?_⟩
    constructor <;> try simp
    intro other member built
    rcases List.mem_append.mp member with earlier | now
    · exact absurd (snapshot.unbuilt other earlier built) (List.not_mem_nil)
    · exact unbuilt (List.mem_singleton.mp now ▸ built)

theorem news_of_phase (elsewhere : ∀ bsid, dependent.phase ≠ .adding bsid) :
    dependent.news = dependent.waiting.filterMap fun task => match task with
      | .new bsid => some bsid
      | .check _ => none := by
  unfold Dependent.news
  split
  · rename_i bsid adding
    exact absurd adding (elsewhere bsid)
  · rfl

/-- A handler that goes on changes nothing but what it keeps in mind, and perhaps the cache. -/
theorem Sound.moves (sound : dependent.Sound) {cache : Option (List Nat)} {phase : Phase}
    (handles : ∀ bsid, dependent.phase ≠ .adding bsid) (goes : ∀ bsid, phase ≠ .adding bsid)
    (progress : ({ dependent with cachedUpstreamBsids := cache, phase } : Dependent).Progress phase) :
    ({ dependent with cachedUpstreamBsids := cache, phase } : Dependent).Sound := by
  have same : ({ dependent with cachedUpstreamBsids := cache, phase } : Dependent).news = dependent.news :=
    (news_of_phase goes).trans (news_of_phase handles).symm
  exact { sound with
    news := same ▸ sound.news
    unseen := same ▸ sound.unseen
    stamps := sound.stamps
    progress := progress }

variable {bsid : Option Nat} {todo dealt : List Nat} {rv subs : List Subscription} {changed : Bool}

theorem Snapshot.read_gone {next : Nat} (snapshot : dependent.Snapshot bsid (next :: todo) rv []) :
    ({ dependent with cachedUpstreamBsids := some (dependent.cached.erase next) } : Dependent).Snapshot bsid todo rv [] where
  distinct := (List.nodup_middle.mp snapshot.distinct).of_cons
  listed other member := by
    have distinct := List.nodup_middle.mp snapshot.distinct
    have apart : other ≠ next := by
      rintro rfl
      exact (List.nodup_cons.mp distinct).1 member
    have listed := snapshot.listed other (by
      rcases List.mem_append.mp member with read | left
      · exact List.mem_append_left _ read
      · exact List.mem_append_right _ (List.mem_cons_of_mem _ left))
    exact (List.mem_erase_of_ne apart).mpr listed
  faithful := snapshot.faithful
  current := snapshot.current
  settled := nofun
  unbuilt := snapshot.unbuilt

theorem Snapshot.read_found {next : Nat} {buildset : Buildset} (snapshot : dependent.Snapshot bsid (next :: todo) rv [])
    (found : dependent.get next = some buildset) (completed : ∀ other, bsid = some other → dependent.Completed other) :
    dependent.Snapshot bsid todo (rv ++ [⟨next, buildset.ssids, buildset.results⟩]) [] where
  distinct := by
    have distinct := snapshot.distinct
    simpa using distinct
  listed other member := snapshot.listed other (by simpa using member)
  faithful sub member := by
    rcases List.mem_append.mp member with earlier | now
    · exact snapshot.faithful sub earlier
    · obtain rfl := List.mem_singleton.mp now
      exact ⟨buildset, (get_eq_some.mp found).1, rfl, fun _ => rfl⟩
  current sub member same := by
    rcases List.mem_append.mp member with earlier | now
    · exact snapshot.current sub earlier same
    · obtain rfl := List.mem_singleton.mp now
      obtain ⟨other, row, complete⟩ := completed next same.symm
      obtain rfl : buildset = other := Option.some.inj ((get_eq_some.mp found).1.symm.trans row)
      exact complete
  settled := nofun
  unbuilt := snapshot.unbuilt

theorem Pruned.erase {next : Nat} (pruned : dependent.Pruned) (gone : dependent.get next = none) :
    ({ dependent with cachedUpstreamBsids := some (dependent.cached.erase next) } : Dependent).Pruned := by
  refine ⟨(List.erase_sublist).trans pruned.1, fun other listed unlisted => ?_⟩
  by_cases same : other = next
  · exact same ▸ gone
  · exact pruned.2 other listed fun member => unlisted ((List.mem_erase_of_ne same).mpr member)

theorem Sound.read (sound : dependent.Sound) (reading : dependent.phase = .reading bsid todo rv changed) :
    (dependent.read bsid todo rv changed).Sound := by
  have progress := sound.progress
  rw [reading] at progress
  obtain ⟨pruned, whole, snapshot, completed⟩ := progress
  have handles : ∀ other, dependent.phase ≠ .adding other := by simp [reading]
  unfold Dependent.read
  split
  · cases changed with
    | true => exact sound.moves handles nofun ⟨pruned, snapshot.congr ⟨rfl, rfl, rfl, rfl⟩⟩
    | false => exact sound.moves handles nofun ⟨whole rfl, snapshot.congr ⟨rfl, rfl, rfl, rfl⟩⟩
  · rename_i next rest
    split
    · rename_i gone
      refine sound.moves handles nofun ⟨pruned.erase gone, nofun, ?_, completed⟩
      exact snapshot.read_gone.congr ⟨rfl, rfl, rfl, rfl⟩
    · rename_i buildset found
      refine sound.moves handles nofun ⟨pruned, whole, ?_, completed⟩
      exact (snapshot.read_found found completed).congr ⟨rfl, rfl, rfl, rfl⟩

theorem Sound.prune (sound : dependent.Sound) (pruning : dependent.phase = .pruning bsid rv) :
    ({ dependent.setState dependent.cached with phase := .building bsid rv [] } : Dependent).Sound := by
  have progress := sound.progress
  rw [pruning] at progress
  obtain ⟨pruned, snapshot⟩ := progress
  have handles : ∀ other, dependent.phase ≠ .adding other := by simp [pruning]
  have news : ({ dependent.setState dependent.cached with phase := .building bsid rv [] } : Dependent).news =
      dependent.news := (news_of_phase (by simp)).trans (news_of_phase handles).symm
  refine { sound with
    nodup := sound.nodup.sublist pruned.1
    listed := fun other listed => sound.listed other (pruned.1.subset listed)
    news := news ▸ sound.news
    unseen := news ▸ sound.unseen
    stamps := sound.stamps
    settled := ?_
    progress := ?_ }
  · intro other seen unlisted buildset found
    by_cases listed : other ∈ dependent.upstreamBsids
    · exact absurd (found.symm.trans (pruned.2 other listed unlisted)) (by simp)
    · exact sound.settled other seen listed buildset found
  · refine ⟨rfl, ?_⟩
    exact {
      distinct := snapshot.distinct
      listed := snapshot.listed
      faithful := snapshot.faithful
      current := snapshot.current
      settled := nofun
      unbuilt := fun other listed built => snapshot.unbuilt other (pruned.1.subset listed) built }

theorem Snapshot.skip {sub : Subscription} (snapshot : dependent.Snapshot bsid [] (sub :: subs) dealt) :
    dependent.Snapshot bsid [] subs dealt where
  distinct := by
    have distinct := snapshot.distinct
    simp only [List.map_cons, List.append_nil] at distinct ⊢
    exact (List.nodup_middle.mp distinct).of_cons
  listed other member := snapshot.listed other (by
    simp only [List.map_cons, List.append_nil, List.mem_append, List.mem_cons] at member ⊢
    exact member.imp_right .inr)
  faithful other member := snapshot.faithful other (List.mem_cons_of_mem _ member)
  current other member := snapshot.current other (List.mem_cons_of_mem _ member)
  settled := snapshot.settled
  unbuilt := snapshot.unbuilt

/-- The first buildset has been dealt with. -/
theorem Snapshot.deal {sub : Subscription} (snapshot : dependent.Snapshot bsid [] (sub :: subs) dealt)
    (settled : dependent.Settled sub.bsid) : dependent.Snapshot bsid [] subs (dealt ++ [sub.bsid]) where
  distinct := by simpa using snapshot.distinct
  listed other member := snapshot.listed other (by simpa using member)
  faithful other member := snapshot.faithful other (List.mem_cons_of_mem _ member)
  current other member := snapshot.current other (List.mem_cons_of_mem _ member)
  settled other member := by
    rcases List.mem_append.mp member with earlier | now
    · exact snapshot.settled other earlier
    · exact List.mem_singleton.mp now ▸ settled
  unbuilt other listed built := List.mem_append_left _ (snapshot.unbuilt other listed built)

theorem Snapshot.head_complete {sub : Subscription} (snapshot : dependent.Snapshot bsid [] (sub :: subs) dealt)
    (taken : ¬ (sub.complete = false ∧ some sub.bsid ≠ bsid)) : sub.complete := by
  by_contra incomplete
  have open_ : sub.complete = false := by simpa using incomplete
  have other : some sub.bsid ≠ bsid := fun same => incomplete (snapshot.current sub List.mem_cons_self same)
  exact taken ⟨open_, other⟩

theorem Faithful.row {sub : Subscription} (faithful : dependent.Faithful sub) (complete : sub.complete)
    {buildset : Buildset} (found : dependent.get sub.bsid = some buildset) : buildset.results = sub.results := by
  obtain ⟨other, row, _, results⟩ := faithful
  obtain rfl : buildset = other := Option.some.inj ((get_eq_some.mp found).1.symm.trans row)
  exact results complete

/-- A buildset is added for one that nothing has been added for. -/
theorem Sound.built (sound : dependent.Sound) {sub : Subscription} (same : dependent.cached = dependent.upstreamBsids)
    (building : dependent.phase = .building bsid (sub :: subs) dealt)
    (snapshot : dependent.Snapshot bsid [] (sub :: subs) dealt) (complete : sub.complete) (success : successful sub.results) :
    ({ dependent with
      downstream := dependent.downstream ++ [(sub.bsid, sub.ssids)]
      phase := .building bsid subs (dealt ++ [sub.bsid]) } : Dependent).Sound := by
  have listed : sub.bsid ∈ dependent.upstreamBsids := same ▸ snapshot.listed sub.bsid (by simp)
  have undealt : sub.bsid ∉ dealt := by
    have distinct := snapshot.distinct
    simp only [List.map_cons, List.append_nil] at distinct
    have apart := (List.nodup_cons.mp (List.nodup_middle.mp distinct)).1
    exact fun member => apart (List.mem_append_left _ member)
  have unbuilt : ¬ dependent.Built sub.bsid := fun built => undealt (snapshot.unbuilt sub.bsid listed built)
  obtain ⟨buildset, row, ssids, results⟩ := snapshot.faithful sub List.mem_cons_self
  let after : Dependent := { dependent with
    downstream := dependent.downstream ++ [(sub.bsid, sub.ssids)]
    phase := .building bsid subs (dealt ++ [sub.bsid]) }
  have built_iff (other : Nat) : after.Built other ↔ dependent.Built other ∨ other = sub.bsid := by
    simp [after, Built, List.map_append, or_comm]
  have settled_mono {other : Nat} (settled : dependent.Settled other) : after.Settled other := by
    intro buildset found
    obtain ⟨complete, built⟩ := settled buildset found
    exact ⟨complete, fun success => (built_iff other).mpr (.inl (built success))⟩
  have handles : ∀ other, dependent.phase ≠ .adding other := by simp [building]
  have news : after.news = dependent.news :=
    (news_of_phase (by simp [after])).trans (news_of_phase handles).symm
  refine { sound with
    news := news ▸ sound.news
    unseen := news ▸ sound.unseen
    once := ?_
    stamps := ?_
    settled := fun other seen unlisted => settled_mono (sound.settled other seen unlisted)
    progress := ⟨same, ?_⟩ }
  · rw [List.map_append]
    refine sound.once.append (List.nodup_singleton _) ?_
    simpa [Built] using unbuilt
  · intro item member
    rcases List.mem_append.mp member with earlier | now
    · exact sound.stamps item earlier
    · obtain rfl := List.mem_singleton.mp now
      refine ⟨sound.listed _ listed, buildset, row, ssids, ?_⟩
      rw [results complete]
      exact success
  · have done : after.Settled sub.bsid := by
      intro other found
      have complete_ : other.complete := by
        unfold Buildset.complete
        rw [Faithful.row ⟨buildset, row, ssids, results⟩ complete found]
        exact complete
      exact ⟨complete_, fun _ => (built_iff _).mpr (.inr rfl)⟩
    exact {
      distinct := by simpa using snapshot.distinct
      listed := fun other member => snapshot.listed other (by simpa using member)
      faithful := fun other member => snapshot.faithful other (List.mem_cons_of_mem _ member)
      current := fun other member => snapshot.current other (List.mem_cons_of_mem _ member)
      settled := fun other member => by
        rcases List.mem_append.mp member with earlier | now
        · exact settled_mono (snapshot.settled other earlier)
        · rw [List.mem_singleton.mp now]
          exact done
      unbuilt := fun other listed built => by
        rcases (built_iff other).mp built with before | rfl
        · exact List.mem_append_left _ (snapshot.unbuilt other listed before)
        · exact List.mem_append_right _ (List.mem_singleton_self _) }

theorem Sound.build (sound : dependent.Sound) (building : dependent.phase = .building bsid subs dealt) (raises : Bool)
    (steady : raises = true → ∀ other ∈ dealt, ¬ dependent.Built other) :
    (dependent.build bsid subs dealt raises).Sound := by
  have progress := sound.progress
  rw [building] at progress
  obtain ⟨same, snapshot⟩ := progress
  have handles : ∀ other, dependent.phase ≠ .adding other := by simp [building]
  unfold Dependent.build
  split
  · refine sound.moves handles nofun ⟨same, ?_⟩
    exact ⟨by simpa using snapshot.distinct, fun other member => snapshot.listed other (by simpa using member),
      nofun, nofun, snapshot.settled, snapshot.unbuilt⟩
  · rename_i sub rest
    split
    · exact sound.moves handles nofun ⟨same, snapshot.skip.congr ⟨rfl, rfl, rfl, rfl⟩⟩
    · rename_i taken
      have complete := snapshot.head_complete taken
      split
      · rename_i success
        split
        · rename_i raised
          -- What was dealt with so far had nothing added for it, so it may be dealt with again.
          refine sound.moves handles nofun ⟨same, ?_⟩
          refine ⟨List.nodup_nil, nofun, nofun, nofun, nofun, fun other listed built => ?_⟩
          exact absurd built (steady raised other (snapshot.unbuilt other listed built))
        · exact sound.built same building snapshot complete success
      · rename_i failure
        have settled : dependent.Settled sub.bsid := by
          intro buildset found
          have results := (snapshot.faithful sub List.mem_cons_self).row complete found
          refine ⟨?_, fun success => absurd (results ▸ success) failure⟩
          unfold Buildset.complete
          rw [results]
          exact complete
        exact sound.moves handles nofun ⟨same, (snapshot.deal settled).congr ⟨rfl, rfl, rfl, rfl⟩⟩

theorem Sound.removeAll (sound : dependent.Sound) (removing : dependent.phase = .removing dealt) :
    (dependent.removeAll dealt).Sound := by
  have progress := sound.progress
  rw [removing] at progress
  obtain ⟨same, snapshot⟩ := progress
  have handles : ∀ other, dependent.phase ≠ .adding other := by simp [removing]
  have news : (dependent.removeAll dealt).news = dependent.news :=
    (news_of_phase (by simp [Dependent.removeAll])).trans (news_of_phase handles).symm
  have kept {other : Nat} : other ∈ dependent.cached.filter (· ∉ dealt) ↔ other ∈ dependent.upstreamBsids ∧ other ∉ dealt := by
    simp [same]
  refine { sound with
    nodup := (same ▸ sound.nodup).filter _
    listed := fun other listed => sound.listed other (kept.mp listed).1
    news := news ▸ sound.news
    unseen := news ▸ sound.unseen
    stamps := sound.stamps
    settled := ?_
    progress := ⟨rfl, List.nodup_nil, nofun, nofun, nofun, nofun, ?_⟩ }
  · intro other seen unlisted
    by_cases listed : other ∈ dependent.upstreamBsids
    · by_cases member : other ∈ dealt
      · exact snapshot.settled other member
      · exact absurd (kept.mpr ⟨listed, member⟩) unlisted
    · exact sound.settled other seen listed
  · intro other listed built
    obtain ⟨before, undealt⟩ := kept.mp listed
    exact absurd (snapshot.unbuilt other before built) undealt

theorem Sound.proceed (sound : dependent.Sound) (raises : Bool) (steady : dependent.Steady (.proceed raises)) :
    (dependent.proceed raises).Sound := by
  unfold Dependent.proceed
  cases phase : dependent.phase with
  | idle => exact sound.grant phase
  | adding bsid => exact sound.add phase
  | reading bsid todo rv changed => exact sound.read phase
  | pruning bsid rv => exact sound.prune phase
  | building bsid subs subBsids =>
    apply sound.build phase
    rintro rfl
    simpa [Steady, phase] using steady
  | removing subBsids => exact sound.removeAll phase

theorem Sound.step (sound : dependent.Sound) (event : Event) (steady : dependent.Steady event) :
    (dependent.step event).1.Sound := by
  cases event with
  | create bsid name ssids =>
    simp only [Dependent.step]
    split
    · rename_i fresh
      exact sound.create fresh.1 fresh.2 _
    · exact sound
  | complete bsid results =>
    apply sound.update
    · intro buildset
      split <;> rfl
    · intro buildset complete
      rw [if_pos complete]
    · intro buildset removed
      split <;> exact removed
  | remove bsid => exact sound.update bsid (fun _ => rfl) (fun _ _ => rfl) fun _ _ => rfl
  | newMessage bsid =>
    simp only [Dependent.step]
    split
    · split
      · exact sound
      · rename_i fresh
        split
        · exact sound.enqueue_new fresh
        · exact sound.announce
    · exact sound
  | completeMessage bsid =>
    simp only [Dependent.step]
    split
    · rename_i buildset row
      split
      · rename_i complete
        apply sound.enqueue_check
        intro other same
        cases same
        exact ⟨buildset, row, complete⟩
      · exact sound
    · exact sound
  | activate => exact sound.enqueue_check none nofun
  | proceed raises => exact sound.proceed raises steady

/-- Downstream follows upstream in every run in which no call raises in a check that has already added a buildset. -/
theorem dependent_follows (upstreamName : String) (buildsets : Nat → Option Buildset) (stored : List Nat)
    (nodup : stored.Nodup) (events : List Event)
    (steady : Always Dependent.step Steady (start upstreamName buildsets stored) events) :
    (final Dependent.step (start upstreamName buildsets stored) events).Follows := by
  have preserved (dependent : Dependent) (event : Event) (sound : dependent.Sound) (steady : dependent.Steady event) :=
    sound.step event steady
  exact (invariant_of_always preserved (start_sound upstreamName buildsets nodup) steady).follows

/-- A buildset succeeds; the first attempt to add one for it raises, the second does not. -/
def retried : List Event :=
  [.create 1 "upstream" [7], .newMessage 1, .proceed false, .proceed false, .complete 1 SUCCESS, .completeMessage 1,
    .proceed false, .proceed false, .proceed false, .proceed true, .completeMessage 1,
    .proceed false, .proceed false, .proceed false, .proceed false, .proceed false, .proceed false]

theorem retried_follows : (final Dependent.step (start "upstream" (fun _ => none) []) retried).Follows := by
  refine dependent_follows "upstream" (fun _ => none) [] List.nodup_nil retried ?_
  refine ⟨trivial, trivial, trivial, trivial, trivial, trivial, trivial, trivial, trivial, ?_, trivial, trivial, trivial,
    trivial, trivial, trivial, trivial, trivial⟩
  exact fun _ member => absurd member List.not_mem_nil

/-- The first buildset completes before it is announced, so that one check deals with it and with the second; adding
for the second raises, and the completion of a third one brings the next check. -/
def overtaken : List Event :=
  [.create 1 "upstream" [7], .complete 1 SUCCESS, .newMessage 1, .proceed false, .proceed false,
    .create 2 "upstream" [8], .newMessage 2, .proceed false, .proceed false, .complete 2 SUCCESS, .completeMessage 2,
    .proceed false, .proceed false, .proceed false, .proceed false, .proceed false, .proceed true,
    .create 3 "upstream" [9], .complete 3 SUCCESS, .completeMessage 3,
    .proceed false, .proceed false, .proceed false, .proceed false, .proceed false]

theorem overtaken_built_twice :
    (final Dependent.step (start "upstream" (fun _ => none) []) overtaken).downstream = [(1, [7]), (1, [7])] ∧
      ¬ (final Dependent.step (start "upstream" (fun _ => none) []) overtaken).Follows := by
  refine ⟨by decide, fun follows => ?_⟩
  have once := follows.once
  revert once
  decide

end Dependent

end Umbilical.Schedulers
