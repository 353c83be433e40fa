import Umbilical.Util.AsyncLRUCache
import Umbilical.Util.LeastRecentlyUsed

set_option autoImplicit false

/-!
# Every request is answered by one fetch

The history of a run says which fetches are in progress and which deferreds have fired.
Each list of waiters belongs to the fetch in progress for its key, and what the loops that
fire deferreds still hold has its answer in the history.
-/

namespace Umbilical.Util

open Dictionary Interleaving
open LRUCache (Fetched)

variable {κ ν : Type} [DecidableEq κ]

/-! ## The cache is in order -/

namespace LRUCache

/-- The cache is that of some plain cache, which need not keep its bound. -/
def Sound (self : LRUCache κ ν) : Prop := ∃ plain : PlainCache κ ν, self.Tracks plain

variable {self after : LRUCache κ ν}

/-- The counters of hits and misses do not matter. -/
theorem Sound.counters (sound : self.Sound) {hits misses : Nat} :
    ({ self with hits := hits, misses := misses } : LRUCache κ ν).Sound := by
  obtain ⟨plain, tracks⟩ := sound
  exact ⟨plain, { tracks with }⟩

theorem Sound.purge (sound : self.Sound) :
    ∃ after, self._purge = .ok after ∧ after.Sound ∧ after.weakrefs = self.weakrefs := by
  obtain ⟨plain, tracks⟩ := sound
  obtain ⟨after, purged, kept, _⟩ := tracks.purge
  exact ⟨after, purged, ⟨plain.trim, kept⟩, kept.weakrefs.trans tracks.weakrefs.symm⟩

theorem Sound.stored (sound : self.Sound) (key : κ) (value : ν) :
    ((self.store key value)._ref_key key).Sound ∧
      ((self.store key value)._ref_key key).weakrefs = Function.update self.weakrefs key (some value) := by
  obtain ⟨plain, tracks⟩ := sound
  have kept := (@Tracks.touch _ _ _ self plain tracks (self.store key value) key value ⟨rfl, rfl, rfl, rfl⟩
    (distinct_setItem tracks.counted.distinct) (cached_setItem _ key value) rfl).1
  refine ⟨⟨_, kept⟩, ?_⟩
  rw [kept.weakrefs, touched, tracks.weakrefs]

theorem Sound.put (sound : self.Sound) (key : κ) (value : ν) :
    ∃ after, self.put key value = .ok after ∧ after.Sound ∧
      after.weakrefs = Function.update self.weakrefs key (some value) := by
  obtain ⟨kept, weakrefs⟩ := sound.stored key value
  unfold LRUCache.put
  dsimp only
  split
  · exact ⟨_, rfl, kept, weakrefs⟩
  · obtain ⟨after, purged, sound, same⟩ := kept.purge
    exact ⟨after, purged, sound, same.trans weakrefs⟩

theorem Sound.hit (sound : self.Sound) {key : κ} {result : ν} (hit : self._get_hit key = some (result, after)) :
    after.Sound ∧ after.weakrefs = self.weakrefs ∧ self.weakrefs key = some result := by
  obtain ⟨plain, tracks⟩ := sound
  obtain ⟨alive, kept, _⟩ := tracks.hit hit
  refine ⟨⟨_, kept⟩, ?_, tracks.weakrefs ▸ alive⟩
  rw [kept.weakrefs, touched, tracks.weakrefs]
  exact Function.update_eq_self_iff.mpr alive.symm

theorem Sound.set_max_size (sound : self.Sound) (max_size : Nat) :
    ∃ after, self.set_max_size max_size = .ok after ∧ after.Sound ∧ after.weakrefs = self.weakrefs := by
  unfold LRUCache.set_max_size
  split
  · exact ⟨self, rfl, sound, rfl⟩
  · obtain ⟨plain, tracks⟩ := sound
    exact Sound.purge ⟨_, tracks.resize max_size⟩

theorem Sound.collect [DecidableEq ν] (sound : self.Sound) (value : ν) : (self.collect value).Sound := by
  obtain ⟨plain, tracks⟩ := sound
  exact ⟨_, tracks.collect value⟩

omit [DecidableEq κ] in
theorem weakrefs_collect [DecidableEq ν] {value other : ν} {key : κ}
    (alive : (self.collect value).weakrefs key = some other) : self.weakrefs key = some other := by
  unfold LRUCache.collect at alive
  split at alive
  · exact alive
  · dsimp only at alive
    split at alive
    · cases alive
    · exact alive

end LRUCache

/-! ## What the history says -/

namespace AsyncLRUCache

def InProgress (past : List (Action κ ν)) (fetch : Nat) (key : κ) : Prop :=
  .began fetch key ∈ past ∧ ∀ result, .ended fetch key result ∉ past

/-- The value of the last put or fetch for the key. -/
def lastStored (past : List (Action κ ν)) (key : κ) : Option ν :=
  past.foldl
    (fun last action => match action with
      | .stored k value => if k = key then some value else last
      | _ => last) none

/-- Whether it is the deferred that fires. -/
def fires (d : Nat) : Action κ ν → Bool
  | .fired e _ => e = d
  | _ => false

/-- The deferred was requested while the fetch was in progress. -/
def Awaits (past : List (Action κ ν)) (d fetch : Nat) (key : κ) : Prop :=
  ∃ before after, past = before ++ .requested d key :: after ∧ InProgress before fetch key

/-- The result is that of a fetch that was in progress when the deferred was requested, or the value that was cached
then. -/
def Answers (past : List (Action κ ν)) (d : Nat) (result : Fetched ν) : Prop :=
  ∃ before key after, past = before ++ .requested d key :: after ∧
    ((∃ fetch, InProgress before fetch key ∧ .ended fetch key result ∈ after) ∨
      ∃ value, lastStored before key = some value ∧ result = some (some value))

/-- What may come after a history. -/
def Law (past : List (Action κ ν)) : Action κ ν → Prop
  | .stored _ _ => True
  | .began fetch key => (∀ other, ¬ InProgress past other key) ∧ ∀ other, .began fetch other ∉ past
  | .ended fetch key _ => InProgress past fetch key
  | .requested d _ => ∀ key, .requested d key ∉ past
  | .fired d result => Answers past d result ∧ ∀ other, .fired d other ∉ past
  | .raised _ => False

variable {past : List (Action κ ν)}

omit [DecidableEq κ] in
theorem inProgress_concat (action : Action κ ν) (fetch : Nat) (key : κ) :
    InProgress (past ++ [action]) fetch key ↔
      (.began fetch key ∈ past ∨ action = .began fetch key) ∧
        ∀ result, .ended fetch key result ∉ past ∧ action ≠ .ended fetch key result := by
  unfold InProgress
  simp only [List.mem_append, List.mem_singleton, not_or, eq_comm, ne_eq]

omit [DecidableEq κ] in
theorem Awaits.append {d fetch : Nat} {key : κ} (awaits : Awaits past d fetch key) (more : List (Action κ ν)) :
    Awaits (past ++ more) d fetch key := by
  obtain ⟨before, after, rfl, current⟩ := awaits
  exact ⟨before, after ++ more, by simp, current⟩

theorem Answers.append {d : Nat} {result : Fetched ν} (answers : Answers past d result) (more : List (Action κ ν)) :
    Answers (past ++ more) d result := by
  obtain ⟨before, key, after, rfl, source⟩ := answers
  refine ⟨before, key, after ++ more, by simp, ?_⟩
  rcases source with ⟨fetch, current, ends⟩ | cached
  · exact .inl ⟨fetch, current, List.mem_append_left _ ends⟩
  · exact .inr cached

/-- Who awaits a fetch is answered when it ends. -/
theorem Awaits.answers {d fetch : Nat} {key : κ} (awaits : Awaits past d fetch key) (result : Fetched ν) :
    Answers (past ++ [.ended fetch key result]) d result := by
  obtain ⟨before, after, rfl, current⟩ := awaits
  exact ⟨before, key, after ++ [.ended fetch key result], by simp, .inl ⟨fetch, current, by simp⟩⟩

@[simp]
theorem lastStored_stored (key : κ) (value : ν) :
    lastStored (past ++ [.stored key value]) = Function.update (lastStored past) key (some value) := by
  funext k
  simp [lastStored, Function.update_apply, eq_comm]

/-! ## The lists of waiters -/

/-- How often the deferred is still to be fired. -/
def pending (self : AsyncLRUCache κ ν) (d : Nat) : Nat :=
  (self.concurrent.map fun entry => entry.2.count d).sum + (self.firing.map fun frame => frame.2.count d).sum

/-- The waiters belong to the fetches in progress, and each deferred is in one place until it has fired. -/
structure Attended (lru : AsyncLRUCache κ ν) (past : List (Action κ ν)) : Prop where
  lawful : Lawful Law past
  current : ∀ fetch key, (fetch, key) ∈ lru.fetches ↔ InProgress past fetch key
  called : ∀ fetch key, .began fetch key ∈ past → fetch < lru.calls
  fetches : Keyed.Distinct Prod.fst lru.fetches
  single : Keyed.Distinct Prod.snd lru.fetches
  distinct : Keyed.Distinct Prod.fst lru.concurrent
  entries : ∀ key, (waiters lru.concurrent key).isSome ↔ ∃ fetch, (fetch, key) ∈ lru.fetches
  waiting : ∀ key dlist, waiters lru.concurrent key = some dlist →
    dlist ≠ [] ∧ ∀ d ∈ dlist, ∃ fetch, (fetch, key) ∈ lru.fetches ∧ Awaits past d fetch key
  answers : ∀ result dlist, (result, dlist) ∈ lru.firing → ∀ d ∈ dlist, Answers past d result
  asked : ∀ d key, .requested d key ∈ past → d < lru.deferreds
  once : ∀ d, past.countP (fires d) + lru.pending d = if d < lru.deferreds then 1 else 0

section Steps

variable {self : AsyncLRUCache κ ν}

theorem waiters_setItem (concurrent : List (κ × List Nat)) (key : κ) (dlist : List Nat) (k : κ) :
    waiters (setItem Prod.fst concurrent (key, dlist)) k = if k = key then some dlist else waiters concurrent k := by
  unfold waiters
  rw [lookup_setItem]
  split <;> rfl

theorem waiters_eraseP {concurrent : List (κ × List Nat)} (distinct : Keyed.Distinct Prod.fst concurrent) (key k : κ) :
    waiters (concurrent.eraseP fun entry => entry.1 = key) k = if k = key then none else waiters concurrent k := by
  unfold waiters
  rw [lookup_eraseP distinct]
  split <;> rfl

theorem sum_waiters (concurrent : List (κ × List Nat)) (key : κ) (d : Nat) :
    ((Keyed.lookup Prod.fst concurrent key).map fun entry => entry.2.count d).getD 0 =
      ((waiters concurrent key).getD []).count d := by
  unfold waiters
  cases Keyed.lookup Prod.fst concurrent key <;> rfl

theorem Attended.pending_setItem (attended : Attended self past) (key : κ) (dlist : List Nat) (d : Nat) :
    ((setItem Prod.fst self.concurrent (key, dlist)).map fun entry => entry.2.count d).sum +
        ((waiters self.concurrent key).getD []).count d =
      (self.concurrent.map fun entry => entry.2.count d).sum + dlist.count d := by
  rw [← sum_waiters]
  exact sum_setItem attended.distinct (key, dlist) fun entry => entry.2.count d

theorem count_alone (d e : Nat) : [e].count d = if d = e then 1 else 0 := by
  by_cases same : d = e
  · simp [same]
  · rw [if_neg same, List.count_eq_zero]
    simpa using same

/-- A deferred that is requested goes to one place. -/
theorem Attended.requested_once (attended : Attended self past) {key : κ} {after : AsyncLRUCache κ ν}
    (counted : ∀ d, after.pending d = self.pending d + if d = self.deferreds then 1 else 0)
    (next : after.deferreds = self.deferreds + 1) (d : Nat) :
    (past ++ [(.requested self.deferreds key : Action κ ν)]).countP (fires d) + after.pending d =
      if d < after.deferreds then 1 else 0 := by
  have before := attended.once d
  rw [List.countP_append, counted, next]
  have silent : [(.requested self.deferreds key : Action κ ν)].countP (fires d) = 0 := by simp [fires]
  by_cases here : d = self.deferreds
  · subst here
    rw [if_neg (Nat.lt_irrefl _)] at before
    rw [silent, if_pos rfl, if_pos (Nat.lt_succ_self _)]
    omega
  · rw [silent, if_neg here, if_congr (Nat.lt_succ_iff_lt_or_eq.trans (or_iff_left here)) rfl rfl]
    omega

theorem Attended.fresh (attended : Attended self past) (key : κ) : .requested self.deferreds key ∉ past :=
  fun member => Nat.lt_irrefl _ (attended.asked _ key member)

theorem Attended.asked_requested (attended : Attended self past) (key : κ) (d : Nat) (k : κ)
    (member : .requested d k ∈ past ++ [(.requested self.deferreds key : Action κ ν)]) : d < self.deferreds + 1 := by
  rcases List.mem_append.mp member with before | now
  · exact Nat.lt_succ_of_lt (attended.asked d k before)
  · cases List.mem_singleton.mp now
    exact Nat.lt_succ_self _

theorem Attended.stored (attended : Attended self past) (key : κ) (value : ν) :
    Attended self (past ++ [.stored key value]) where
  lawful := attended.lawful.concat trivial
  current fetch k := by
    rw [attended.current, inProgress_concat]
    simp [InProgress]
  called fetch k member := attended.called fetch k (by simpa using member)
  fetches := attended.fetches
  single := attended.single
  distinct := attended.distinct
  entries := attended.entries
  waiting k dlist found := by
    refine ⟨(attended.waiting k dlist found).1, fun d member => ?_⟩
    obtain ⟨fetch, current, awaits⟩ := (attended.waiting k dlist found).2 d member
    exact ⟨fetch, current, awaits.append _⟩
  answers result dlist member d here := (attended.answers result dlist member d here).append _
  asked d k member := attended.asked d k (by simpa using member)
  once d := by simpa [fires] using attended.once d

/-- A request that finds the value: as if a loop had it to fire. -/
theorem Attended.found (attended : Attended self past) {key : κ} {value : ν} (cached : lastStored past key = some value) :
    Attended { self with
        deferreds := self.deferreds + 1
        firing := (some (some value), [self.deferreds]) :: self.firing }
      (past ++ [.requested self.deferreds key]) where
  lawful := attended.lawful.concat attended.fresh
  current fetch k := by
    rw [attended.current, inProgress_concat]
    simp [InProgress]
  called fetch k member := attended.called fetch k (by simpa using member)
  fetches := attended.fetches
  single := attended.single
  distinct := attended.distinct
  entries := attended.entries
  waiting k dlist found := by
    refine ⟨(attended.waiting k dlist found).1, fun d member => ?_⟩
    obtain ⟨fetch, current, awaits⟩ := (attended.waiting k dlist found).2 d member
    exact ⟨fetch, current, awaits.append _⟩
  answers result dlist member d here := by
    rcases List.mem_cons.mp member with same | outer
    · cases same
      cases List.mem_singleton.mp here
      exact ⟨past, key, [], rfl, .inr ⟨value, cached, rfl⟩⟩
    · exact (attended.answers result dlist outer d here).append _
  asked := attended.asked_requested key
  once := by
    refine attended.requested_once (fun d => ?_) rfl
    simp only [pending, List.map_cons, List.sum_cons, count_alone]
    omega

/-- A request that waits for the fetch in progress. -/
theorem Attended.join (attended : Attended self past) {key : κ} {conc : List Nat}
    (found : waiters self.concurrent key = some conc) :
    Attended ({ self with deferreds := self.deferreds + 1 }.join self.deferreds key conc)
      (past ++ [.requested self.deferreds key]) where
  lawful := attended.lawful.concat attended.fresh
  current fetch k := by
    rw [inProgress_concat]
    refine (attended.current fetch k).trans ?_
    simp [InProgress]
  called fetch k member := attended.called fetch k (by simpa using member)
  fetches := attended.fetches
  single := attended.single
  distinct := distinct_setItem attended.distinct
  entries k := by
    unfold AsyncLRUCache.join
    rw [waiters_setItem]
    by_cases same : k = key
    · rw [same, if_pos rfl, ← attended.entries, found]
      exact Iff.rfl
    · rw [if_neg same]
      exact attended.entries k
  waiting k dlist listed := by
    unfold AsyncLRUCache.join at listed ⊢
    rw [waiters_setItem] at listed
    by_cases same : k = key
    · subst same
      cases (if_pos rfl).symm.trans listed
      refine ⟨by simp, fun d member => ?_⟩
      rcases List.mem_append.mp member with before | now
      · obtain ⟨fetch, current, awaits⟩ := (attended.waiting k conc found).2 d before
        exact ⟨fetch, current, awaits.append _⟩
      · cases List.mem_singleton.mp now
        obtain ⟨fetch, current⟩ := (attended.entries k).mp (by rw [found]; rfl)
        exact ⟨fetch, current, past, [], rfl, (attended.current fetch k).mp current⟩
    · rw [if_neg same] at listed
      refine ⟨(attended.waiting k dlist listed).1, fun d member => ?_⟩
      obtain ⟨fetch, current, awaits⟩ := (attended.waiting k dlist listed).2 d member
      exact ⟨fetch, current, awaits.append _⟩
  answers result dlist member d here := (attended.answers result dlist member d here).append _
  asked := attended.asked_requested key
  once := by
    refine attended.requested_once (fun d => ?_) rfl
    have counted := attended.pending_setItem key (conc ++ [self.deferreds]) d
    rw [found, List.count_append, count_alone] at counted
    simp only [Option.getD_some] at counted
    unfold pending AsyncLRUCache.join
    dsimp only
    omega

/-- A request that begins a fetch. -/
theorem Attended.begin (attended : Attended self past) {key : κ} (missing : waiters self.concurrent key = none) :
    Attended ({ self with deferreds := self.deferreds + 1 }.begin self.deferreds key)
      (past ++ [.began self.calls key] ++ [.requested self.deferreds key]) := by
  have idle (fetch : Nat) : (fetch, key) ∉ self.fetches := fun current => by
    have entry := (attended.entries key).mpr ⟨fetch, current⟩
    rw [missing] at entry
    cases entry
  have unknown (k : κ) : .began self.calls k ∉ past := fun member => Nat.lt_irrefl _ (attended.called _ k member)
  have unended (k : κ) (result : Fetched ν) : .ended self.calls k result ∉ past := fun member => by
    obtain ⟨before, after, split⟩ := List.append_of_mem member
    have law := attended.lawful.split split
    exact unknown k (split ▸ List.mem_append_left _ law.1)
  have now : InProgress (past ++ [.began self.calls key]) self.calls key := by
    rw [inProgress_concat]
    exact ⟨.inr rfl, fun result => ⟨unended key result, by simp⟩⟩
  have same (fetch : Nat) (k : κ) : InProgress (past ++ [.began self.calls key]) fetch k ↔
      InProgress past fetch k ∨ (fetch, k) = (self.calls, key) := by
    rw [inProgress_concat, Prod.mk.injEq]
    constructor
    · rintro ⟨before | fresh, ends⟩
      · exact .inl ⟨before, fun result => (ends result).1⟩
      · cases fresh
        exact .inr ⟨rfl, rfl⟩
    · rintro (current | ⟨rfl, rfl⟩)
      · exact ⟨.inl current.1, fun result => ⟨current.2 result, by simp⟩⟩
      · exact ⟨.inr rfl, fun result => ⟨unended k result, by simp⟩⟩
  have silent (fetch : Nat) (k : κ) :
      InProgress (past ++ [.began self.calls key] ++ [.requested self.deferreds key]) fetch k ↔
        InProgress (past ++ [.began self.calls key]) fetch k := by
    simp [InProgress]
  exact
    { lawful := by
        have law : Law past (.began self.calls key) :=
          ⟨fun other current => idle other ((attended.current other key).mpr current), unknown⟩
        exact (attended.lawful.concat law).concat fun k member => attended.fresh k (by simpa using member)
      current := fun fetch k => by
        rw [silent, same, ← attended.current]
        simp [AsyncLRUCache.begin]
      called := fun fetch k member => by
        have either : .began fetch k ∈ past ∨ fetch = self.calls ∧ k = key := by simpa using member
        rcases either with before | ⟨rfl, _⟩
        · exact Nat.lt_succ_of_lt (attended.called fetch k before)
        · exact Nat.lt_succ_self _
      fetches := by
        refine Keyed.distinct_append.mpr ⟨attended.fetches, Keyed.lookup_eq_none.mpr fun record member equal => ?_⟩
        have number : record.1 = self.calls := equal
        exact unknown record.2 (number ▸ ((attended.current record.1 record.2).mp member).1)
      single := by
        refine Keyed.distinct_append.mpr ⟨attended.single, Keyed.lookup_eq_none.mpr fun record member equal => ?_⟩
        have named : record.2 = key := equal
        exact idle record.1 (named ▸ member)
      distinct := distinct_setItem attended.distinct
      entries := fun k => by
        unfold AsyncLRUCache.begin
        rw [waiters_setItem]
        by_cases here : k = key
        · rw [if_pos here, here]
          exact iff_of_true rfl ⟨self.calls, by simp⟩
        · rw [if_neg here, attended.entries]
          simp [here]
      waiting := fun k dlist listed => by
        unfold AsyncLRUCache.begin at listed ⊢
        rw [waiters_setItem] at listed
        by_cases here : k = key
        · subst here
          cases (if_pos rfl).symm.trans listed
          refine ⟨by simp, fun d member => ?_⟩
          cases List.mem_singleton.mp member
          exact ⟨self.calls, by simp, past ++ [.began self.calls k], [], rfl, now⟩
        · rw [if_neg here] at listed
          refine ⟨(attended.waiting k dlist listed).1, fun d member => ?_⟩
          obtain ⟨fetch, current, awaits⟩ := (attended.waiting k dlist listed).2 d member
          exact ⟨fetch, List.mem_append_left _ current, (awaits.append _).append _⟩
      answers := fun result dlist member d here => ((attended.answers result dlist member d here).append _).append _
      asked := fun d k member => attended.asked_requested key d k (by simpa using member)
      once := fun d => by
        have placed (d : Nat) : ({ self with deferreds := self.deferreds + 1 }.begin self.deferreds key).pending d =
            self.pending d + if d = self.deferreds then 1 else 0 := by
          have counted := attended.pending_setItem key [self.deferreds] d
          rw [missing, count_alone] at counted
          simp only [Option.getD_none, List.count_nil] at counted
          unfold pending AsyncLRUCache.begin
          dsimp only
          omega
        simpa [fires] using @requested_once _ _ _ _ self attended key _ placed rfl d }

/-- A fetch ends, and a loop gets its waiters. -/
theorem Attended.release (attended : Attended self past) {fetch : Nat} {key : κ} (current : (fetch, key) ∈ self.fetches)
    {dlist : List Nat} (listed : waiters self.concurrent key = some dlist) (result : Fetched ν) :
    Attended { self with
        fetches := self.fetches.eraseP fun call => call.1 = fetch
        concurrent := self.concurrent.eraseP fun entry => entry.1 = key
        firing := (result, dlist) :: self.firing }
      (past ++ [.ended fetch key result]) := by
  have only (other : Nat) (also : (other, key) ∈ self.fetches) : other = fetch :=
    congrArg Prod.fst (attended.single.eq_of_key also current rfl)
  have named (k : κ) (also : (fetch, k) ∈ self.fetches) : k = key :=
    congrArg Prod.snd (attended.fetches.eq_of_key also current rfl)
  have left (other : Nat) (k : κ) : ((other, k) ∈ self.fetches.eraseP fun call => call.1 = fetch) ↔
      (other, k) ∈ self.fetches ∧ other ≠ fetch := mem_eraseP attended.fetches fetch (other, k)
  have law : Law past (.ended fetch key result) := (attended.current fetch key).mp current
  exact
    { lawful := attended.lawful.concat law
      current := fun other k => by
        rw [left, attended.current, inProgress_concat]
        constructor
        · rintro ⟨before, different⟩
          exact ⟨.inl before.1, fun r => ⟨before.2 r, fun same => different (by cases same; rfl)⟩⟩
        · rintro ⟨began | fresh, ends⟩
          · have before : InProgress past other k := ⟨began, fun r => (ends r).1⟩
            refine ⟨before, fun same => ?_⟩
            subst same
            have key_ := named k ((attended.current other k).mpr before)
            subst key_
            exact (ends result).2 rfl
          · cases fresh
      called := fun other k member => attended.called other k (by simpa using member)
      fetches := attended.fetches.sublist ((List.eraseP_sublist).map _)
      single := attended.single.sublist ((List.eraseP_sublist).map _)
      distinct := attended.distinct.sublist ((List.eraseP_sublist).map _)
      entries := fun k => by
        dsimp only
        rw [waiters_eraseP attended.distinct]
        by_cases here : k = key
        · subst here
          rw [if_pos rfl]
          refine iff_of_false (by simp) ?_
          rintro ⟨other, member⟩
          obtain ⟨also, different⟩ := (left other k).mp member
          exact different (only other also)
        · rw [if_neg here, attended.entries]
          refine exists_congr fun other => Iff.trans ?_ (left other k).symm
          exact ⟨fun member => ⟨member, fun same => here (named k (same ▸ member))⟩, And.left⟩
      waiting := fun k dlist' found => by
        dsimp only at found ⊢
        rw [waiters_eraseP attended.distinct] at found
        by_cases here : k = key
        · rw [if_pos here] at found
          cases found
        · rw [if_neg here] at found
          refine ⟨(attended.waiting k dlist' found).1, fun d member => ?_⟩
          obtain ⟨other, also, awaits⟩ := (attended.waiting k dlist' found).2 d member
          exact ⟨other, (left other k).mpr ⟨also, fun same => here (named k (same ▸ also))⟩, awaits.append _⟩
      answers := fun outcome dlist' member d here => by
        rcases List.mem_cons.mp member with same | outer
        · cases same
          obtain ⟨other, also, awaits⟩ := (attended.waiting key dlist listed).2 d here
          exact (only other also ▸ awaits).answers result
        · exact (attended.answers outcome dlist' outer d here).append _
      asked := fun d k member => attended.asked d k (by simpa using member)
      once := fun d => by
        have before := attended.once d
        have moved := @sum_eraseP _ _ _ Prod.fst self.concurrent key fun entry => entry.2.count d
        rw [sum_waiters, listed, Option.getD_some] at moved
        rw [← before, List.countP_append]
        unfold pending
        simp only [fires, List.countP_singleton, List.map_cons, List.sum_cons, Bool.false_eq_true, if_false]
        omega }

theorem Attended.fire (attended : Attended self past) {result : Fetched ν} {d : Nat} {dlist : List Nat}
    {outer : List (Fetched ν × List Nat)} (looping : self.firing = (result, d :: dlist) :: outer) :
    Attended { self with firing := (result, dlist) :: outer } (past ++ [.fired d result]) := by
  have law : Law past (.fired d result) := by
    refine ⟨attended.answers result (d :: dlist) (by simp [looping]) d (by simp), fun other member => ?_⟩
    have fired : 0 < past.countP (fires d) := List.countP_pos_iff.mpr ⟨.fired d other, member, by simp [fires]⟩
    have left : 0 < self.pending d := by
      rw [pending, looping, List.map_cons, List.sum_cons, List.count_cons_self]
      omega
    have once := attended.once d
    split at once <;> omega
  exact
    { lawful := attended.lawful.concat law
      current := fun fetch k => by
        rw [attended.current, inProgress_concat]
        simp [InProgress]
      called := fun fetch k member => attended.called fetch k (by simpa using member)
      fetches := attended.fetches
      single := attended.single
      distinct := attended.distinct
      entries := attended.entries
      waiting := fun k dlist' found => by
        refine ⟨(attended.waiting k dlist' found).1, fun e member => ?_⟩
        obtain ⟨fetch, current, awaits⟩ := (attended.waiting k dlist' found).2 e member
        exact ⟨fetch, current, awaits.append _⟩
      answers := fun outcome dlist' member e here => by
        rcases List.mem_cons.mp member with same | later
        · cases same
          exact (attended.answers result (d :: dlist) (by simp [looping]) e (List.mem_cons_of_mem d here)).append _
        · exact (attended.answers outcome dlist' (by simp [looping, later]) e here).append _
      asked := fun e k member => attended.asked e k (by simpa using member)
      once := fun e => by
        have before := attended.once e
        unfold pending at before ⊢
        rw [looping] at before
        rw [← before, List.countP_append]
        simp only [List.countP_singleton, fires, decide_eq_true_eq, List.map_cons, List.sum_cons, List.count_cons,
          beq_iff_eq]
        omega }

theorem Attended.fired (attended : Attended self past) {result : Fetched ν} {outer : List (Fetched ν × List Nat)}
    (looping : self.firing = (result, []) :: outer) : Attended { self with firing := outer } past :=
  { attended with
    answers := fun outcome dlist member => attended.answers outcome dlist (by simp [looping, member])
    once := fun d => by simpa [pending, looping] using attended.once d }

/-! ## Every step -/

/-- The waiters are attended to, and what is alive is what was stored last. -/
structure Serves (lru : AsyncLRUCache κ ν) (past : List (Action κ ν)) : Prop extends Attended lru past where
  sound : lru.lru.Sound
  values : ∀ key value, lru.lru.weakrefs key = some value → lastStored past key = some value

theorem Attended.relabel (attended : Attended self past) (lru : LRUCache κ ν) : Attended { self with lru := lru } past :=
  { attended with }

theorem Serves.stored (serves : self.Serves past) {lru : LRUCache κ ν} (sound : lru.Sound) {key : κ} {value : ν}
    (weakrefs : lru.weakrefs = Function.update self.lru.weakrefs key (some value)) :
    Serves { self with lru := lru } (past ++ [.stored key value]) := by
  refine ⟨(serves.toAttended.stored key value).relabel lru, sound, fun k other alive => ?_⟩
  rw [lastStored_stored]
  dsimp only at alive
  rw [weakrefs] at alive
  by_cases same : k = key
  · subst same
    simpa using alive
  · rw [Function.update_of_ne same] at alive ⊢
    exact serves.values k other alive

theorem Serves.get (serves : self.Serves past) (key : κ) : (self.get key).1.Serves (past ++ (self.get key).2) := by
  unfold AsyncLRUCache.get
  dsimp only
  cases hit : self.lru._get_hit key with
  | some found =>
    obtain ⟨result, lru⟩ := found
    obtain ⟨sound, weakrefs, alive⟩ := serves.sound.hit hit
    have requested := serves.toAttended.found (serves.values key result alive)
    have answered := (requested.fire rfl).fired rfl
    rw [List.append_assoc] at answered
    refine ⟨answered.relabel lru, sound, fun k value there => ?_⟩
    dsimp only at there
    rw [weakrefs] at there
    simpa [lastStored] using serves.values k value there
  | none =>
    dsimp only
    cases listed : waiters self.concurrent key with
    | none =>
      have begun := serves.toAttended.begin listed
      rw [List.append_assoc] at begun
      refine ⟨begun, serves.sound.counters, fun k value there => ?_⟩
      simpa [lastStored] using serves.values k value there
    | some conc =>
      cases conc with
      | nil => exact absurd rfl (serves.waiting key [] listed).1
      | cons first rest =>
        refine ⟨serves.toAttended.join listed, serves.sound.counters, fun k value there => ?_⟩
        simpa [lastStored] using serves.values k value there

theorem release_relabel (lru : LRUCache κ ν) (key : κ) (result : Fetched ν) :
    ({ self with lru := lru }).release key result =
      ({ (self.release key result).1 with lru := lru }, (self.release key result).2) := by
  unfold AsyncLRUCache.release
  dsimp only
  cases waiters self.concurrent key <;> rfl

/-- A fetch in progress has waiters, who are released with its result. -/
theorem Serves.released (serves : self.Serves past) {fetch : Nat} {key : κ} (current : (fetch, key) ∈ self.fetches)
    (result : Fetched ν) :
    ∃ after, ({ self with fetches := self.fetches.eraseP fun call => call.1 = fetch }).release key result = (after, []) ∧
      after.lru = self.lru ∧ Serves after (past ++ [.ended fetch key result]) := by
  obtain ⟨dlist, listed⟩ := Option.isSome_iff_exists.mp ((serves.entries key).mpr ⟨fetch, current⟩)
  unfold AsyncLRUCache.release
  dsimp only
  rw [listed]
  refine ⟨_, rfl, rfl, serves.toAttended.release current listed result, serves.sound, fun k value alive => ?_⟩
  simpa [lastStored] using serves.values k value alive

theorem Serves.complete (serves : self.Serves past) (fetch : Nat) (result : Fetched ν) :
    (self.complete fetch result).1.Serves (past ++ (self.complete fetch result).2) := by
  unfold AsyncLRUCache.complete
  cases found : Keyed.lookup Prod.fst self.fetches fetch with
  | none => simpa using serves
  | some call =>
    obtain ⟨number, key⟩ := call
    obtain ⟨current, same⟩ := Keyed.mem_of_lookup found
    cases same
    obtain ⟨after, released, untouched, kept⟩ := serves.released current result
    rcases result with _ | _ | value
    · dsimp only
      rw [handle_failure, released]
      exact kept
    · dsimp only
      rw [handle_result, released]
      exact kept
    · obtain ⟨sound, weakrefs⟩ := serves.sound.stored key value
      obtain ⟨lru, purged, inOrder, unchanged⟩ := sound.purge
      have storing := kept.stored inOrder (unchanged.trans (weakrefs.trans (by rw [untouched])))
      dsimp only
      rw [handle_result, purged]
      -- the store of the value does not matter for the waiters
      have later := @release_relabel _ _ _ { self with fetches := self.fetches.eraseP fun call => call.1 = number } lru key
        (some (some value))
      rw [released] at later
      dsimp only at later ⊢
      rw [later]
      rw [List.append_assoc] at storing
      exact storing

theorem Serves.fire (serves : self.Serves past) : self.fire.1.Serves (past ++ self.fire.2) := by
  unfold AsyncLRUCache.fire
  cases looping : self.firing with
  | nil => simpa using serves
  | cons frame outer =>
    obtain ⟨result, _ | ⟨d, dlist⟩⟩ := frame
    · rw [List.append_nil]
      exact ⟨serves.toAttended.fired looping, serves.sound, serves.values⟩
    · refine ⟨serves.toAttended.fire looping, serves.sound, fun k value alive => ?_⟩
      simpa [lastStored] using serves.values k value alive

theorem Serves.step [DecidableEq ν] (serves : self.Serves past) (event : Event κ ν) :
    (self.step event).1.Serves (past ++ (self.step event).2) := by
  cases event with
  | get key => exact serves.get key
  | complete fetch result => exact serves.complete fetch result
  | fire => exact serves.fire
  | put key value =>
    obtain ⟨lru, done, sound, weakrefs⟩ := serves.sound.put key value
    rw [AsyncLRUCache.step, done]
    exact serves.stored sound weakrefs
  | set_max_size max_size =>
    obtain ⟨lru, done, sound, weakrefs⟩ := serves.sound.set_max_size max_size
    rw [AsyncLRUCache.step, done, updated, List.append_nil]
    exact ⟨serves.toAttended.relabel lru, sound, fun k value alive => serves.values k value (weakrefs ▸ alive)⟩
  | collect value =>
    rw [AsyncLRUCache.step, List.append_nil]
    exact ⟨serves.toAttended.relabel _, serves.sound.collect value,
      fun k other alive => serves.values k other (LRUCache.weakrefs_collect alive)⟩

theorem init_serves (max_size : Nat) : (init max_size : AsyncLRUCache κ ν).Serves [] where
  lawful := lawful_nil Law
  current fetch key := by simp [init, InProgress]
  called fetch key member := absurd member List.not_mem_nil
  fetches := List.nodup_nil
  single := List.nodup_nil
  distinct := List.nodup_nil
  entries key := by simp [init, waiters, Keyed.lookup]
  waiting key dlist listed := by simp [init, waiters, Keyed.lookup] at listed
  answers result dlist member := absurd member List.not_mem_nil
  asked d key member := absurd member List.not_mem_nil
  once d := by simp [init, pending]
  sound := ⟨PlainCache.init max_size, (LRUCache.init_refines max_size).toTracks⟩
  values key value alive := by cases alive

/-! ## Every run -/

/-- The deferred is in a loop that fires deferreds, or in the list of waiters for a fetch in progress. -/
def Waiting (self : AsyncLRUCache κ ν) (past : List (Action κ ν)) (d : Nat) : Prop :=
  (∃ frame ∈ self.firing, d ∈ frame.2) ∨
    ∃ fetch key dlist, InProgress past fetch key ∧ waiters self.concurrent key = some dlist ∧ d ∈ dlist

theorem Attended.waiting_of_pending (attended : Attended self past) {d : Nat} (left : 0 < self.pending d) :
    Waiting self past d := by
  have some_place : 0 < (self.concurrent.map fun entry => entry.2.count d).sum ∨
      0 < (self.firing.map fun frame => frame.2.count d).sum := by
    unfold pending at left
    omega
  rcases some_place with waiting | looping
  · obtain ⟨count, member, positive⟩ := List.sum_pos_iff_exists_pos_nat.mp waiting
    obtain ⟨⟨key, dlist⟩, entry, rfl⟩ := List.mem_map.mp member
    have listed : waiters self.concurrent key = some dlist := by
      rw [waiters, attended.distinct.lookup_self entry]
      rfl
    obtain ⟨fetch, current⟩ := (attended.entries key).mp (by rw [listed]; rfl)
    exact .inr ⟨fetch, key, dlist, (attended.current fetch key).mp current, listed, List.count_pos_iff.mp positive⟩
  · obtain ⟨count, member, positive⟩ := List.sum_pos_iff_exists_pos_nat.mp looping
    obtain ⟨frame, inner, rfl⟩ := List.mem_map.mp member
    exact .inl ⟨frame, inner, List.count_pos_iff.mp positive⟩

/-- The loops come to their ends. -/
theorem exists_drained [DecidableEq ν] (self : AsyncLRUCache κ ν) :
    ∃ n, (final step self (List.replicate n .fire)).firing = [] := by
  obtain ⟨left, length⟩ : ∃ left, left = (self.firing.map fun frame => frame.2.length + 1).sum := ⟨_, rfl⟩
  -- each step of the innermost loop takes a waiter or the loop itself away
  induction left generalizing self with
  | zero =>
    refine ⟨0, ?_⟩
    cases looping : self.firing with
    | nil => exact looping
    | cons frame outer =>
      rw [looping, List.map_cons, List.sum_cons] at length
      omega
  | succ left ih =>
    cases looping : self.firing with
    | nil => exact ⟨0, looping⟩
    | cons frame outer =>
      rw [looping, List.map_cons, List.sum_cons] at length
      obtain ⟨n, drained⟩ := ih self.fire.1 (by
        obtain ⟨result, _ | ⟨d, dlist⟩⟩ := frame
        · simp only [AsyncLRUCache.fire, looping]
          simp only [List.length_nil] at length
          omega
        · simp only [AsyncLRUCache.fire, looping, List.map_cons, List.sum_cons]
          simp only [List.length_cons] at length
          omega)
      exact ⟨n + 1, drained⟩

/-- A fetch that fails or finds nothing leaves the cache alone. -/
theorem complete_lru (self : AsyncLRUCache κ ν) (fetch : Nat) {result : Fetched ν}
    (nothing : ∀ value, result ≠ some (some value)) : (self.complete fetch result).1.lru = self.lru := by
  have release (self : AsyncLRUCache κ ν) (key : κ) (result : Fetched ν) : (self.release key result).1.lru = self.lru := by
    unfold AsyncLRUCache.release
    cases waiters self.concurrent key <;> rfl
  unfold AsyncLRUCache.complete
  cases Keyed.lookup Prod.fst self.fetches fetch with
  | none => rfl
  | some call =>
    rcases result with _ | _ | value
    · exact release _ _ _
    · exact release _ _ _
    · exact absurd rfl (nothing value)

/-- What the asynchronous cache promises its callers, after a run with this history. -/
structure Served [DecidableEq ν] (lru : AsyncLRUCache κ ν) (past : List (Action κ ν)) : Prop where
  lawful : Lawful Law past
  single : ∀ fetch other key, InProgress past fetch key → InProgress past other key → fetch = other
  concurrent : ∀ key, (waiters lru.concurrent key).isSome ↔ ∃ fetch, InProgress past fetch key
  answered : ∀ d key, .requested d key ∈ past →
    past.countP (fires d) = 1 ∨ past.countP (fires d) = 0 ∧ Waiting lru past d
  drains : ∃ n, (final step lru (List.replicate n .fire)).firing = []
  unchanged : ∀ fetch result, (∀ value, result ≠ some (some value)) → (lru.complete fetch result).1.lru = lru.lru

end Steps

/-- One fetch for a key at a time, and one answer to every request, in every run. -/
theorem every_request_served [DecidableEq ν] (max_size : Nat) (events : List (Event κ ν)) :
    Served (final step (init max_size) events) (seen step (init max_size) events) := by
  have serves : Serves (final step (init max_size) events) (seen step (init max_size) events) := by
    have run := @history_of_step _ _ _ (@step κ ν _ _) Serves (fun self past event serves => serves.step event) _ []
      (init_serves max_size) events
    simpa using run
  refine ⟨serves.lawful, fun fetch other key first second => ?_, fun key => ?_, fun d key requested => ?_,
    exists_drained _, fun fetch result nothing => complete_lru _ fetch nothing⟩
  · have one := (serves.current fetch key).mpr first
    have two := (serves.current other key).mpr second
    exact congrArg Prod.fst (serves.single.eq_of_key one two rfl)
  · rw [serves.entries]
    exact exists_congr fun fetch => serves.current fetch key
  · have once := serves.once d
    rw [if_pos (serves.asked d key requested)] at once
    rcases Nat.eq_zero_or_pos (pending (final step (init max_size) events) d) with gone | left
    · exact .inl (by omega)
    · exact .inr ⟨by omega, serves.waiting_of_pending left⟩

-- a callback asks for the key again while the first waiters are being fired
example : seen step (init 1 : AsyncLRUCache Nat Nat)
    [.get 1, .get 1, .complete 0 none, .fire, .get 1, .fire, .complete 1 (some (some 5)), .fire] =
      [.began 0 1, .requested 0 1, .requested 1 1, .ended 0 1 none, .fired 0 none, .began 1 1, .requested 2 1,
        .fired 1 none, .ended 1 1 (some (some 5)), .stored 1 5, .fired 2 (some (some 5))] := by
  decide

end AsyncLRUCache

end Umbilical.Util
