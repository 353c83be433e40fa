import Umbilical.Util.LRUCache
import Umbilical.Shared.Interleaving
import Mathlib.Data.List.Dedup

set_option autoImplicit false

/-!
# The cache against the plain cache

The last occurrences of the keys in the queue are the order of a plain list of entries.
A step that brings back an entry from the weak references into a full cache breaks the
correspondence, and so does a smaller bound that leaves too long a queue.
-/

namespace Umbilical.Util

open Dictionary Interleaving

variable {κ ν : Type} [DecidableEq κ]

namespace LRUCache

/-! ## Queues with duplicates -/

theorem dedup_concat (queue : List κ) (key : κ) :
    (queue ++ [key]).dedup = queue.dedup.filter (· ≠ key) ++ [key] := by
  induction queue with
  | nil => rfl
  | cons k rest ih =>
    rw [List.cons_append]
    by_cases again : k ∈ rest
    · rw [List.dedup_cons_of_mem (List.mem_append_left _ again), List.dedup_cons_of_mem again, ih]
    · by_cases same : k = key
      · subst same
        rw [List.dedup_cons_of_mem (by simp), ih, List.dedup_cons_of_notMem again]
        simp
      · rw [List.dedup_cons_of_notMem (by simp [again, same]), List.dedup_cons_of_notMem again, ih]
        simp [same]

theorem compact_eq (queue : List κ) : compact queue = (queue.dedup, fun k => if k ∈ queue then 1 else 0) := by
  induction queue with
  | nil => rfl
  | cons k rest ih =>
    unfold compact at ih ⊢
    rw [List.foldr_cons, ih]
    by_cases again : k ∈ rest
    · rw [if_pos (by simp [again]), List.dedup_cons_of_mem again]
      congr 1
      funext other
      by_cases same : other = k <;> simp [same, again]
    · rw [if_neg (by simp [again]), List.dedup_cons_of_notMem again]
      congr 1
      funext other
      by_cases same : other = k <;> simp [same]

/-! ## The stores belong together -/

/-- The keys of the cache are those of the queue, and the counts count them. -/
structure Counted (queue : List κ) (cache : List (κ × ν)) (refcount : κ → Int) : Prop where
  distinct : Keyed.Distinct Prod.fst cache
  coincide : ∀ k, k ∈ queue ↔ (cached cache k).isSome
  counts : ∀ k, refcount k = queue.count k

theorem cached_isSome {cache : List (κ × ν)} {k : κ} : (cached cache k).isSome ↔ k ∈ cache.map Prod.fst := by
  unfold cached
  rw [Option.isSome_map, Option.isSome_iff_ne_none, Ne, Keyed.lookup_eq_none]
  simp

theorem cached_setItem (cache : List (κ × ν)) (key : κ) (value : ν) (k : κ) :
    cached (setItem Prod.fst cache (key, value)) k = if k = key then some value else cached cache k := by
  unfold cached
  rw [lookup_setItem]
  split <;> rfl

theorem Counted.length {queue : List κ} {cache : List (κ × ν)} {refcount : κ → Int}
    (counted : Counted queue cache refcount) : cache.length = queue.dedup.length := by
  have same : (cache.map Prod.fst).Perm queue.dedup := by
    rw [List.perm_ext_iff_of_nodup counted.distinct (List.nodup_dedup queue)]
    intro k
    rw [List.mem_dedup, counted.coincide, cached_isSome]
  simpa using same.length_eq

/-- The key of a stored entry is used. -/
theorem ref_key_counted {self : LRUCache κ ν} {key : κ} (distinct : Keyed.Distinct Prod.fst self.cache)
    (coincide : ∀ k, k ∈ self.queue ∨ k = key ↔ (cached self.cache k).isSome)
    (counts : ∀ k, self.refcount k = self.queue.count k) :
    Counted (self._ref_key key).queue self.cache (self._ref_key key).refcount ∧
      (self._ref_key key).queue.dedup = self.queue.dedup.filter (· ≠ key) ++ [key] ∧
      ((self._ref_key key).queue.length ≤ self.max_queue ∨ (self._ref_key key).queue.Nodup) := by
  unfold _ref_key
  dsimp only
  split
  · rw [compact_eq]
    refine ⟨⟨distinct, fun k => ?_, fun k => ?_⟩, ?_, .inr (List.nodup_dedup _)⟩
    · rw [List.mem_dedup, ← coincide, List.mem_append, List.mem_singleton]
    · -- every key of the queue is left once
      by_cases member : k ∈ self.queue ++ [key]
      · simp [member, List.count_eq_one_of_mem (List.nodup_dedup _) (List.mem_dedup.mpr member)]
      · simp [member, List.count_eq_zero_of_not_mem fun again => member (List.mem_dedup.mp again)]
    · exact (List.dedup_idem).trans (dedup_concat self.queue key)
  · rename_i short
    refine ⟨⟨distinct, fun k => ?_, fun k => ?_⟩, dedup_concat self.queue key, ?_⟩
    · rw [← coincide, List.mem_append, List.mem_singleton]
    · by_cases same : k = key
      · subst same
        simp [counts]
      · simp [Function.update_of_ne same, counts, List.count_append, Ne.symm same]
    · exact .inl (Nat.le_of_not_lt short)

/-! ## Eviction -/

theorem evict_spec {max_size : Nat} {queue : List κ} {cache : List (κ × ν)} {refcount : κ → Int}
    (counted : Counted queue cache refcount) :
    ∃ kept cache' refcount', evict max_size queue cache refcount = .ok (kept, cache', refcount') ∧
      Counted kept cache' refcount' ∧ kept <:+ queue ∧
      kept.dedup = queue.dedup.drop (queue.dedup.length - max_size) ∧ cache'.length ≤ max_size ∧
      (∀ k, cached cache' k = if k ∈ kept then cached cache k else none) ∧
      ∀ last, last <:+ queue → last.dedup.length ≤ max_size → last <:+ kept := by
  induction queue generalizing cache refcount with
  | nil =>
    have empty : cache.length ≤ max_size := by simp [counted.length]
    refine ⟨[], cache, refcount, if_pos empty, counted, List.suffix_rfl, by simp, empty, fun k => ?_, fun _ short _ => short⟩
    have absent := (counted.coincide k).not.mp List.not_mem_nil
    simpa using absent
  | cons k rest ih =>
    by_cases fits : cache.length ≤ max_size
    · refine ⟨k :: rest, cache, refcount, if_pos fits, counted, List.suffix_rfl, ?_, fits, fun j => ?_,
        fun _ short _ => short⟩
      · rw [counted.length] at fits
        rw [Nat.sub_eq_zero_of_le fits, List.drop_zero]
      · by_cases member : j ∈ k :: rest
        · rw [if_pos member]
        · rw [if_neg member]
          have absent := (counted.coincide j).not.mp member
          simpa using absent
    · -- one key is popped, and goes when it was there for the last time
      have many := counted.length
      have count : refcount k - 1 = rest.count k := by simp [counted.counts]
      have longest (last : List κ) (suffix : last <:+ k :: rest) (few : last.dedup.length ≤ max_size) : last <:+ rest := by
        rcases List.suffix_cons_iff.mp suffix with rfl | shorter
        · exact absurd (many ▸ few) fits
        · exact shorter
      by_cases again : k ∈ rest
      · have left : refcount k - 1 ≠ 0 := by
          rw [count]
          exact_mod_cast Nat.ne_of_gt (List.count_pos_iff.mpr again)
        have popped : Counted rest cache (Function.update refcount k (refcount k - 1)) := by
          refine ⟨counted.distinct, fun j => ?_, fun j => ?_⟩
          · rw [← counted.coincide j, List.mem_cons]
            exact ⟨.inr, fun member => member.elim (fun same => same ▸ again) id⟩
          · by_cases same : j = k
            · subst same
              rw [Function.update_self, count]
            · rw [Function.update_of_ne same, counted.counts, List.count_cons_of_ne (Ne.symm same)]
        obtain ⟨kept, cache', refcount', evicted, after, suffix, order, bound, values, least⟩ := ih popped
        refine ⟨kept, cache', refcount', ?_, after, suffix.trans (List.suffix_cons k rest), ?_, bound, values,
          fun last short few => least last (longest last short few) few⟩
        · rw [evict, if_neg fits, if_pos left, evicted]
        · rw [List.dedup_cons_of_mem again, order]
      · have gone : refcount k - 1 = 0 := by simp [count, List.count_eq_zero_of_not_mem again]
        have present : (cached cache k).isSome := (counted.coincide k).mp List.mem_cons_self
        have erased (j : κ) : cached (cache.eraseP fun entry => entry.1 = k) j = if j = k then none else cached cache j := by
          unfold cached
          rw [lookup_eraseP counted.distinct]
          split <;> rfl
        have popped : Counted rest (cache.eraseP fun entry => entry.1 = k) (Function.update refcount k 0) := by
          refine ⟨counted.distinct.sublist (List.eraseP_sublist.map _), fun j => ?_, fun j => ?_⟩
          · rw [erased]
            by_cases same : j = k
            · subst same
              simp [again]
            · rw [if_neg same, ← counted.coincide j]
              simp [same]
          · by_cases same : j = k
            · subst same
              simp [List.count_eq_zero_of_not_mem again]
            · rw [Function.update_of_ne same, counted.counts, List.count_cons_of_ne (Ne.symm same)]
        obtain ⟨kept, cache', refcount', evicted, after, suffix, order, bound, values, least⟩ := ih popped
        refine ⟨kept, cache', refcount', ?_, after, suffix.trans (List.suffix_cons k rest), ?_, bound, fun j => ?_,
          fun last short few => least last (longest last short few) few⟩
        · rw [evict, if_neg fits, if_neg (not_not.mpr gone), if_pos present, evicted]
        · rw [List.dedup_cons_of_notMem again] at many ⊢
          have more : max_size ≤ rest.dedup.length := by
            rw [List.length_cons] at many
            omega
          rw [order, List.length_cons, Nat.sub_add_comm more, List.drop_succ_cons]
        · rw [values, erased]
          by_cases member : j ∈ kept
          · have other : j ≠ k := fun same => again (same ▸ suffix.subset member)
            rw [if_pos member, if_pos member, if_neg other]
          · rw [if_neg member, if_neg member]

/-! ## The correspondence -/

/-- The cache has the entries and the weak references of the plain cache. -/
structure Tracks (lru : LRUCache κ ν) (plain : PlainCache κ ν) : Prop where
  max_size : lru.max_size = plain.max_size
  max_queue : lru.max_queue = lru.max_size * QUEUE_SIZE_FACTOR
  counted : Counted lru.queue lru.cache lru.refcount
  order : lru.queue.dedup = plain.entries.map Prod.fst
  values : ∀ k, cached lru.cache k = cached plain.entries k
  weakrefs : lru.weakrefs = plain.alive
  alive : ∀ k value, cached plain.entries k = some value → plain.alive k = some value

/-- The cache also keeps its bounds. -/
structure Refines (lru : LRUCache κ ν) (plain : PlainCache κ ν) : Prop extends Tracks lru plain where
  small : lru.cache.length ≤ lru.max_size
  short : lru.queue.length ≤ max lru.max_queue lru.max_size

variable {self : LRUCache κ ν} {plain : PlainCache κ ν}

theorem Tracks.distinct (tracks : self.Tracks plain) : Keyed.Distinct Prod.fst plain.entries := by
  unfold Keyed.Distinct
  rw [← tracks.order]
  exact List.nodup_dedup _

theorem Tracks.length (tracks : self.Tracks plain) : self.cache.length = plain.entries.length := by
  rw [tracks.counted.length, tracks.order, List.length_map]

theorem cached_drop {entries : List (κ × ν)} (distinct : Keyed.Distinct Prod.fst entries) (n : Nat) (k : κ) :
    cached (entries.drop n) k = if k ∈ (entries.drop n).map Prod.fst then cached entries k else none := by
  have later : Keyed.Distinct Prod.fst (entries.drop n) := distinct.sublist ((List.drop_sublist n entries).map _)
  by_cases member : k ∈ (entries.drop n).map Prod.fst
  · rw [if_pos member]
    obtain ⟨entry, left, rfl⟩ := List.mem_map.mp member
    unfold cached
    rw [later.lookup_self left, distinct.lookup_self (List.mem_of_mem_drop left)]
  · rw [if_neg member]
    have absent := mt cached_isSome.mp member
    simpa using absent

/-- What is left after a purge is what is left of the plain cache. -/
theorem Tracks.purge (tracks : self.Tracks plain) :
    ∃ after, self._purge = .ok after ∧ after.Tracks plain.trim ∧ after.cache.length ≤ after.max_size ∧
      after.queue <:+ self.queue ∧
      ∀ last, last <:+ self.queue → last.dedup.length ≤ self.max_size → last <:+ after.queue := by
  obtain ⟨queue, cache, refcount, evicted, counted, suffix, order, small, values, longest⟩ :=
    @evict_spec _ _ _ self.max_size _ _ _ tracks.counted
  have entries : queue.dedup = plain.trim.entries.map Prod.fst := by
    rw [order, PlainCache.trim, List.map_drop, tracks.order, tracks.max_size, List.length_map]
  have same (k : κ) : cached cache k = cached plain.trim.entries k := by
    have dropped := cached_drop tracks.distinct (plain.entries.length - plain.max_size) k
    have member : k ∈ queue ↔ k ∈ plain.trim.entries.map Prod.fst := by rw [← entries, List.mem_dedup]
    rw [values]
    unfold PlainCache.trim at member ⊢
    rw [dropped]
    simp only [member, tracks.values]
  refine ⟨{ self with queue := queue, cache := cache, refcount := refcount }, ?_,
    ⟨tracks.max_size, tracks.max_queue, counted, entries, same, tracks.weakrefs, fun k value found => ?_⟩, small, suffix,
    longest⟩
  · rw [_purge, evicted]
    rfl
  · have dropped := cached_drop tracks.distinct (plain.entries.length - plain.max_size) k
    unfold PlainCache.trim at found ⊢
    rw [dropped] at found
    split at found
    · exact tracks.alive k value found
    · exact absurd found (by simp)

/-- The plain cache before it is trimmed. -/
def touched (plain : PlainCache κ ν) (key : κ) (value : ν) : PlainCache κ ν :=
  { plain with
    entries := plain.entries.filter (fun entry => entry.1 ≠ key) ++ [(key, value)]
    alive := Function.update plain.alive key (some value) }

theorem cached_touched (entries : List (κ × ν)) (key : κ) (value : ν) (k : κ) :
    cached (entries.filter (fun entry => entry.1 ≠ key) ++ [(key, value)]) k =
      if k = key then some value else cached entries k := by
  unfold cached
  rw [Keyed.lookup_append]
  by_cases same : k = key
  · have gone : Keyed.lookup Prod.fst (entries.filter fun entry => entry.1 ≠ key) k = none := by
      rw [Keyed.lookup_eq_none]
      intro entry member
      simpa [same] using (List.mem_filter.mp member).2
    rw [gone]
    simp [same]
  · have kept : Keyed.lookup Prod.fst (entries.filter fun entry => entry.1 ≠ key) k = Keyed.lookup Prod.fst entries k := by
      induction entries with
      | nil => rfl
      | cons entry rest ih =>
        by_cases named : entry.1 = key
        · have other : entry.1 ≠ k := fun equal => same (equal.symm.trans named)
          simpa [Keyed.lookup, named, Ne.symm same] using ih
        · by_cases found : entry.1 = k
          · simp [Keyed.lookup, found, same]
          · simpa [Keyed.lookup, named, found] using ih
    rw [kept]
    simp [same, Ne.symm same]

/-- An entry that is stored and used, before the purge. -/
theorem Tracks.touch (tracks : self.Tracks plain) {stored : LRUCache κ ν} {key : κ} {value : ν}
    (kept : stored.max_size = self.max_size ∧ stored.max_queue = self.max_queue ∧ stored.queue = self.queue ∧
      stored.refcount = self.refcount)
    (distinct : Keyed.Distinct Prod.fst stored.cache)
    (values : ∀ k, cached stored.cache k = if k = key then some value else cached self.cache k)
    (weakrefs : stored.weakrefs = Function.update self.weakrefs key (some value)) :
    (stored._ref_key key).Tracks (touched plain key value) ∧
      ((stored._ref_key key).queue.length ≤ stored.max_queue ∨ (stored._ref_key key).queue.Nodup) := by
  obtain ⟨max_size, max_queue, queue, refcount⟩ := kept
  have others : (stored._ref_key key).max_size = self.max_size ∧ (stored._ref_key key).max_queue = self.max_queue ∧
      (stored._ref_key key).cache = stored.cache ∧ (stored._ref_key key).weakrefs = stored.weakrefs := by
    unfold _ref_key
    dsimp only
    split <;> exact ⟨max_size, max_queue, rfl, rfl⟩
  obtain ⟨size, most, cache, weak⟩ := others
  obtain ⟨counted, order, short⟩ := @ref_key_counted _ _ _ stored key distinct (fun k => by
    rw [queue, tracks.counted.coincide, values]
    by_cases same : k = key <;> simp [same]) (fun k => by rw [queue, refcount, tracks.counted.counts])
  refine ⟨⟨size.trans tracks.max_size, ?_, cache ▸ counted, ?_, fun k => ?_, ?_, fun k other found => ?_⟩, short⟩
  · rw [most, size, tracks.max_queue]
  · rw [order, queue, tracks.order, touched, List.map_append, List.filter_map]
    rfl
  · rw [cache, values, touched, cached_touched, tracks.values]
  · rw [weak, weakrefs, touched, tracks.weakrefs]
  · unfold touched at found ⊢
    dsimp only at found ⊢
    rw [cached_touched] at found
    by_cases same : k = key
    · subst same
      simpa using found
    · rw [if_neg same] at found
      rw [Function.update_of_ne same]
      exact tracks.alive k other found

/-! ## Steps -/

/-- Nothing is brought back into a full cache, and a new bound is not too small for the keys that stay in the queue. -/
def Room (self : LRUCache κ ν) : Event κ ν → Prop
  | .put key _ | .get key _ =>
      cached self.cache key = none → (self.weakrefs key).isSome → self.cache.length < self.max_size
  | .set_max_size max_size =>
      max_size ≠ self.max_size → ∀ last, last <:+ self.queue → last.dedup.length ≤ max_size →
        last.length ≤ max_size * QUEUE_SIZE_FACTOR
  | .collect _ => True

omit [DecidableEq κ] in
theorem trim_of_le (plain : PlainCache κ ν) (fits : plain.entries.length ≤ plain.max_size) : plain.trim = plain := by
  unfold PlainCache.trim
  rw [Nat.sub_eq_zero_of_le fits, List.drop_zero]

theorem Tracks.refines (tracks : self.Tracks plain) (small : self.cache.length ≤ self.max_size)
    (short : self.queue.length ≤ self.max_queue ∨ self.queue.Nodup) : self.Refines plain := by
  refine ⟨tracks, small, ?_⟩
  rcases short with short | nodup
  · exact Nat.le_trans short (Nat.le_max_left _ _)
  · have length := tracks.counted.length
    rw [nodup.dedup] at length
    exact Nat.le_trans (length ▸ small) (Nat.le_max_right _ _)

/-- A use that is followed by a purge. -/
theorem Tracks.purge_refines (tracks : self.Tracks plain)
    (short : self.queue.length ≤ self.max_queue ∨ self.queue.Nodup) :
    ∃ after, self._purge = .ok after ∧ after.Refines plain.trim := by
  obtain ⟨after, purged, left, small, suffix, -⟩ := tracks.purge
  have max_queue : after.max_queue = self.max_queue := by
    rw [left.max_queue, left.max_size, tracks.max_queue, tracks.max_size]
    rfl
  refine ⟨after, purged, left.refines small ?_⟩
  rcases short with short | nodup
  · exact .inl (max_queue ▸ Nat.le_trans suffix.length_le short)
  · exact .inr (nodup.sublist suffix.sublist)

/-- A use that is not keeps the correspondence if the cache is not over-full. -/
theorem Tracks.touched_refines {key : κ} {value : ν} (tracks : self.Tracks (touched plain key value))
    (short : self.queue.length ≤ self.max_queue ∨ self.queue.Nodup) :
    self.Refines (plain.use key value) ↔ self.cache.length ≤ self.max_size := by
  refine ⟨Refines.small, fun small => ?_⟩
  have fits : (touched plain key value).entries.length ≤ (touched plain key value).max_size := by
    rw [← tracks.length, ← tracks.max_size]
    exact small
  have same : plain.use key value = touched plain key value := trim_of_le _ fits
  rw [same]
  exact tracks.refines small short

theorem length_setItem (cache : List (κ × ν)) (key : κ) (value : ν) :
    (setItem Prod.fst cache (key, value)).length =
      if (cached cache key).isSome then cache.length else cache.length + 1 := by
  unfold setItem cached
  rw [Option.isSome_map]
  split
  · simp [Keyed.revise]
  · simp

theorem ref_key_cache (key : κ) :
    (self._ref_key key).cache = self.cache ∧ (self._ref_key key).max_size = self.max_size := by
  unfold _ref_key
  dsimp only
  split <;> exact ⟨rfl, rfl⟩

theorem mem_values {cache : List (κ × ν)} (distinct : Keyed.Distinct Prod.fst cache) (value : ν) :
    value ∈ cache.map Prod.snd ↔ ∃ k, cached cache k = some value := by
  rw [List.mem_map]
  constructor
  · rintro ⟨entry, member, rfl⟩
    refine ⟨entry.1, ?_⟩
    rw [cached, distinct.lookup_self member]
    rfl
  · rintro ⟨k, found⟩
    obtain ⟨entry, looked, rfl⟩ := Option.map_eq_some_iff.mp found
    exact ⟨entry, (Keyed.mem_of_lookup looked).1, rfl⟩

/-- The stored value under its key. -/
theorem Refines.stored (refines : self.Refines plain) (key : κ) (value : ν) :
    ((self.store key value)._ref_key key).Tracks (touched plain key value) ∧
      (((self.store key value)._ref_key key).queue.length ≤ self.max_queue ∨
        ((self.store key value)._ref_key key).queue.Nodup) :=
  refines.touch ⟨rfl, rfl, rfl, rfl⟩ (distinct_setItem refines.counted.distinct) (cached_setItem _ key value) rfl

theorem Refines.put (refines : self.Refines plain) (key : κ) (value : ν) :
    ∃ after, self.put key value = .ok after ∧
      (after.Refines (plain.use key value) ↔ self.Room (.put key value)) := by
  obtain ⟨tracks, short⟩ := refines.stored key value
  have length : ((self.store key value)._ref_key key).cache.length =
      if (cached self.cache key).isSome then self.cache.length else self.cache.length + 1 := by
    rw [(ref_key_cache key).1]
    exact length_setItem self.cache key value
  have size : ((self.store key value)._ref_key key).max_size = self.max_size := (ref_key_cache key).2
  have most : ((self.store key value)._ref_key key).max_queue = self.max_queue := by
    rw [tracks.max_queue, size, refines.max_queue]
  by_cases known : ((cached self.cache key).isSome || (self.weakrefs key).isSome) = true
  · refine ⟨(self.store key value)._ref_key key, if_pos known, ?_⟩
    rw [tracks.touched_refines (most ▸ short), length, size, Room]
    have small := refines.small
    cases found : cached self.cache key with
    | some old => simpa using small
    | none =>
      have alive : (self.weakrefs key).isSome := by simpa [found] using known
      rw [if_neg (by simp), Nat.succ_le_iff]
      exact ⟨fun room _ _ => room, fun room => room rfl alive⟩
  · obtain ⟨after, purged, kept⟩ := tracks.purge_refines (most ▸ short)
    refine ⟨after, (if_neg known).trans purged, iff_of_true kept fun absent alive => ?_⟩
    simp [alive] at known

/-- The result of a hit is the value that is alive, and its key is used. -/
theorem Tracks.hit (tracks : self.Tracks plain) {key : κ} {result : ν} {after : LRUCache κ ν}
    (hit : self._get_hit key = some (result, after)) :
    plain.alive key = some result ∧ after.Tracks (touched plain key result) ∧
      (after.queue.length ≤ after.max_queue ∨ after.queue.Nodup) ∧ after.max_size = self.max_size ∧
      after.cache.length = (if (cached self.cache key).isSome then self.cache.length else self.cache.length + 1) ∧
      ((cached self.cache key).isSome ∨ (self.weakrefs key).isSome) := by
  unfold _get_hit at hit
  cases found : cached self.cache key with
  | some value =>
    rw [found] at hit
    obtain ⟨rfl, rfl⟩ := Prod.mk.inj (Option.some.inj hit)
    have alive : plain.alive key = some value := tracks.alive key value (tracks.values key ▸ found)
    obtain ⟨used, short⟩ := @Tracks.touch _ _ _ self plain tracks { self with hits := self.hits + 1 } key value
      ⟨rfl, rfl, rfl, rfl⟩ tracks.counted.distinct (fun k => by
        by_cases same : k = key
        · rw [if_pos same, same]
          exact found
        · rw [if_neg same]) (by
        rw [Function.update_eq_self_iff.mpr]
        rw [tracks.weakrefs, alive])
    have sizes := @ref_key_cache _ _ _ { self with hits := self.hits + 1 } key
    refine ⟨alive, used, ?_, sizes.2, by simp [sizes.1], .inl rfl⟩
    rw [used.max_queue, sizes.2]
    exact tracks.max_queue ▸ short
  | none =>
    cases weak : self.weakrefs key with
    | none => simp [found, weak] at hit
    | some value =>
      rw [found, weak] at hit
      obtain ⟨rfl, rfl⟩ := Prod.mk.inj (Option.some.inj hit)
      obtain ⟨used, short⟩ := @Tracks.touch _ _ _ self plain tracks
        { self with refhits := self.refhits + 1, cache := setItem Prod.fst self.cache (key, value) } key value
        ⟨rfl, rfl, rfl, rfl⟩ (distinct_setItem tracks.counted.distinct) (cached_setItem _ key value) (by
          rw [Function.update_eq_self_iff.mpr weak.symm])
      have sizes := @ref_key_cache _ _ _
        { self with refhits := self.refhits + 1, cache := setItem Prod.fst self.cache (key, value) } key
      refine ⟨tracks.weakrefs ▸ weak, used, ?_, sizes.2, ?_, .inr rfl⟩
      · rw [used.max_queue, sizes.2]
        exact tracks.max_queue ▸ short
      · rw [sizes.1, length_setItem, found]

theorem Refines.hit (refines : self.Refines plain) {key : κ} {result : ν} {after : LRUCache κ ν}
    (hit : self._get_hit key = some (result, after)) (fetched : Fetched ν) :
    plain.alive key = some result ∧ (after.Refines (plain.use key result) ↔ self.Room (.get key fetched)) := by
  obtain ⟨alive, used, short, size, length, known⟩ := refines.toTracks.hit hit
  refine ⟨alive, ?_⟩
  rw [used.touched_refines short, length, size, Room]
  have small := refines.small
  cases found : cached self.cache key with
  | some old => simpa using small
  | none =>
    rw [found] at known
    have weak : (self.weakrefs key).isSome := by simpa using known
    rw [if_neg (by simp), Nat.succ_le_iff]
    exact ⟨fun room _ _ => room, fun room => room rfl weak⟩

theorem Refines.miss (refines : self.Refines plain) {key : κ} (miss : self._get_hit key = none) :
    plain.alive key = none := by
  rw [← refines.weakrefs]
  unfold _get_hit at miss
  cases found : cached self.cache key with
  | some value => simp [found] at miss
  | none =>
    cases weak : self.weakrefs key with
    | none => rfl
    | some value => simp [found, weak] at miss

/-- The bounds do not matter for what is kept. -/
theorem Tracks.resize (tracks : self.Tracks plain) (max_size : Nat) :
    ({ self with max_size := max_size, max_queue := max_size * QUEUE_SIZE_FACTOR } : LRUCache κ ν).Tracks
      { plain with max_size := max_size } :=
  ⟨rfl, rfl, tracks.counted, tracks.order, tracks.values, tracks.weakrefs, tracks.alive⟩

theorem Refines.set_max_size (refines : self.Refines plain) (max_size : Nat) :
    ∃ after, self.set_max_size max_size = .ok after ∧
      (after.Refines { plain with max_size := max_size }.trim ↔ self.Room (.set_max_size max_size)) := by
  by_cases same : self.max_size = max_size
  · have plain' : { plain with max_size := max_size } = plain := by
      rw [← same, refines.max_size]
    have trimmed : plain.trim = plain := trim_of_le plain (by
      rw [← refines.length, ← refines.max_size]
      exact refines.small)
    refine ⟨self, if_pos same, ?_⟩
    rw [plain', trimmed]
    exact iff_of_true refines fun different => absurd same.symm different
  · obtain ⟨after, purged, left, small, suffix, longest⟩ := (refines.toTracks.resize max_size).purge
    refine ⟨after, (if_neg same).trans purged, ?_⟩
    have size : after.max_size = max_size := left.max_size
    have bound : max after.max_queue after.max_size = max_size * QUEUE_SIZE_FACTOR := by
      rw [left.max_queue, size, QUEUE_SIZE_FACTOR]
      omega
    constructor
    · intro kept _ last here few
      have whole := kept.short
      rw [bound] at whole
      exact Nat.le_trans (longest last here few).length_le whole
    · intro room
      refine ⟨left, small, ?_⟩
      rw [bound]
      refine room (Ne.symm same) after.queue suffix ?_
      rw [← left.counted.length, ← size]
      exact small

theorem Tracks.collect [DecidableEq ν] (tracks : self.Tracks plain) (value : ν) :
    (self.collect value).Tracks (plain.step (.collect value)).1 := by
  have member : value ∈ self.cache.map Prod.snd ↔ value ∈ plain.entries.map Prod.snd := by
    rw [mem_values tracks.counted.distinct, mem_values tracks.distinct]
    simp only [tracks.values]
  unfold LRUCache.collect PlainCache.step
  by_cases here : value ∈ self.cache.map Prod.snd
  · rw [if_pos here]
    dsimp only
    rw [if_pos (member.mp here)]
    exact tracks
  · rw [if_neg here]
    dsimp only
    rw [if_neg (mt member.mpr here)]
    refine ⟨tracks.max_size, tracks.max_queue, tracks.counted, tracks.order, tracks.values, ?_, ?_⟩
    · funext key
      rw [tracks.weakrefs]
    · intro k other found
      have alive := tracks.alive k other found
      -- a value in the cache is not the one that is gone
      have apart : other ≠ value := fun same =>
        here (member.mpr ((mem_values tracks.distinct value).mpr ⟨k, same ▸ found⟩))
      simp [alive, apart]

theorem Refines.collect [DecidableEq ν] (refines : self.Refines plain) (value : ν) :
    (self.collect value).Refines (plain.step (.collect value)).1 := by
  refine ⟨refines.toTracks.collect value, ?_, ?_⟩
  · unfold LRUCache.collect
    split <;> exact refines.small
  · unfold LRUCache.collect
    split <;> exact refines.short

/-- Every step, up to the condition. -/
theorem Refines.step [DecidableEq ν] (refines : self.Refines plain) (event : Event κ ν) :
    ((self.step event).1.Refines (plain.step event).1 ↔ self.Room event) ∧
      (self.step event).2 = (plain.step event).2 := by
  cases event with
  | put key value =>
    obtain ⟨after, done, kept⟩ := refines.put key value
    have taken : self.step (.put key value) = (after, [.returned (some none)]) := by
      rw [LRUCache.step, done]
      rfl
    rw [taken]
    exact ⟨kept, rfl⟩
  | get key fetched =>
    cases hit : self._get_hit key with
    | some found =>
      obtain ⟨result, after⟩ := found
      obtain ⟨alive, kept⟩ := refines.hit hit fetched
      have taken : self.step (.get key fetched) = (after, [.returned (some (some result))]) := by
        simp only [LRUCache.step, LRUCache.get, hit]
      have plainly : plain.step (.get key fetched) = (plain.use key result, [.returned (some (some result))]) := by
        simp only [PlainCache.step, alive]
      rw [taken, plainly]
      exact ⟨kept, rfl⟩
    | none =>
      have dead := refines.miss hit
      have free : self.Room (.get key fetched) := by
        intro _ alive
        rw [refines.weakrefs, dead] at alive
        exact absurd alive (by simp)
      have missed : ({ self with misses := self.misses + 1 } : LRUCache κ ν).Refines plain :=
        ⟨⟨refines.max_size, refines.max_queue, refines.counted, refines.order, refines.values, refines.weakrefs,
          refines.alive⟩, refines.small, refines.short⟩
      rcases fetched with _ | _ | result
      · have taken : self.step (.get key none) = ({ self with misses := self.misses + 1 }, [.returned none]) := by
          simp only [LRUCache.step, LRUCache.get, hit]
        have plainly : plain.step (.get key none) = (plain, [.returned none]) := by
          simp only [PlainCache.step, dead]
        rw [taken, plainly]
        exact ⟨iff_of_true missed free, rfl⟩
      · have taken : self.step (.get key (some none)) =
            ({ self with misses := self.misses + 1 }, [.returned (some none)]) := by
          simp only [LRUCache.step, LRUCache.get, hit]
        have plainly : plain.step (.get key (some none)) = (plain, [.returned (some none)]) := by
          simp only [PlainCache.step, dead]
        rw [taken, plainly]
        exact ⟨iff_of_true missed free, rfl⟩
      · obtain ⟨tracks, short⟩ := missed.stored key result
        have most : ((({ self with misses := self.misses + 1 } : LRUCache κ ν).store key result)._ref_key key).max_queue =
            self.max_queue := by
          rw [tracks.max_queue, (ref_key_cache key).2]
          exact refines.max_queue.symm
        obtain ⟨after, purged, kept⟩ := tracks.purge_refines (by rw [most]; exact short)
        have taken : self.step (.get key (some (some result))) = (after, [.returned (some (some result))]) := by
          simp only [LRUCache.step, LRUCache.get, hit, purged]
          rfl
        have plainly : plain.step (.get key (some (some result))) =
            (plain.use key result, [.returned (some (some result))]) := by
          simp only [PlainCache.step, dead]
        rw [taken, plainly]
        exact ⟨iff_of_true kept free, rfl⟩
  | set_max_size max_size =>
    obtain ⟨after, done, kept⟩ := refines.set_max_size max_size
    have taken : self.step (.set_max_size max_size) = (after, [.returned (some none)]) := by
      rw [LRUCache.step, done]
      rfl
    rw [taken]
    exact ⟨kept, rfl⟩
  | collect value =>
    have shown : (plain.step (.collect value)).2 = ([] : List (Answer ν)) := by
      unfold PlainCache.step
      dsimp only
      split <;> rfl
    exact ⟨iff_of_true (refines.collect value) trivial, shown.symm⟩

theorem init_refines (max_size : Nat) : (init max_size : LRUCache κ ν).Refines (PlainCache.init max_size) := by
  refine ⟨⟨rfl, rfl, ⟨List.nodup_nil, ?_, fun _ => rfl⟩, rfl, fun _ => rfl, rfl, ?_⟩, Nat.zero_le _, Nat.zero_le _⟩
  · intro k
    exact iff_of_false List.not_mem_nil (by simp [init, cached, Keyed.lookup])
  · intro k value found
    simp [PlainCache.init, cached, Keyed.lookup] at found

/-- The cache is a least-recently-used cache in every state of every run, if and only if there is room at every step;
its answers are those of the plain cache as long as there is. -/
theorem run_refines_iff [DecidableEq ν] (max_size : Nat) (events : List (Event κ ν)) :
    ((∀ past, past <+: events →
        (final LRUCache.step (init max_size) past).Refines (final PlainCache.step (PlainCache.init max_size) past)) ↔
      Always LRUCache.step Room (init max_size) events) ∧
    (Always LRUCache.step Room (init max_size) events →
      seen LRUCache.step (init max_size) events = seen PlainCache.step (PlainCache.init max_size) events) := by
  constructor
  · apply related_iff
    · exact fun self plain event refines room => (refines.step event).1.mpr room
    · exact fun self plain event refines full kept => full ((refines.step event).1.mp kept)
    · exact init_refines max_size
  · intro always
    refine seen_eq_of_always (fun self plain event (refines : self.Refines plain) room => ?_) (init_refines max_size) always
    exact ⟨(refines.step event).1.mpr room, (refines.step event).2⟩

/-- An entry that comes back from the weak references makes the cache too long, and a smaller bound leaves a queue that
is too long. -/
theorem overfull_and_overlong :
    ¬ (∀ past, past <+: [Event.put 1 10, .put 2 20, .put 1 11] →
      (final LRUCache.step (init 1) past).Refines (final PlainCache.step (PlainCache.init 1) past)) ∧
    ¬ (∀ past, past <+: List.replicate 11 (Event.put 1 10) ++ [.set_max_size 1] →
      (final LRUCache.step (init 2) past).Refines (final PlainCache.step (PlainCache.init 2) past)) := by
  constructor
  · exact fun all => absurd (all _ List.prefix_rfl).small (by decide)
  · exact fun all => absurd (all _ List.prefix_rfl).short (by decide)

end LRUCache

end Umbilical.Util
