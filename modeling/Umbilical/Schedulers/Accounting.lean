import Umbilical.Schedulers.Classifications

set_option autoImplicit false

/-!
# Classified and built

What a scheduler that reads its classifications, adds a buildset of them and then flushes them
by number does to a change: it stays classified until it is in a buildset, as long as the flush
takes nothing that was not read.
-/

namespace Umbilical.Schedulers

/-- How many of the buildsets contain the change. -/
def built (buildsets : List (List Nat)) (number : Nat) : Nat := buildsets.flatten.count number

theorem built_append (buildsets : List (List Nat)) (changeids : List Nat) (number : Nat) :
    built (buildsets ++ [changeids]) number = built buildsets number + changeids.count number := by
  simp [built, List.count_append]

namespace Classifications

variable (rows : Classifications) (buildsets : List (List Nat)) (read : Classifications)

/-- Nothing that is classified has been built. -/
def Clean : Prop := ∀ number ∈ rows.numbers, built buildsets number = 0

/-- What was read is still classified. -/
def Read : Prop := read.numbers.Nodup ∧ ∀ number ∈ read.numbers, number ∈ rows.numbers

/-- What was read, and nothing else that is classified, has been built. -/
def Added : Prop := ∀ number ∈ rows.numbers, built buildsets number = if number ∈ read.numbers then 1 else 0

/-- Every classified change up to the highest one that was read was read. -/
def Covers : Prop := ∀ number ∈ rows.numbers, number ≤ read.maxChangeid → number ∈ read.numbers

/-- Of the changes that ever were classified, those that no longer are have been built. -/
structure Accounted (changes : List Nat) : Prop where
  distinct : rows.numbers.Nodup
  known : ∀ number ∈ rows.numbers, number ∈ changes
  foreign : ∀ number, number ∉ changes → built buildsets number = 0
  flushed : ∀ number ∈ changes, number ∉ rows.numbers → built buildsets number = 1

variable {rows buildsets read} {changes : List Nat}

theorem Accounted.initial (distinct : rows.numbers.Nodup) : rows.Accounted [] rows.numbers where
  distinct := distinct
  known _ member := member
  foreign _ _ := rfl
  flushed _ member unlisted := absurd member unlisted

theorem Clean.initial : rows.Clean [] := fun _ _ => rfl

theorem Accounted.classify (accounted : rows.Accounted buildsets changes) {number : Nat} (important : Bool)
    (unbuilt : built buildsets number = 0) :
    (rows.classifyChanges number important).Accounted buildsets (changes ++ [number]) := by
  refine ⟨classify_nodup accounted.distinct, fun other member => ?_, fun other unknown => ?_,
    fun other change unlisted => ?_⟩
  · rcases mem_numbers_classify.mp member with earlier | rfl
    · exact List.mem_append_left _ (accounted.known other earlier)
    · exact List.mem_append_right _ (List.mem_singleton_self _)
  · exact accounted.foreign other fun member => unknown (List.mem_append_left _ member)
  · have earlier : other ∈ changes := by
      rcases List.mem_append.mp change with earlier | now
      · exact earlier
      · exact absurd (mem_numbers_classify.mpr (.inr (List.mem_singleton.mp now))) unlisted
    exact accounted.flushed other earlier fun member => unlisted (mem_numbers_classify.mpr (.inl member))

theorem Clean.classify (clean : rows.Clean buildsets) {number : Nat} (important : Bool)
    (unbuilt : built buildsets number = 0) : (rows.classifyChanges number important).Clean buildsets := by
  intro other member
  rcases mem_numbers_classify.mp member with earlier | rfl
  · exact clean other earlier
  · exact unbuilt

theorem Read.classify (still : rows.Read read) (number : Nat) (important : Bool) :
    (rows.classifyChanges number important).Read read :=
  ⟨still.1, fun other member => mem_numbers_classify.mpr (.inl (still.2 other member))⟩

theorem count_changeids (distinct : read.numbers.Nodup) (number : Nat) :
    read.changeids.count number = if number ∈ read.numbers then 1 else 0 := by
  split
  · rename_i listed
    exact List.count_eq_one_of_mem (changeids_nodup distinct) (mem_changeids.mpr listed)
  · rename_i unread
    exact List.count_eq_zero.mpr fun member => unread (mem_changeids.mp member)

theorem Read.added (still : rows.Read read) (clean : rows.Clean buildsets) :
    rows.Added (buildsets ++ [read.changeids]) read := by
  intro number member
  rw [built_append, clean number member, count_changeids still.1, Nat.zero_add]

theorem Accounted.add (accounted : rows.Accounted buildsets changes) (still : rows.Read read) :
    rows.Accounted (buildsets ++ [read.changeids]) changes := by
  have unchanged {number : Nat} (unlisted : number ∉ rows.numbers) :
      built (buildsets ++ [read.changeids]) number = built buildsets number := by
    have unread : number ∉ read.numbers := fun member => unlisted (still.2 number member)
    rw [built_append, count_changeids still.1, if_neg unread, Nat.add_zero]
  refine ⟨accounted.distinct, accounted.known, fun number unknown => ?_, fun number change unlisted => ?_⟩
  · exact (unchanged fun member => unknown (accounted.known number member)).trans (accounted.foreign number unknown)
  · exact (unchanged unlisted).trans (accounted.flushed number change unlisted)

theorem Accounted.flush (accounted : rows.Accounted buildsets changes) (added : rows.Added buildsets read)
    (covers : rows.Covers read) :
    (rows.flushChangeClassifications (some (read.maxChangeid + 1))).Accounted buildsets changes := by
  refine ⟨flush_nodup accounted.distinct, fun number member => ?_, accounted.foreign,
    fun number change unlisted => ?_⟩
  · exact accounted.known number (mem_numbers_flush.mp member).1
  · by_cases listed : number ∈ rows.numbers
    · have low : number ≤ read.maxChangeid := by
        by_contra high
        exact unlisted (mem_numbers_flush.mpr ⟨listed, by omega⟩)
      exact (added number listed).trans (if_pos (covers number listed low))
    · exact accounted.flushed number change listed

theorem Added.flush (added : rows.Added buildsets read) :
    (rows.flushChangeClassifications (some (read.maxChangeid + 1))).Clean buildsets := by
  intro number member
  obtain ⟨listed, high⟩ := mem_numbers_flush.mp member
  have unread : number ∉ read.numbers := by
    intro member
    have low := le_maxChangeid member
    omega
  exact (added number listed).trans (if_neg unread)

theorem Clean.le_one (clean : rows.Clean buildsets) {number : Nat} (listed : number ∈ rows.numbers) :
    built buildsets number ≤ 1 := (clean number listed).le.trans (Nat.zero_le 1)

theorem Added.le_one (added : rows.Added buildsets read) {number : Nat} (listed : number ∈ rows.numbers) :
    built buildsets number ≤ 1 := by
  rw [added number listed]
  split <;> omega

end Classifications

end Umbilical.Schedulers
