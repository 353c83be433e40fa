import Umbilical.Logs.Regrouping

set_option autoImplicit false

/-!
# What a compressed log reads back as

A carriage return that no newline follows is one line to the reader and none to
the writer. Such lines lie behind the last line of their chunk, so that a reader
asks for them only together with that chunk, and they shift what follows as soon
as other chunks do follow in the same chunk.
-/

namespace Umbilical.Logs

open Python Lines

variable {compressors : Compressors}

/-- The number of carriage returns in a chunk that no newline follows. -/
def Chunk.loneReturns (compressors : Compressors) (chunk : Chunk) : Nat :=
  lone '\n' '\r' false (chunk.text compressors ++ ['\n'])

theorem Chunk.length_shown {chunk : Chunk} (sound : chunk.Sound compressors) :
    chunk.firstLine + (shown '\n' '\r' (chunk.text compressors)).length =
      chunk.lastLine + 1 + chunk.loneReturns compressors := by
  have counted := sound.lines
  rw [Lines.length_shown (by decide), Chunk.loneReturns]
  omega

theorem remaining_append (last : Option Nat) (cursor : Nat) (before after : List Chunk) :
    remaining last cursor (before ++ after) = remaining last cursor before ++ remaining last cursor after :=
  List.filter_append _ _

section Stretch

variable {first : Nat} {last : Option Nat}

/-- What a reader shows of a text whose lines it takes to be those from `start` to `stop`. -/
def displays (first : Nat) (last : Option Nat) (start stop : Nat) (text : Text) : List Text :=
  if last.all (start ≤ ·) && first ≤ stop then between first last start (shown '\n' '\r' text) else []

theorem remaining_singleton (chunk : Chunk) :
    (remaining last first [chunk]).flatMap (Chunk.shows compressors first last) =
      displays first last chunk.firstLine chunk.lastLine (chunk.text compressors) := by
  unfold remaining displays
  rw [List.filter_cons]
  split_ifs with selected
  · simp [Chunk.shows]
  · rfl

/-- Chunks of which only the last one has lone carriage returns show the same one by one and joined. -/
theorem remaining_eq_displays {chunks : List Chunk} (filled : chunks ≠ []) {start stop : Nat}
    (covers : Covers start chunks (stop + 1)) (sound : ∀ chunk ∈ chunks, chunk.Sound compressors)
    (none : ∀ chunk ∈ chunks.dropLast, chunk.loneReturns compressors = 0) {text : Text}
    (joined : text ++ ['\n'] = textOf compressors chunks) :
    (remaining last first chunks).flatMap (Chunk.shows compressors first last) = displays first last start stop text := by
  induction chunks generalizing start text with
  | nil => exact absurd rfl filled
  | cons chunk chunks ih =>
    obtain ⟨starts, within, rest⟩ := covers
    cases chunks with
    | nil =>
      have same : text = chunk.text compressors := by
        rw [textOf_cons] at joined
        exact List.append_cancel_right joined
      have ends : chunk.lastLine + 1 = stop + 1 := rest
      rw [remaining_singleton, same, starts, Nat.succ.inj ends]
    | cons next chunks =>
      -- the text of the others
      obtain ⟨others, joinedOthers, _⟩ := @exists_joined compressors (next :: chunks) nofun
      have split : text = chunk.text compressors ++ '\n' :: others := by
        rw [textOf_cons, ← joinedOthers] at joined
        have regrouped : chunk.text compressors ++ '\n' :: (others ++ ['\n']) =
            (chunk.text compressors ++ '\n' :: others) ++ ['\n'] := by simp
        exact List.append_cancel_right (joined.trans regrouped)
      have later := ih nofun rest (fun other member => sound other (List.mem_cons_of_mem _ member))
        (fun other member => none other (by simp [member])) joinedOthers
      have counted := Chunk.length_shown (sound chunk List.mem_cons_self)
      rw [none chunk (by simp)] at counted
      have length : start + (shown '\n' '\r' (chunk.text compressors)).length = chunk.lastLine + 1 := by omega
      have beyond : chunk.lastLine + 1 ≤ stop := by
        have := rest.2.2.le
        have := rest.1
        have := rest.2.1
        omega
      have head := remaining_append last first [chunk] (next :: chunks)
      rw [List.singleton_append] at head
      rw [head, List.flatMap_append, later, remaining_singleton, split, starts]
      unfold displays
      rw [shown_append (by decide), between_append, length]
      simp only [Bool.and_eq_true, decide_eq_true_eq]
      by_cases opens : last.all (start ≤ ·)
      · by_cases reaches : first ≤ stop
        · -- what is not asked for is not in the range
          rw [if_pos (show _ ∧ _ from ⟨opens, reaches⟩)]
          congr 1
          · split_ifs with asked
            · rfl
            · exact (between_before (by have : ¬ first ≤ chunk.lastLine := fun early => asked ⟨opens, early⟩; omega)).symm
          · split_ifs with asked
            · rfl
            · exact (between_after fun early => asked ⟨early, reaches⟩).symm
        · rw [if_neg (by omega), if_neg (by omega), if_neg (by omega)]
          rfl
      · have beyond : ¬ last.all (chunk.lastLine + 1 ≤ ·) := fun early => opens (all_of_le (by omega) early)
        rw [if_neg fun asked => opens asked.1, if_neg fun asked => beyond asked.1, if_neg fun asked => opens asked.1]
        rfl

end Stretch

/-- Chunks in the place of stretches show what these show. -/
theorem remaining_merged {first : Nat} {last : Option Nat} {merged : List Chunk} {stretches : List (List Chunk)}
    (merges : List.Forall₂ (Merges compressors) merged stretches) {start stop : Nat}
    (covers : Covers start stretches.flatten stop) (sound : ∀ chunk ∈ stretches.flatten, chunk.Sound compressors)
    (none : ∀ stretch ∈ stretches, ∀ chunk ∈ stretch.dropLast, chunk.loneReturns compressors = 0) :
    (remaining last first merged).flatMap (Chunk.shows compressors first last) =
      (remaining last first stretches.flatten).flatMap (Chunk.shows compressors first last) := by
  induction merges generalizing start with
  | nil => rfl
  | @cons chunk stretch merged stretches merge rest ih =>
    obtain ⟨middle, here, later⟩ := Covers.split (List.flatten_cons ▸ covers)
    obtain ⟨starts, ends⟩ : chunk.firstLine = start ∧ chunk.lastLine + 1 = middle := merge.spans.covers here
    have restShown := ih later (fun other member => sound other (by
        rw [List.flatten_cons]
        exact List.mem_append_right _ member))
      fun other member => none other (List.mem_cons_of_mem _ member)
    have shown : (remaining last first stretch).flatMap (Chunk.shows compressors first last) =
        displays first last start chunk.lastLine (chunk.text compressors) :=
      remaining_eq_displays merge.spans.filled (ends ▸ here) (fun other member => sound other (by simp [member]))
        (none stretch List.mem_cons_self) merge.text
    have single := remaining_append last first [chunk] merged
    rw [List.singleton_append] at single
    rw [single, List.flatten_cons, remaining_append, List.flatMap_append, List.flatMap_append, restShown, shown,
      remaining_singleton, starts]

/-- What the groups of a log select are its stretches. -/
theorem getChunksContent_eq {log : Log} {groups : List (Nat × Nat)} {stretches : List (List Chunk)}
    (spans : List.Forall₂ Spans groups stretches) {before after : List Chunk} {start : Nat}
    (chunks : log.chunks = before ++ (stretches.flatten ++ after)) (coversBefore : Covers 0 before start)
    (coversRest : Covers start (stretches.flatten ++ after) log.numLines) :
    groups.map (getChunksContent log) = stretches := by
  induction spans generalizing before start with
  | nil => rfl
  | @cons group stretch groups stretches spanned rest ih =>
    rw [List.flatten_cons, List.append_assoc] at chunks coversRest
    obtain ⟨stop, coversStretch, coversAfter⟩ := coversRest.split
    have selected := (filter_inGroup coversBefore coversStretch coversAfter spanned).1
    have later := ih (show log.chunks = (before ++ stretch) ++ _ by rw [chunks, List.append_assoc])
      (coversBefore.append coversStretch) coversAfter
    rw [List.map_cons, later, getChunksContent, chunks, selected]

/-- Of a log that is read in a range of its middle part only that part is asked for. -/
theorem remaining_within {before within after : List Chunk} {start stop lines first last : Nat}
    (coversBefore : Covers 0 before start) (coversAfter : Covers stop after lines) (early : start ≤ first)
    (late : last < stop) :
    remaining (some last) first (before ++ (within ++ after)) = remaining (some last) first within := by
  have noneBefore : remaining (some last) first before = [] := by
    refine List.filter_eq_nil_iff.mpr fun chunk member => ?_
    have := coversBefore.within chunk member
    simp only [Option.all_some, Bool.and_eq_true, decide_eq_true_eq]
    omega
  have noneAfter : remaining (some last) first after = [] := by
    refine List.filter_eq_nil_iff.mpr fun chunk member => ?_
    have := coversAfter.within chunk member
    simp only [Option.all_some, Bool.and_eq_true, decide_eq_true_eq]
    omega
  rw [remaining_append, remaining_append, noneBefore, noneAfter, List.nil_append, List.append_nil]

/-- The newlines that a reader returns count the lines that the chunks show. -/
theorem count_getLogLines {log : Log} (sound : log.Sound compressors) (first last : Nat) :
    (getLogLines compressors log first last).map (List.count '\n') =
      some ((remaining (some last) first log.chunks).map fun chunk =>
        (chunk.shows compressors first (some last)).length).sum := by
  have counted : ∀ lines : List Text, (∀ line ∈ lines, line.count '\n' = 1) → lines.flatten.count '\n' = lines.length := by
    intro lines each
    rw [List.count_flatten, List.map_congr_left each]
    simp
  rw [getLogLines_eq sound, Option.map_some, counted, List.length_flatMap]
  intro line member
  obtain ⟨chunk, _, inside⟩ := List.mem_flatMap.mp member
  exact count_of_mem_shown (by decide) (mem_of_mem_between inside)

theorem exists_next_of_mem_dropLast {chunks : List Chunk} {chunk : Chunk} (member : chunk ∈ chunks.dropLast) :
    ∃ before next after, chunks = before ++ chunk :: next :: after := by
  obtain ⟨before, after, split⟩ := List.append_of_mem member
  have filled : chunks ≠ [] := fun empty => by simp [empty] at member
  have whole := List.dropLast_append_getLast filled
  rw [split, List.append_assoc, List.cons_append] at whole
  cases rest : after ++ [chunks.getLast filled] with
  | nil => simp at rest
  | cons next others => exact ⟨before, next, others, by rw [← whole, rest]⟩

/-- A lone carriage return that comes to stand before other chunks shows in the range of the next line. -/
theorem lone_of_preserved {log compressed : Log} (sound : log.Sound compressors) (soundNow : compressed.Sound compressors)
    {before stretch after merged : List Chunk} {chunk new : Chunk} (chunks : log.chunks = before ++ (stretch ++ after))
    (chunksNow : compressed.chunks = merged ++ ([new] ++ after)) (member : chunk ∈ stretch.dropLast)
    (merges : Merges compressors new stretch)
    (preserved : ∀ first last, getLogLines compressors compressed first last = getLogLines compressors log first last) :
    chunk.loneReturns compressors = 0 := by
  by_contra lonely
  obtain ⟨pre, next, post, rfl⟩ := exists_next_of_mem_dropLast member
  -- before: the two chunks show a line more than the range has
  have covers := chunks ▸ sound.covers
  obtain ⟨start, coversBefore, coversRest⟩ := covers.split
  obtain ⟨stop, coversStretch, coversAfter⟩ := coversRest.split
  obtain ⟨middle, coversPre, coversTwo⟩ := coversStretch.split
  obtain ⟨starts, filled, startsNext, filledNext, coversPost⟩ := coversTwo
  have regrouped : log.chunks = (before ++ pre) ++ ([chunk, next] ++ (post ++ after)) := by
    rw [chunks]
    simp
  have counted := Chunk.length_shown (sound.sound chunk (by simp [regrouped]))
  have countedNext := Chunk.length_shown (sound.sound next (by simp [regrouped]))
  have two : remaining (some next.firstLine) chunk.firstLine [chunk, next] = [chunk, next] := by
    refine List.filter_eq_self.mpr fun other inside => ?_
    simp only [Option.all_some, Bool.and_eq_true, decide_eq_true_eq]
    rcases List.mem_cons.mp inside with rfl | inside
    · omega
    · obtain rfl := List.mem_singleton.mp inside
      omega
  have shown := count_getLogLines sound chunk.firstLine next.firstLine
  rw [regrouped, remaining_within (coversBefore.append coversPre) (coversPost.append coversAfter) (by omega) (by omega),
    two] at shown
  -- after: the one chunk shows as many lines as the range has
  have coversNow := chunksNow ▸ soundNow.covers
  obtain ⟨startNow, coversMerged, coversRestNow⟩ := coversNow.split
  obtain ⟨stopNow, coversNew, coversAfterNow⟩ := coversRestNow.split
  obtain ⟨first, last⟩ : new.firstLine = start ∧ new.lastLine + 1 = stop := merges.spans.covers coversStretch
  have newStarts := coversNew.1
  have newEnds : new.lastLine + 1 = stopNow := coversNew.2.2
  have below := coversPre.le
  have beyond := coversPost.le
  have countedNew := Chunk.length_shown merges.sound
  have one : remaining (some next.firstLine) chunk.firstLine [new] = [new] := by
    refine List.filter_eq_self.mpr fun other inside => ?_
    obtain rfl := List.mem_singleton.mp inside
    simp only [Option.all_some, Bool.and_eq_true, decide_eq_true_eq]
    omega
  have shownNow := count_getLogLines soundNow chunk.firstLine next.firstLine
  rw [chunksNow, remaining_within coversMerged coversAfterNow (by omega) (by omega), one, preserved, shown] at shownNow
  simp only [Chunk.shows, List.map_cons, List.map_nil, List.sum_cons, List.sum_nil, length_between,
    Option.some.injEq] at shownNow
  omega

theorem exists_append {merged : List Chunk} {earlier later : List (List Chunk)}
    (merges : List.Forall₂ (Merges compressors) merged (earlier ++ later)) :
    ∃ first second, List.Forall₂ (Merges compressors) first earlier ∧ List.Forall₂ (Merges compressors) second later ∧
      merged = first ++ second :=
  ⟨_, _, List.forall₂_take_append merged earlier later merges, List.forall₂_drop_append merged earlier later merges,
    (List.take_append_drop _ _).symm⟩

/-- Whether a log reads as before after every number of transactions. -/
def Preserves (compressors : Compressors) (configured : Option Method) (force : Bool) (log : Log) : Prop :=
  ∀ transactions,
    Covers 0 (compressLog compressors configured force transactions log).log.chunks log.numLines ∧
    (compressLog compressors configured force transactions log).log.numLines = log.numLines ∧
    ∀ first last, getLogLines compressors (compressLog compressors configured force transactions log).log first last =
      getLogLines compressors log first last

/-- A log reads as before if and only if no chunk with lone carriage returns comes to stand before others. -/
theorem compressLog_preserves_iff (compressors : Compressors) (lawful : compressors.Lawful) (configured : Option Method)
    (force : Bool) (log : Log) (sound : log.Sound compressors) :
    Preserves compressors configured force log ↔
      ∀ group ∈ gatherChunksToProcess force log, ∀ chunk ∈ (getChunksContent log group).dropLast,
        chunk.loneReturns compressors = 0 := by
  obtain ⟨stretches, rest, laid⟩ := Compression.exists_laid_gather sound configured force
  have spans : List.Forall₂ Spans (gatherChunksToProcess force log) stretches := laid.spans
  have chunks : log.chunks = stretches.flatten ++ rest := laid.chunks
  have covers : Covers 0 (stretches.flatten ++ rest) log.numLines := chunks ▸ sound.covers
  have selected : (gatherChunksToProcess force log).map (getChunksContent log) = stretches :=
    getChunksContent_eq spans (show log.chunks = [] ++ _ from chunks) rfl covers
  have byStretch : (∀ group ∈ gatherChunksToProcess force log, ∀ chunk ∈ (getChunksContent log group).dropLast,
      chunk.loneReturns compressors = 0) ↔
      ∀ stretch ∈ stretches, ∀ chunk ∈ stretch.dropLast, chunk.loneReturns compressors = 0 := by
    rw [← selected, List.forall_mem_map]
  rw [byStretch]
  constructor
  · intro preserved stretch member chunk inside
    obtain ⟨earlier, later, rfl⟩ := List.append_of_mem member
    -- the transaction that merges the stretch
    obtain ⟨merged, laidNow, -, merges⟩ := laid.transactions lawful (earlier.length + 1)
    have whole : earlier ++ stretch :: later = (earlier ++ [stretch]) ++ later := by simp
    rw [whole, List.take_left' (by simp)] at merges
    rw [whole, List.drop_left' (by simp)] at laidNow
    obtain ⟨others, final, mergesOthers, mergesFinal, rfl⟩ := exists_append merges
    obtain ⟨new, none, merge, isNil, rfl⟩ := List.forall₂_cons_right_iff.mp mergesFinal
    obtain rfl := List.forall₂_nil_right_iff.mp isNil
    have split : log.chunks = earlier.flatten ++ (stretch ++ (later.flatten ++ rest)) := by
      rw [chunks]
      simp
    have splitNow : (compressLog compressors configured force (earlier.length + 1) log).log.chunks =
        others ++ ([new] ++ (later.flatten ++ rest)) := by
      rw [← List.append_assoc]
      exact laidNow.chunks
    exact lone_of_preserved sound laidNow.sound split splitNow inside merge (preserved (earlier.length + 1)).2.2
  · intro none transactions
    obtain ⟨merged, laidNow, linesNow, merges⟩ := laid.transactions lawful transactions
    have soundNow : (compressLog compressors configured force transactions log).log.Sound compressors := laidNow.sound
    have sameLines : (compressLog compressors configured force transactions log).log.numLines = log.numLines := linesNow
    have chunksNow : (compressLog compressors configured force transactions log).log.chunks =
        merged ++ ((stretches.drop transactions).flatten ++ rest) := laidNow.chunks
    refine ⟨sameLines ▸ soundNow.covers, sameLines, fun first last => ?_⟩
    have split : log.chunks = (stretches.take transactions).flatten ++ ((stretches.drop transactions).flatten ++ rest) := by
      rw [← List.append_assoc, ← List.flatten_append, List.take_append_drop, chunks]
    obtain ⟨middle, coversDone, _⟩ := Covers.split (split ▸ sound.covers)
    have same : (remaining (some last) first merged).flatMap (Chunk.shows compressors first (some last)) = _ :=
      remaining_merged merges coversDone (fun chunk member => sound.sound chunk (split ▸ List.mem_append_left _ member))
      fun stretch member => none stretch (List.mem_of_mem_take member)
    rw [getLogLines_eq soundNow, getLogLines_eq sound, chunksNow, split, remaining_append, List.flatMap_append, same,
      ← List.flatMap_append, ← remaining_append]

section Instances

def twoChunks : Log := ⟨3, [rawChunk 0 1 "one\ntwo", rawChunk 2 2 "three"]⟩

theorem twoChunks_sound : twoChunks.Sound uncompressed := by
  refine ⟨by decide, fun chunk member => ?_⟩
  rcases List.mem_cons.mp member with rfl | member
  · exact rawChunk_sound (by decide)
  · obtain rfl := List.mem_singleton.mp member
    exact rawChunk_sound (by decide)

theorem twoChunks_preserved : Preserves uncompressed (some .raw) false twoChunks := by
  refine (compressLog_preserves_iff uncompressed uncompressed_lawful (some .raw) false twoChunks twoChunks_sound).mpr ?_
  intro group member chunk inside
  have groups : gatherChunksToProcess false twoChunks = [(0, 2)] := by decide
  obtain rfl : group = (0, 2) := List.mem_singleton.mp (groups ▸ member)
  have first : (getChunksContent twoChunks (0, 2)).dropLast = [rawChunk 0 1 "one\ntwo"] := by decide
  obtain rfl : chunk = rawChunk 0 1 "one\ntwo" := List.mem_singleton.mp (first ▸ inside)
  rw [Chunk.loneReturns, rawChunk_text]
  decide

def carriageReturn : Log := ⟨2, [rawChunk 0 0 "a\rb", rawChunk 1 1 "c"]⟩

/-- Three lines of the range become two when the chunks are merged. -/
theorem carriageReturn_not_preserved : ¬ Preserves uncompressed (some .raw) false carriageReturn := by
  intro preserved
  have same := (preserved 1).2.2 0 1
  have merged : (compressLog uncompressed (some .raw) false 1 carriageReturn).log = ⟨2, [rawChunk 0 1 "a\rb\nc"]⟩ := by decide
  have sound : carriageReturn.Sound uncompressed := by
    refine ⟨by decide, fun chunk member => ?_⟩
    rcases List.mem_cons.mp member with rfl | member
    · exact rawChunk_sound (by decide)
    · obtain rfl := List.mem_singleton.mp member
      exact rawChunk_sound (by decide)
  have soundNow : Log.Sound uncompressed ⟨2, [rawChunk 0 1 "a\rb\nc"]⟩ := by
    refine ⟨by decide, fun chunk member => ?_⟩
    obtain rfl := List.mem_singleton.mp member
    exact rawChunk_sound (by decide)
  have shown := count_getLogLines sound 0 1
  have shownNow := count_getLogLines soundNow 0 1
  have asked : remaining (some 1) 0 carriageReturn.chunks = [rawChunk 0 0 "a\rb", rawChunk 1 1 "c"] := by decide
  have askedNow : remaining (some 1) 0 [rawChunk 0 1 "a\rb\nc"] = [rawChunk 0 1 "a\rb\nc"] := by decide
  rw [merged] at same
  rw [same, shown, asked, askedNow] at shownNow
  simp only [List.map_cons, List.map_nil, Chunk.shows, rawChunk_text] at shownNow
  revert shownNow
  decide

end Instances

end Umbilical.Logs
