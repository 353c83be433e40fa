import Umbilical.Logs.Compressing

set_option autoImplicit false

/-!
# What compressing does to the chunks

The groups are stretches of the chunks, and each transaction puts one chunk with
the same lines in the place of such a stretch.
-/

namespace Umbilical.Logs

open Python Lines

variable {compressors : Compressors}

/-- The first and the last line of a stretch of chunks. -/
def Spans (group : Nat × Nat) (chunks : List Chunk) : Prop :=
  chunks.head?.map Chunk.firstLine = some group.1 ∧ chunks.getLast?.map Chunk.lastLine = some group.2

theorem Spans.filled {group : Nat × Nat} {chunks : List Chunk} (spans : Spans group chunks) : chunks ≠ [] := by
  rintro rfl
  cases spans.1

theorem groupChunks_spans {group : Nat × Nat} {current : List Chunk} (spans : Spans group current) (size : Nat)
    (chunks : List Chunk) :
    ∃ stretches, List.Forall₂ Spans (groupChunks group.1 group.2 size chunks) stretches ∧
      stretches.flatten = current ++ chunks := by
  induction chunks generalizing group current size with
  | nil => exact ⟨[current], .cons spans .nil, by simp⟩
  | cons chunk chunks ih =>
    unfold groupChunks
    split_ifs with merges
    · -- the chunk goes to the group that there is
      have longer : Spans (group.1, chunk.lastLine) (current ++ [chunk]) := by
        refine ⟨?_, by simp⟩
        rw [List.head?_append_of_ne_nil _ spans.filled]
        exact spans.1
      obtain ⟨stretches, spanned, together⟩ := ih longer (size + chunk.content.length)
      exact ⟨stretches, spanned, by rw [together]; simp⟩
    · have single : Spans (chunk.firstLine, chunk.lastLine) [chunk] := ⟨rfl, rfl⟩
      obtain ⟨stretches, spanned, together⟩ := ih single chunk.content.length
      exact ⟨current :: stretches, .cons spans spanned, by rw [List.flatten_cons, together]; simp⟩

/-- The groups are stretches that make up the log, if there is anything to do. -/
theorem gatherChunksToProcess_spans (force : Bool) (log : Log) :
    ∃ stretches rest, List.Forall₂ Spans (gatherChunksToProcess force log) stretches ∧
      stretches.flatten ++ rest = log.chunks := by
  unfold gatherChunksToProcess
  cases chunks : log.chunks with
  | nil => exact ⟨[], [], .nil, rfl⟩
  | cons chunk others =>
    simp only
    split_ifs
    · exact ⟨[], _, .nil, rfl⟩
    · have single : Spans (chunk.firstLine, chunk.lastLine) [chunk] := ⟨rfl, rfl⟩
      obtain ⟨stretches, spanned, together⟩ := groupChunks_spans single chunk.content.length others
      exact ⟨stretches, [], spanned, by rw [together]; simp⟩

/-- The bounds of a group are those of the lines that it covers. -/
theorem Spans.covers {group : Nat × Nat} {chunks : List Chunk} (spans : Spans group chunks) {start stop : Nat}
    (covers : Covers start chunks stop) : group.1 = start ∧ group.2 + 1 = stop := by
  constructor
  · cases chunks with
    | nil => cases spans.1
    | cons chunk chunks => exact (Option.some.inj spans.1).symm.trans covers.1
  · obtain ⟨before, last, rfl⟩ : ∃ before last, chunks = before ++ [last] :=
      ⟨_, _, (List.dropLast_append_getLast spans.filled).symm⟩
    obtain ⟨middle, _, ends⟩ := covers.split
    have bound := spans.2
    simp only [List.getLast?_concat, Option.map_some, Option.some.injEq] at bound
    exact bound ▸ ends.2.2

section Stretch

variable {before stretch after : List Chunk} {start stop lines : Nat} {group : Nat × Nat}

/-- A group selects its stretch and nothing else. -/
theorem filter_inGroup (coversBefore : Covers 0 before start) (coversStretch : Covers start stretch stop)
    (coversAfter : Covers stop after lines) (spans : Spans group stretch) :
    (before ++ (stretch ++ after)).filter (inGroup group) = stretch ∧
      (before ++ (stretch ++ after)).filter (fun chunk => !inGroup group chunk) = before ++ after := by
  obtain ⟨first, last⟩ := spans.covers coversStretch
  have outsideBefore : ∀ chunk ∈ before, inGroup group chunk = false := fun chunk member => by
    have := coversBefore.within chunk member
    simp only [inGroup, Bool.and_eq_false_iff, decide_eq_false_iff_not]
    omega
  have inside : ∀ chunk ∈ stretch, inGroup group chunk = true := fun chunk member => by
    have := coversStretch.within chunk member
    simp only [inGroup, Bool.and_eq_true, decide_eq_true_eq]
    omega
  have outsideAfter : ∀ chunk ∈ after, inGroup group chunk = false := fun chunk member => by
    have := coversAfter.within chunk member
    simp only [inGroup, Bool.and_eq_false_iff, decide_eq_false_iff_not]
    omega
  constructor
  · rw [List.filter_append, List.filter_append, List.filter_eq_nil_iff.mpr (by simpa using outsideBefore),
      List.filter_eq_self.mpr inside, List.filter_eq_nil_iff.mpr (by simpa using outsideAfter)]
    simp
  · rw [List.filter_append, List.filter_append, List.filter_eq_self.mpr (by simpa using outsideBefore),
      List.filter_eq_nil_iff.mpr (by simpa using inside), List.filter_eq_self.mpr (by simpa using outsideAfter)]
    simp

theorem orderedInsert_between {chunk : Chunk} (earlier : ∀ other ∈ before, other.firstLine < chunk.firstLine)
    (later : ∀ other ∈ after, chunk.firstLine ≤ other.firstLine) :
    (before ++ after).orderedInsert (fun left right => left.firstLine ≤ right.firstLine) chunk =
      before ++ chunk :: after := by
  induction before with
  | nil =>
    cases after with
    | nil => rfl
    | cons head tail => exact List.orderedInsert_cons_of_le _ _ (later head List.mem_cons_self)
  | cons head tail ih =>
    have first := earlier head List.mem_cons_self
    rw [List.cons_append, List.orderedInsert, if_neg (by omega),
      ih fun other member => earlier other (List.mem_cons_of_mem _ member)]
    rfl

/-- A chunk in the place of a stretch. -/
structure Merges (compressors : Compressors) (chunk : Chunk) (stretch : List Chunk) : Prop where
  spans : Spans (chunk.firstLine, chunk.lastLine) stretch
  sound : chunk.Sound compressors
  text : chunk.text compressors ++ ['\n'] = textOf compressors stretch

/-- Between the contents of the chunks the line ends come back. -/
theorem exists_joined {chunks : List Chunk} (filled : chunks ≠ []) :
    ∃ text, text ++ ['\n'] = textOf compressors chunks ∧
      ((chunks.map fun chunk => utf8 (chunk.text compressors)).intersperse [10]).flatten = utf8 text := by
  induction chunks with
  | nil => exact absurd rfl filled
  | cons chunk chunks ih =>
    cases chunks with
    | nil => exact ⟨chunk.text compressors, by simp [textOf], by simp⟩
    | cons next chunks =>
      obtain ⟨text, joined, bytes⟩ := ih (List.cons_ne_nil next chunks)
      refine ⟨chunk.text compressors ++ '\n' :: text, ?_, ?_⟩
      · rw [textOf_cons, ← joined]
        simp
      · have split : utf8 (chunk.text compressors ++ '\n' :: text) =
            utf8 (chunk.text compressors) ++ ([10] ++ utf8 text) := by
          rw [← utf8_newline, ← utf8_append, ← utf8_append]
          rfl
        rw [split, ← bytes]
        rfl

variable {method : Method}

theorem recompressChunks_ok (lawful : compressors.Lawful) {obj : (compressors.byId method).CompressObj}
    (reusable : (compressors.byId method).Reusable obj) (filled : stretch ≠ [])
    (sound : ∀ chunk ∈ stretch, chunk.Sound compressors) :
    ∃ content saved obj' text, recompressChunks compressors method obj stretch = some (content, saved, obj') ∧
      (compressors.byId method).Reusable obj' ∧ compressors.read method content = some (utf8 text) ∧
      text ++ ['\n'] = textOf compressors stretch := by
  obtain ⟨text, joined, bytes⟩ := @exists_joined compressors _ filled
  have contents : (stretch.mapM fun chunk => compressors.read chunk.compressed chunk.content) =
      some (stretch.map fun chunk => utf8 (chunk.text compressors)) :=
    mapM_eq_map fun chunk member => (sound chunk member).readable
  have readable := lawful.read_compressAll method reusable
    ((stretch.map fun chunk => utf8 (chunk.text compressors)).intersperse [10])
  have again := Compressor.Reusable.flushed ((stretch.map fun chunk => utf8 (chunk.text compressors)).intersperse [10])
    reusable
  rw [bytes] at readable
  unfold recompressChunks
  rw [contents]
  exact ⟨_, _, _, text, rfl, again, readable, joined⟩

/-- One transaction puts a chunk in the place of its stretch and leaves all others alone. -/
theorem groupedChunk_ok (lawful : compressors.Lawful) {obj : (compressors.byId method).CompressObj}
    (reusable : (compressors.byId method).Reusable obj) {log : Log} (chunks : log.chunks = before ++ (stretch ++ after))
    (coversBefore : Covers 0 before start) (coversStretch : Covers start stretch stop)
    (coversAfter : Covers stop after lines) (spans : Spans group stretch)
    (sound : ∀ chunk ∈ stretch, chunk.Sound compressors) :
    ∃ chunk saved obj', groupedChunk compressors method log obj group = some (chunk, saved, obj') ∧
      (compressors.byId method).Reusable obj' ∧
      (replaceChunksByNewGroupedChunk log chunk).chunks = before ++ chunk :: after ∧
      Covers start [chunk] stop ∧ Merges compressors chunk stretch := by
  obtain ⟨selected, others⟩ := filter_inGroup coversBefore coversStretch coversAfter spans
  obtain ⟨first, last⟩ := spans.covers coversStretch
  obtain ⟨content, saved, obj', text, recompressed, again, readable, joined⟩ :=
    recompressChunks_ok lawful reusable spans.filled sound
  have counted : start + (text.count '\n' + 1) = stop := by
    have whole := length_lines coversStretch sound
    rwa [← joined, length_readLines] at whole
  let chunk : Chunk := ⟨group.1, group.2, content, method⟩
  refine ⟨chunk, saved, obj', ?_, again, ?_, ?_, ?_⟩
  · have query : getChunksContent log group = stretch := by rw [getChunksContent, chunks, selected]
    rw [groupedChunk, query, recompressed]
    rfl
  · unfold replaceChunksByNewGroupedChunk Log.insert
    simp only [chunks]
    rw [show (chunk.firstLine, chunk.lastLine) = group from rfl, others]
    refine orderedInsert_between (fun other member => ?_) fun other member => ?_
    · have := coversBefore.within other member
      change other.firstLine < group.1
      omega
    · have := coversAfter.within other member
      change group.1 ≤ other.firstLine
      omega
  · exact ⟨first, show group.1 ≤ group.2 by omega, last⟩
  · refine ⟨spans, Chunk.sound_of_read readable ?_, ?_⟩
    · change group.2 = group.1 + text.count '\n'
      omega
    · rw [@Chunk.text_eq compressors chunk text readable, joined]

end Stretch

namespace Compression

/-- A sound log whose groups are stretches of it. -/
structure Laid (state : Compression compressors) (before : List Chunk) (stretches : List (List Chunk)) (after : List Chunk) :
    Prop where
  sound : state.log.Sound compressors
  chunks : state.log.chunks = before ++ (stretches.flatten ++ after)
  spans : List.Forall₂ Spans state.groups stretches
  reusable : (compressors.byId state.method).Reusable state.obj

variable {state : Compression compressors} {before after : List Chunk} {stretches : List (List Chunk)}

theorem exists_laid_gather {log : Log} (sound : log.Sound compressors) (configured : Option Method) (force : Bool) :
    ∃ stretches after, ((new log : Compression compressors).gather configured force).Laid [] stretches after := by
  obtain ⟨stretches, rest, spans, chunks⟩ := gatherChunksToProcess_spans force log
  exact ⟨stretches, rest, sound, chunks.symm, spans, .new⟩

theorem Laid.gather (laid : state.Laid before stretches after) (configured : Option Method) (force : Bool) :
    (∃ before stretches after, (state.gather configured force).Laid before stretches after) ∧
      (state.gather configured force).log = state.log := by
  unfold Compression.gather
  cases groups : state.groups with
  | cons group groups => exact ⟨⟨before, stretches, after, laid⟩, rfl⟩
  | nil =>
    obtain ⟨parts, rest, spans, chunks⟩ := gatherChunksToProcess_spans force state.log
    exact ⟨⟨[], parts, rest, laid.sound, chunks.symm, spans, .new⟩, rfl⟩

theorem Laid.replace_nil (laid : state.Laid before [] after) : state.replace = (state, []) := by
  have none : state.groups = [] := List.forall₂_nil_right_iff.mp laid.spans
  rw [Compression.replace, none]

/-- A transaction puts a chunk in the place of the first of the stretches. -/
theorem Laid.replace (lawful : compressors.Lawful) {stretch : List Chunk}
    (laid : state.Laid before (stretch :: stretches) after) :
    ∃ chunk start stop, state.replace.1.log.chunks = before ++ chunk :: (stretches.flatten ++ after) ∧
      state.replace.1.log.numLines = state.log.numLines ∧ Covers 0 before start ∧ Covers start stretch stop ∧
      Covers start [chunk] stop ∧ Covers stop (stretches.flatten ++ after) state.log.numLines ∧
      Merges compressors chunk stretch ∧ state.replace.1.Laid (before ++ [chunk]) stretches after := by
  have chunks := laid.chunks
  rw [List.flatten_cons, List.append_assoc] at chunks
  obtain ⟨start, coversBefore, coversRest⟩ := Covers.split (chunks ▸ laid.sound.covers)
  obtain ⟨stop, coversStretch, coversAfter⟩ := coversRest.split
  obtain ⟨group, groups, spanned, rest, ahead⟩ := List.forall₂_cons_right_iff.mp laid.spans
  have soundAll : ∀ chunk ∈ before ++ (stretch ++ (stretches.flatten ++ after)), chunk.Sound compressors :=
    chunks ▸ laid.sound.sound
  obtain ⟨chunk, saved, obj, result, again, chunksNow, coversChunk, merges⟩ :=
    groupedChunk_ok lawful laid.reusable chunks coversBefore coversStretch coversAfter spanned
      fun other member => soundAll other (by simp [member])
  rw [Compression.replace_eq ahead result]
  refine ⟨chunk, start, stop, chunksNow, rfl, coversBefore, coversStretch, coversChunk, coversAfter, merges,
    ⟨?_, fun other member => ?_⟩, by simp [chunksNow], rest, again⟩
  · simp only [chunksNow]
    exact coversBefore.append (coversChunk.append coversAfter)
  · simp only [chunksNow] at member
    rcases List.mem_append.mp member with old | member
    · exact soundAll other (List.mem_append_left _ old)
    · rcases List.mem_cons.mp member with rfl | old
      · exact merges.sound
      · exact soundAll other (List.mem_append_right _ (List.mem_append_right _ old))

/-- Each group that has had its transaction has its chunk, and the rest of the log is what it was. -/
theorem Laid.transactions (lawful : compressors.Lawful) (laid : state.Laid before stretches after) (n : Nat) :
    ∃ merged, (state.transactions n).Laid (before ++ merged) (stretches.drop n) after ∧
      (state.transactions n).log.numLines = state.log.numLines ∧
      List.Forall₂ (Merges compressors) merged (stretches.take n) := by
  induction n generalizing state before stretches with
  | zero => exact ⟨[], (List.append_nil before).symm ▸ laid, rfl, .nil⟩
  | succ n ih =>
    cases stretches with
    | nil =>
      rw [Compression.transactions, laid.replace_nil]
      simpa using ih laid
    | cons stretch stretches =>
      obtain ⟨chunk, _, _, _, lines, _, _, _, _, merges, laidNow⟩ := laid.replace lawful
      obtain ⟨merged, laidLater, linesLater, mergesLater⟩ := ih laidNow
      refine ⟨chunk :: merged, ?_, linesLater.trans lines, .cons merges mergesLater⟩
      rwa [List.append_assoc] at laidLater

end Compression

end Umbilical.Logs
