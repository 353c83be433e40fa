import Umbilical.Logs.Regrouping
import Umbilical.Shared.Interleaving

set_option autoImplicit false

/-!
# Reading a log while it is being compressed

The batch queries of a reader come between the transactions of `compressLog`. What
the reader has asked for up to now ends where a chunk ends, as long as no group is
put in the place of chunks on both sides of that line.
-/

namespace Umbilical.Logs

open Python Lines Interleaving

/-- A log with a `compressLog` under way and a reader of a range of its lines. -/
structure Streaming (compressors : Compressors) where
  compression : Compression compressors
  /-- `none` once it has raised. -/
  reader : Option Reader

inductive StreamEvent where
  | fetch
  | gather (configured : Option Method) (force : Bool)
  | replace

namespace Streaming

variable {compressors : Compressors} (first : Nat) (last : Option Nat)

def new (log : Log) : Streaming compressors where
  compression := .new log
  reader := some (.new first)

def step (state : Streaming compressors) : StreamEvent → Streaming compressors × List Unit
  | .fetch =>
      match state.reader with
      | none => (state, [])
      | some reader =>
          if reader.finished then (state, [])
          else ({ state with reader := reader.fetch compressors first last state.compression.log }, [])
  | .gather configured force => ({ state with compression := state.compression.gather configured force }, [])
  | .replace => ({ state with compression := state.compression.replace.1 }, [])

/-- No group comes to stand on both sides of the line from which the reader asks next. -/
def Apart (state : Streaming compressors) : StreamEvent → Prop
  | .replace =>
      match state.compression.groups, state.reader with
      | group :: _, some reader =>
          reader.finished = true ∨ reader.batchFirstLine = first ∨
            ¬ (group.1 < reader.batchFirstLine ∧ reader.batchFirstLine ≤ group.2)
      | _, _ => True
  | _ => True

/-- The reader has yielded lines of the range once and in order, and all of them when it has finished. -/
def StreamsOnce (lines : List Text) (state : Streaming compressors) : Prop :=
  ∃ reader, state.reader = some reader ∧ reader.lines <+: lines ∧ (reader.finished = true → reader.lines = lines)

end Streaming

variable {compressors : Compressors} {first : Nat} {last : Option Nat}

theorem readLines_textOf_append (before after : List Chunk) :
    readLines '\n' (textOf compressors (before ++ after)) =
      readLines '\n' (textOf compressors before) ++ readLines '\n' (textOf compressors after) := by
  induction before with
  | nil => rfl
  | cons chunk before ih => rw [List.cons_append, textOf_cons, textOf_cons, readLines_append, ih, ← List.append_assoc,
      ← readLines_append]

/-- Where the reader stands: at its start, between two chunks, or at its end. -/
inductive Progress (compressors : Compressors) (first : Nat) (last : Option Nat) (chunks : List Chunk) (reader : Reader) : Prop
  | fresh : reader.batchFirstLine = first → reader.lines = [] → reader.finished = false → Progress compressors first last chunks reader
  | between (before after : List Chunk) : chunks = before ++ after → Covers 0 before reader.batchFirstLine →
      reader.lines = Lines.between first last 0 (readLines '\n' (textOf compressors before)) → reader.finished = false →
      Progress compressors first last chunks reader
  | finished : reader.finished = true →
      reader.lines = Lines.between first last 0 (readLines '\n' (textOf compressors chunks)) →
      Progress compressors first last chunks reader

/-- Behind the chunks that have been asked for, those are asked for that the range begins with. -/
theorem remaining_after {before after : List Chunk} {cursor : Nat} (passed : ∀ chunk ∈ before, chunk.lastLine < cursor)
    (ahead : ∀ chunk ∈ after, cursor ≤ chunk.lastLine) :
    remaining last cursor (before ++ after) = after.filter fun chunk => last.all (chunk.firstLine ≤ ·) := by
  have none : remaining last cursor before = [] := by
    refine List.filter_eq_nil_iff.mpr fun chunk member => ?_
    have := passed chunk member
    simp only [Bool.and_eq_true, decide_eq_true_eq]
    omega
  rw [remaining, List.filter_append, ← remaining, ← remaining, none, List.nil_append, remaining]
  refine List.filter_congr fun chunk member => ?_
  simp [ahead chunk member]

theorem filter_starts (last : Option Nat) {start stop : Nat} {chunks : List Chunk} (covers : Covers start chunks stop) :
    ∃ asked others, chunks = asked ++ others ∧
      (chunks.filter fun chunk => last.all (chunk.firstLine ≤ ·)) = asked ∧
      ∀ middle, Covers start asked middle → others ≠ [] → ¬ last.all (middle ≤ ·) := by
  induction chunks generalizing start with
  | nil => exact ⟨[], [], rfl, rfl, fun _ _ filled => absurd rfl filled⟩
  | cons chunk chunks ih =>
    have inside := covers.within
    obtain ⟨starts, within, rest⟩ := covers
    by_cases early : last.all (chunk.firstLine ≤ ·)
    · obtain ⟨asked, others, split, filtered, later⟩ := ih rest
      refine ⟨chunk :: asked, others, by rw [split]; rfl, by rw [List.filter_cons, if_pos early, filtered], ?_⟩
      exact fun middle coversAsked filled => later middle coversAsked.2.2 filled
    · refine ⟨[], chunk :: chunks, rfl, List.filter_eq_nil_iff.mpr fun other member begins => ?_, ?_⟩
      · exact early (all_of_le (by have := inside other member; omega) begins)
      · intro middle coversNone _
        obtain rfl : start = middle := coversNone
        exact starts ▸ early

theorem Covers.unique {start stop stop' : Nat} {chunks : List Chunk} (covers : Covers start chunks stop)
    (again : Covers start chunks stop') : stop = stop' := by
  induction chunks generalizing start with
  | nil => exact (show start = stop from covers).symm.trans again
  | cons chunk chunks ih => exact ih covers.2.2 again.2.2

/-- The chunks before a line and those from it on. -/
theorem Covers.split_at {start stop line : Nat} {chunks : List Chunk} (covers : Covers start chunks stop)
    (reached : start ≤ line) :
    ∃ before after middle, chunks = before ++ after ∧ Covers start before middle ∧ Covers middle after stop ∧
      middle ≤ line ∧ ∀ chunk ∈ after, line ≤ chunk.lastLine := by
  induction chunks generalizing start with
  | nil => exact ⟨[], [], start, rfl, rfl, covers, reached, nofun⟩
  | cons chunk chunks ih =>
    have whole := covers
    obtain ⟨starts, within, rest⟩ := covers
    by_cases passed : chunk.lastLine < line
    · obtain ⟨before, after, middle, split, coversBefore, coversAfter, early, ahead⟩ := ih rest passed
      exact ⟨chunk :: before, after, middle, by rw [split]; rfl, ⟨starts, within, coversBefore⟩, coversAfter, early, ahead⟩
    · refine ⟨[], chunk :: chunks, start, rfl, rfl, whole, reached, fun other member => ?_⟩
      rcases List.mem_cons.mp member with rfl | member
      · omega
      · have := rest.within other member
        omega

/-- A batch goes on from where the reader stands. -/
theorem fetch_from {log : Log} (sound : log.Sound compressors) (none : '\r' ∉ textOf compressors log.chunks)
    {reader : Reader} {before after : List Chunk} {middle : Nat} (split : log.chunks = before ++ after)
    (coversBefore : Covers 0 before middle) (coversAfter : Covers middle after log.numLines)
    (passed : middle ≤ reader.batchFirstLine) (ahead : ∀ chunk ∈ after, reader.batchFirstLine ≤ chunk.lastLine)
    (lines : reader.lines = Lines.between first last 0 (readLines '\n' (textOf compressors before))) :
    ∃ fetched, reader.fetch compressors first last log = some fetched ∧
      Progress compressors first last log.chunks fetched := by
  obtain ⟨asked, others, parts, filtered, later⟩ := filter_starts last coversAfter
  have queried : remaining last reader.batchFirstLine log.chunks = asked := by
    rw [split, remaining_after (fun chunk member => ?_) ahead, filtered]
    have := coversBefore.within chunk member
    omega
  have length := length_lines coversBefore fun chunk member => sound.sound chunk (split ▸ List.mem_append_left _ member)
  rw [Nat.zero_add] at length
  rcases reader.fetch_eq first last sound.sound with ⟨empty, fetched⟩ | ⟨final, ends, fetched⟩
  · refine ⟨_, fetched, .finished rfl ?_⟩
    -- the lines from here on are not in the range
    obtain rfl : asked = [] := queried.symm.trans empty
    have beyond : Lines.between first last middle (readLines '\n' (textOf compressors after)) = [] := by
      by_cases left : others = []
      · rw [parts, left]
        rfl
      · exact between_after (later middle rfl left)
    rw [split, readLines_textOf_append, between_append, ← lines, length, Nat.zero_add, beyond, List.append_nil]
  · have member := List.mem_of_getLast? ends
    rw [queried] at ends member fetched
    have batch : after = asked.take Reader.CHUNK_BATCH_SIZE ++ (asked.drop Reader.CHUNK_BATCH_SIZE ++ others) := by
      rw [← List.append_assoc, List.take_append_drop, parts]
    have inside : ∀ chunk ∈ asked.take Reader.CHUNK_BATCH_SIZE, chunk ∈ log.chunks := fun chunk taken => by
      rw [split, batch]
      simp [taken]
    obtain ⟨next, coversBatch, coversRest⟩ := Covers.split (batch ▸ coversAfter)
    have stops : final.lastLine + 1 = next := by
      obtain ⟨others, last⟩ := List.getLast?_eq_some_iff.mp ends
      obtain ⟨_, _, ending⟩ := Covers.split (last ▸ coversBatch)
      exact ending.2.2
    have reached := ahead final (batch ▸ List.mem_append_left _ member)
    refine ⟨_, fetched, .between (before ++ asked.take Reader.CHUNK_BATCH_SIZE)
      (asked.drop Reader.CHUNK_BATCH_SIZE ++ others) ?_ ?_ ?_ rfl⟩
    · rw [split, batch, List.append_assoc]
    · rw [max_eq_right reached, stops]
      exact coversBefore.append coversBatch
    · have shown : _ = Lines.between first last middle _ := flatMap_shows coversBatch
        (fun chunk taken => sound.sound chunk (inside chunk taken))
        fun chunk taken => Log.Sound.carriage_not_mem none chunk (inside chunk taken)
      rw [shown, lines, readLines_textOf_append, between_append, length, Nat.zero_add]

/-- Wherever the reader stands, a batch takes it on. -/
theorem Progress.fetch {log : Log} (sound : log.Sound compressors) (none : '\r' ∉ textOf compressors log.chunks)
    {reader : Reader} (progress : Progress compressors first last log.chunks reader) (going : reader.finished = false) :
    ∃ fetched, reader.fetch compressors first last log = some fetched ∧
      Progress compressors first last log.chunks fetched := by
  cases progress with
  | fresh cursor lines _ =>
    obtain ⟨before, after, middle, split, coversBefore, coversAfter, early, ahead⟩ :=
      sound.covers.split_at (Nat.zero_le first)
    have length := length_lines coversBefore fun chunk member => sound.sound chunk (split ▸ List.mem_append_left _ member)
    refine fetch_from sound none split coversBefore coversAfter (cursor ▸ early) (cursor ▸ ahead) ?_
    rw [lines, between_before (by omega)]
  | between before after split coversBefore lines _ =>
    obtain ⟨middle, covers, coversAfter⟩ := Covers.split (split ▸ sound.covers)
    obtain rfl : middle = reader.batchFirstLine := covers.unique coversBefore
    exact fetch_from sound none split coversBefore coversAfter le_rfl
      (fun chunk member => by have := coversAfter.within chunk member; omega) lines
  | finished done => cases going.symm.trans done

/-- Of two cuts through the same chunks one comes first. -/
theorem exists_between {before after first second : List Chunk} {start stop : Nat}
    (same : before ++ after = first ++ second) (coversBefore : Covers 0 before start) (coversFirst : Covers 0 first stop)
    (le : start ≤ stop) : ∃ between, first = before ++ between ∧ after = between ++ second := by
  rcases List.append_eq_append_iff.mp same with ⟨between, split, rest⟩ | ⟨between, split, rest⟩
  · exact ⟨between, split, rest⟩
  · obtain ⟨middle, again, covers⟩ := Covers.split (split ▸ coversBefore)
    obtain rfl := again.unique coversFirst
    cases between with
    | nil => exact ⟨[], by simpa using split.symm, rest.symm⟩
    | cons chunk between =>
      have := covers.within chunk List.mem_cons_self
      omega

/-- A chunk in the place of a stretch on one side of the line from which the reader asks next. -/
theorem Progress.replace {before stretch after : List Chunk} {chunk : Chunk} {start stop lines : Nat}
    (coversBefore : Covers 0 before start) (coversStretch : Covers start stretch stop)
    (coversAfter : Covers stop after lines) (coversChunk : Covers start [chunk] stop)
    (text : textOf compressors [chunk] = textOf compressors stretch)
    (sound : ∀ other ∈ before ++ (stretch ++ after), other.Sound compressors) {reader : Reader}
    (progress : Progress compressors first last (before ++ (stretch ++ after)) reader)
    (apart : reader.finished = true ∨ reader.batchFirstLine = first ∨
      ¬ (start < reader.batchFirstLine ∧ reader.batchFirstLine < stop)) :
    Progress compressors first last (before ++ chunk :: after) reader := by
  have single : chunk :: after = [chunk] ++ after := rfl
  cases progress with
  | fresh cursor shown going => exact .fresh cursor shown going
  | finished done shown =>
    refine .finished done ?_
    rw [shown, single, textOf_append, textOf_append, textOf_append, textOf_append, text]
  | between passed ahead split coversPassed shown going =>
    rcases apart with done | cursor | apart
    · cases going.symm.trans done
    · -- up to the first line of the range there is nothing to yield
      have length := length_lines coversPassed fun other member => sound other (split ▸ List.mem_append_left _ member)
      exact .fresh cursor (by rw [shown, between_before (by omega)]) going
    · by_cases early : reader.batchFirstLine ≤ start
      · obtain ⟨between, rfl, rest⟩ := exists_between split.symm coversPassed coversBefore early
        exact .between passed (between ++ chunk :: after) (by simp) coversPassed shown going
      · have late : stop ≤ reader.batchFirstLine := by omega
        have regrouped : (before ++ stretch) ++ after = passed ++ ahead := by rw [← split, List.append_assoc]
        obtain ⟨between, rfl, rest⟩ := exists_between regrouped (coversBefore.append coversStretch) coversPassed late
        obtain ⟨middle, again, coversBetween⟩ := coversPassed.split
        obtain rfl := again.unique (coversBefore.append coversStretch)
        refine .between (before ++ chunk :: between) ahead (by rw [rest]; simp) ?_ ?_ going
        · exact coversBefore.append (coversChunk.append coversBetween)
        · rw [shown, show chunk :: between = [chunk] ++ between from rfl, textOf_append, textOf_append, textOf_append,
            textOf_append, text, List.append_assoc]

namespace Streaming

/-- What holds of a log with a reader and a `compressLog`, whatever comes next. -/
structure Streams (first : Nat) (last : Option Nat) (text : Text) (state : Streaming compressors) : Prop where
  laid : ∃ before stretches after, state.compression.Laid before stretches after
  text : textOf compressors state.compression.log.chunks = text
  reader : ∃ reader, state.reader = some reader ∧ Progress compressors first last state.compression.log.chunks reader

theorem new_streams {log : Log} (sound : log.Sound compressors) :
    (new first log : Streaming compressors).Streams first last (textOf compressors log.chunks) where
  laid := ⟨log.chunks, [], [], sound, by simp [new, Compression.new], .nil, .new⟩
  text := rfl
  reader := ⟨.new first, rfl, .fresh rfl rfl rfl⟩

theorem Streams.step (lawful : compressors.Lawful) {text : Text} (none : '\r' ∉ text) {state : Streaming compressors}
    (streams : state.Streams first last text) {event : StreamEvent} (apart : state.Apart first event) :
    (state.step first last event).1.Streams first last text := by
  obtain ⟨before, stretches, after, laid⟩ := streams.laid
  obtain ⟨reader, reads, progress⟩ := streams.reader
  cases event with
  | fetch =>
    unfold Streaming.step
    rw [reads]
    simp only
    split_ifs with finished
    · exact streams
    · have none : '\r' ∉ textOf compressors state.compression.log.chunks := streams.text ▸ none
      obtain ⟨fetched, result, later⟩ := progress.fetch laid.sound none (by simpa using finished)
      exact ⟨⟨before, stretches, after, laid⟩, streams.text, fetched, result, later⟩
  | gather configured force =>
    obtain ⟨parts, same⟩ := laid.gather configured force
    exact ⟨parts, same.symm ▸ streams.text, reader, reads, same.symm ▸ progress⟩
  | replace =>
    cases stretches with
    | nil =>
      have idle : (state.step first last .replace).1 = state := by
        unfold Streaming.step
        rw [laid.replace_nil]
      exact idle.symm ▸ streams
    | cons stretch stretches =>
      obtain ⟨group, groups, spans, _, ahead⟩ := List.forall₂_cons_right_iff.mp laid.spans
      have chunks : state.compression.log.chunks = before ++ (stretch ++ (stretches.flatten ++ after)) := by
        rw [laid.chunks, List.flatten_cons, List.append_assoc]
      obtain ⟨chunk, start, stop, chunksNow, -, coversBefore, coversStretch, coversChunk, coversAfter, merges, laidNow⟩ :=
        laid.replace lawful
      have single : textOf compressors [chunk] = textOf compressors stretch := by
        rw [← merges.text]
        simp [textOf]
      have sides : reader.finished = true ∨ reader.batchFirstLine = first ∨
          ¬ (start < reader.batchFirstLine ∧ reader.batchFirstLine < stop) := by
        obtain ⟨starts, stops⟩ := spans.covers coversStretch
        unfold Apart at apart
        rw [ahead, reads] at apart
        exact apart.imp_right (Or.imp_right fun apart both => apart (by omega))
      refine ⟨⟨_, _, _, laidNow⟩, ?_, reader, reads, ?_⟩
      · have parts : chunk :: (stretches.flatten ++ after) = [chunk] ++ (stretches.flatten ++ after) := rfl
        rw [← streams.text, chunks]
        change textOf compressors state.compression.replace.1.log.chunks = _
        rw [chunksNow, parts]
        simp only [textOf_append, single]
      · change Progress compressors first last state.compression.replace.1.log.chunks reader
        rw [chunksNow]
        exact Progress.replace coversBefore coversStretch coversAfter coversChunk single
          (chunks ▸ laid.sound.sound) (chunks ▸ progress) sides

theorem Streams.streamsOnce {text : Text} {state : Streaming compressors} (streams : state.Streams first last text) :
    state.StreamsOnce (Lines.between first last 0 (readLines '\n' text)) := by
  obtain ⟨reader, reads, progress⟩ := streams.reader
  refine ⟨reader, reads, ?_, fun done => ?_⟩
  · cases progress with
    | fresh _ lines _ =>
      rw [lines]
      exact List.nil_prefix
    | between before after split _ lines _ =>
      rw [lines, ← streams.text, split, readLines_textOf_append, between_append]
      exact List.prefix_append _ _
    | finished _ lines => exact lines.trans (by rw [streams.text]) ▸ List.prefix_rfl
  · cases progress with
    | fresh _ _ going => cases going.symm.trans done
    | between _ _ _ _ _ going => cases going.symm.trans done
    | finished _ lines => rw [lines, streams.text]

/-- Every line of the range is yielded once and in order, as long as no group is put across the line from which the
reader asks next and the log has no carriage return. -/
theorem run_streamsOnce (compressors : Compressors) (lawful : compressors.Lawful) (log : Log) (sound : log.Sound compressors)
    (none : '\r' ∉ textOf compressors log.chunks) (first : Nat) (last : Option Nat) (events : List StreamEvent)
    (apart : Always (step first last) (Apart first) (new first log : Streaming compressors) events) :
    (final (step first last) (new first log : Streaming compressors) events).StreamsOnce
      (Lines.between first last 0 (log.lines compressors)) := by
  have kept : Streams first last (textOf compressors log.chunks) (final (step first last) (new first log) events) ∧
      ∀ observed ∈ seen (step first last) (new first log : Streaming compressors) events, True :=
    final_of_always (fun _ _ streams fine => ⟨streams.step lawful none fine, fun _ _ => trivial⟩) (new_streams sound) apart
  exact kept.1.streamsOnce

section Instances

def twoLines : Log := ⟨2, [rawChunk 0 0 "one", rawChunk 1 1 "two"]⟩

theorem twoLines_sound : twoLines.Sound uncompressed := by
  refine ⟨by decide, fun chunk member => ?_⟩
  rcases List.mem_cons.mp member with rfl | member
  · exact rawChunk_sound (by decide)
  · obtain rfl := List.mem_singleton.mp member
    exact rawChunk_sound (by decide)

theorem twoLines_text : textOf uncompressed twoLines.chunks = "one\ntwo\n".toList := by
  simp only [textOf, twoLines, List.flatMap_cons, List.flatMap_nil, rawChunk_text]
  decide

def together : Log := ⟨2, [rawChunk 0 1 "one\ntwo"]⟩

theorem together_sound : together.Sound uncompressed := by
  refine ⟨by decide, fun chunk member => ?_⟩
  obtain rfl := List.mem_singleton.mp member
  exact rawChunk_sound (by decide)

/-- A batch of one chunk, which holds the only line of the range. -/
theorem fetch_single {log : Log} (sound : log.Sound uncompressed) {chunk : Chunk} {lines : List Text} {cursor : Nat}
    (asked : remaining (some 0) cursor log.chunks = [chunk])
    (shows : chunk.shows uncompressed 0 (some 0) = ["one\n".toList]) :
    Reader.fetch uncompressed 0 (some 0) log ⟨cursor, lines, false⟩ =
      some ⟨max cursor chunk.lastLine + 1, lines ++ ["one\n".toList], false⟩ := by
  rcases Reader.fetch_eq 0 (some 0) sound.sound ⟨cursor, lines, false⟩ with ⟨empty, _⟩ | ⟨final, ends, fetched⟩
  · simp [asked] at empty
  · simp only [asked, Reader.CHUNK_BATCH_SIZE, List.take_succ_cons, List.take_nil] at ends fetched
    obtain rfl : chunk = final := by simpa using ends
    simpa [shows] using fetched

theorem twoLines_fetch : Reader.fetch uncompressed 0 (some 0) twoLines (.new 0) = some ⟨1, ["one\n".toList], false⟩ :=
  fetch_single twoLines_sound (show _ = [rawChunk 0 0 "one"] by decide) (by rw [Chunk.shows, rawChunk_text]; decide)

theorem together_fetch : Reader.fetch uncompressed 0 (some 0) together ⟨1, ["one\n".toList], false⟩ =
    some ⟨2, ["one\n".toList, "one\n".toList], false⟩ :=
  fetch_single together_sound (show _ = [rawChunk 0 1 "one\ntwo"] by decide) (by rw [Chunk.shows, rawChunk_text]; decide)

theorem twoLines_lines : Lines.between 0 (some 0) 0 (twoLines.lines uncompressed) = ["one\n".toList] := by
  rw [Log.lines, twoLines_text]
  decide

/-- The group is put together before the reader asks for anything. -/
theorem twoLines_streamsOnce :
    (final (step 0 (some 0)) (new 0 twoLines : Streaming uncompressed) [.gather none false, .replace, .fetch]).StreamsOnce
      (Lines.between 0 (some 0) 0 (twoLines.lines uncompressed)) :=
  run_streamsOnce uncompressed uncompressed_lawful twoLines twoLines_sound (by rw [twoLines_text]; decide) 0 (some 0)
    [.gather none false, .replace, .fetch] ⟨trivial, .inr (.inl rfl), trivial, trivial⟩

/-- The only line of the range is yielded again when its chunk has been put together with the next one. -/
theorem twoLines_not_streamsOnce :
    ¬ (final (step 0 (some 0)) (new 0 twoLines : Streaming uncompressed)
      [.fetch, .gather none false, .replace, .fetch]).StreamsOnce
      (Lines.between 0 (some 0) 0 (twoLines.lines uncompressed)) := by
  have reader : (final (step 0 (some 0)) (new 0 twoLines : Streaming uncompressed)
      [.fetch, .gather none false, .replace, .fetch]).reader = some ⟨2, ["one\n".toList, "one\n".toList], false⟩ := by
    have fetched : (step 0 (some 0) (new 0 twoLines : Streaming uncompressed) .fetch).1 =
        ⟨.new twoLines, some ⟨1, ["one\n".toList], false⟩⟩ := by
      rw [← twoLines_fetch]
      rfl
    have merged : ((Compression.new twoLines : Compression uncompressed).gather none false).replace.1.log = together := rfl
    rw [final, fetched, ← together_fetch, ← merged]
    rfl
  rintro ⟨reader', reads, yielded, _⟩
  obtain rfl := Option.some.inj (reader.symm.trans reads)
  rw [twoLines_lines] at yielded
  have := yielded.length_le
  simp at this

end Instances

end Streaming

end Umbilical.Logs
