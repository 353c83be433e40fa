import Umbilical.Logs.Chunks

set_option autoImplicit false

/-!
# Reading a log

What the batch queries and the line counting of the reader come to on a log whose
chunks hold the lines that they say.
-/

namespace Umbilical.Logs

open Python Lines

variable (compressors : Compressors)

/-- The lines of a chunk, without the last line end. -/
def Chunk.text (chunk : Chunk) : Text := ((compressors.read chunk.compressed chunk.content).bind decodeUtf8).getD []

/-- A chunk that can be read, and holds as many lines as it says. -/
structure Chunk.Sound (chunk : Chunk) : Prop where
  readable : compressors.read chunk.compressed chunk.content = some (utf8 (chunk.text compressors))
  lines : chunk.lastLine = chunk.firstLine + (chunk.text compressors).count '\n'

structure Log.Sound (log : Log) : Prop where
  covers : Covers 0 log.chunks log.numLines
  sound : ∀ chunk ∈ log.chunks, chunk.Sound compressors

def textOf (chunks : List Chunk) : Text := chunks.flatMap fun chunk => chunk.text compressors ++ ['\n']

/-- The lines of a log, as they were written. -/
def Log.lines (log : Log) : List Text := readLines '\n' (textOf compressors log.chunks)

variable {compressors}

theorem Chunk.text_eq {chunk : Chunk} {text : Text}
    (readable : compressors.read chunk.compressed chunk.content = some (utf8 text)) : chunk.text compressors = text := by
  simp [Chunk.text, readable]

theorem Chunk.sound_of_read {chunk : Chunk} {text : Text}
    (readable : compressors.read chunk.compressed chunk.content = some (utf8 text))
    (lines : chunk.lastLine = chunk.firstLine + text.count '\n') : chunk.Sound compressors := by
  have same := Chunk.text_eq readable
  exact ⟨same ▸ readable, same ▸ lines⟩

theorem Covers.append {start middle stop : Nat} {before after : List Chunk} (first : Covers start before middle)
    (second : Covers middle after stop) : Covers start (before ++ after) stop := by
  induction before generalizing start with
  | nil => exact (show start = middle from first) ▸ second
  | cons chunk before ih => exact ⟨first.1, first.2.1, ih first.2.2⟩

theorem Covers.split {start stop : Nat} {before after : List Chunk} (covers : Covers start (before ++ after) stop) :
    ∃ middle, Covers start before middle ∧ Covers middle after stop := by
  induction before generalizing start with
  | nil => exact ⟨start, rfl, covers⟩
  | cons chunk before ih =>
    obtain ⟨middle, first, second⟩ := ih covers.2.2
    exact ⟨middle, ⟨covers.1, covers.2.1, first⟩, second⟩

theorem Covers.le {start stop : Nat} {chunks : List Chunk} (covers : Covers start chunks stop) : start ≤ stop := by
  induction chunks generalizing start with
  | nil => exact le_of_eq covers
  | cons chunk chunks ih =>
    have later := ih covers.2.2
    have := covers.1
    have := covers.2.1
    omega

theorem Covers.within {start stop : Nat} {chunks : List Chunk} (covers : Covers start chunks stop) :
    ∀ chunk ∈ chunks, start ≤ chunk.firstLine ∧ chunk.firstLine ≤ chunk.lastLine ∧ chunk.lastLine < stop := by
  induction chunks generalizing start with
  | nil => nofun
  | cons chunk chunks ih =>
    obtain ⟨starts, filled, rest⟩ := covers
    intro other member
    rcases List.mem_cons.mp member with rfl | member
    · exact ⟨le_of_eq starts.symm, filled, rest.le⟩
    · have := ih rest other member
      omega

/-- Each chunk comes after those before it. -/
theorem Covers.increasing {start stop : Nat} {chunks : List Chunk} (covers : Covers start chunks stop) :
    chunks.Pairwise fun earlier later => earlier.lastLine < later.firstLine := by
  induction chunks generalizing start with
  | nil => exact .nil
  | cons chunk chunks ih =>
    obtain ⟨_, _, rest⟩ := covers
    exact List.pairwise_cons.mpr ⟨fun later member => (rest.within later member).1, ih rest⟩

/-- The two loops over the lines of a chunk count off the lines of the range. -/
theorem yieldLines_skipLines (first : Nat) (last : Option Nat) (n : Nat) (lines : List Text) :
    yieldLines last (skipLines first n lines).1 (skipLines first n lines).2 = between first last n lines := by
  induction lines generalizing n with
  | nil => rfl
  | cons line lines ih =>
    by_cases early : n < first
    · rw [skipLines, if_pos early, ih, between, if_neg (by omega)]
    · have rest : yieldLines last (n + 1) lines = between first last (n + 1) lines := by
        have skipped : skipLines first (n + 1) lines = (n + 1, lines) := by
          cases lines with
          | nil => rfl
          | cons next lines => rw [skipLines, if_neg (by omega)]
        have later := ih (n + 1)
        rwa [skipped] at later
      rw [skipLines, if_neg early]
      by_cases within : last.all (n ≤ ·)
      · rw [yieldLines, if_pos within, rest, between, if_pos ⟨by omega, within⟩]
      · rw [yieldLines, if_neg within, between_after within]

theorem all_of_le {last : Option Nat} {n m : Nat} (le : n ≤ m) (all : last.all (m ≤ ·)) : last.all (n ≤ ·) := by
  cases last with
  | none => rfl
  | some last =>
    simp only [Option.all_some, decide_eq_true_eq] at all ⊢
    omega

section Range

variable (compressors) (first : Nat) (last : Option Nat)

/-- What a reader of a range shows of a chunk. -/
def Chunk.shows (chunk : Chunk) : List Text :=
  between first last chunk.firstLine (shown '\n' '\r' (chunk.text compressors))

/-- The chunks of a range that a reader has still to ask for. -/
def remaining (cursor : Nat) (chunks : List Chunk) : List Chunk :=
  chunks.filter fun chunk => last.all (chunk.firstLine ≤ ·) && cursor ≤ chunk.lastLine

variable {compressors first last}

theorem Chunk.Sound.iterUncompressLines {chunk : Chunk} (sound : chunk.Sound compressors) :
    iterUncompressLines compressors first last chunk = some (chunk.shows compressors first last) := by
  unfold Logs.iterUncompressLines
  rw [sound.readable]
  simp only [Option.bind_eq_bind, Option.bind_some, Option.pure_def, ← utf8_append, decodeUtf8_utf8]
  rw [yieldLines_skipLines]
  rfl

/-- With the chunks of a batch everything up to its last one has been asked for. -/
theorem remaining_drop {chunks : List Chunk}
    (increasing : chunks.Pairwise fun earlier later => earlier.lastLine < later.lastLine) {cursor batch : Nat}
    {final : Chunk} (ends : ((remaining last cursor chunks).take batch).getLast? = some final) :
    remaining last (max cursor final.lastLine + 1) chunks = (remaining last cursor chunks).drop batch := by
  have later : cursor ≤ final.lastLine := by
    have member := List.mem_of_mem_take (List.mem_of_getLast? ends)
    have selected := (List.mem_filter.mp member).2
    simp only [Bool.and_eq_true, decide_eq_true_eq] at selected
    exact selected.2
  rw [max_eq_right later]
  -- asking from there on keeps of what was to be asked for what comes after
  have narrower : remaining last (final.lastLine + 1) chunks =
      (remaining last cursor chunks).filter fun chunk => decide (final.lastLine + 1 ≤ chunk.lastLine) := by
    unfold remaining
    rw [List.filter_filter]
    refine List.filter_congr fun chunk _ => ?_
    by_cases beyond : final.lastLine + 1 ≤ chunk.lastLine
    · simp [beyond, show cursor ≤ chunk.lastLine by omega]
    · simp [beyond]
  have sorted : ((remaining last cursor chunks).take batch ++ (remaining last cursor chunks).drop batch).Pairwise
      fun earlier later => earlier.lastLine < later.lastLine := by
    rw [List.take_append_drop]
    exact increasing.filter _
  obtain ⟨inside, _, apart⟩ := List.pairwise_append.mp sorted
  have none : ((remaining last cursor chunks).take batch).filter
      (fun chunk => decide (final.lastLine + 1 ≤ chunk.lastLine)) = [] := by
    refine List.filter_eq_nil_iff.mpr fun chunk member beyond => ?_
    obtain ⟨start, split⟩ := List.getLast?_eq_some_iff.mp ends
    rw [split] at member inside
    rcases List.mem_append.mp member with earlier | same
    · have := (List.pairwise_append.mp inside).2.2 chunk earlier final List.mem_cons_self
      simp only [decide_eq_true_eq] at beyond
      omega
    · obtain rfl := List.mem_singleton.mp same
      simp at beyond
  have all : ((remaining last cursor chunks).drop batch).filter
      (fun chunk => decide (final.lastLine + 1 ≤ chunk.lastLine)) = (remaining last cursor chunks).drop batch := by
    refine List.filter_eq_self.mpr fun chunk member => ?_
    exact decide_eq_true_eq.mpr (apart final (List.mem_of_getLast? ends) chunk member)
  calc remaining last (final.lastLine + 1) chunks
      = ((remaining last cursor chunks).take batch ++ (remaining last cursor chunks).drop batch).filter
          (fun chunk => decide (final.lastLine + 1 ≤ chunk.lastLine)) := by rw [List.take_append_drop, narrower]
    _ = (remaining last cursor chunks).drop batch := by rw [List.filter_append, none, all, List.nil_append]

theorem mapM_eq_map {α β : Type} {f : α → Option β} {g : α → β} {list : List α}
    (each : ∀ item ∈ list, f item = some (g item)) : list.mapM f = some (list.map g) := by
  induction list with
  | nil => rfl
  | cons head tail ih =>
    simp [List.mapM_cons, each head List.mem_cons_self, ih fun item member => each item (List.mem_cons_of_mem _ member)]

/-- What one batch query does to a reader. -/
theorem Reader.fetch_eq (first : Nat) (last : Option Nat) {log : Log} (sound : ∀ chunk ∈ log.chunks, chunk.Sound compressors) (reader : Reader) :
    ((remaining last reader.batchFirstLine log.chunks = [] ∧
        reader.fetch compressors first last log = some { reader with finished := true }) ∨
      ∃ final, ((remaining last reader.batchFirstLine log.chunks).take CHUNK_BATCH_SIZE).getLast? = some final ∧
        reader.fetch compressors first last log = some {
          batchFirstLine := max reader.batchFirstLine final.lastLine + 1
          lines := reader.lines ++ ((remaining last reader.batchFirstLine log.chunks).take CHUNK_BATCH_SIZE).flatMap
            (Chunk.shows compressors first last)
          finished := false }) := by
  have queried : getChunks last log reader.batchFirstLine CHUNK_BATCH_SIZE =
      (remaining last reader.batchFirstLine log.chunks).take CHUNK_BATCH_SIZE := rfl
  unfold Reader.fetch
  rw [queried]
  cases ends : ((remaining last reader.batchFirstLine log.chunks).take CHUNK_BATCH_SIZE).getLast? with
  | none =>
    refine .inl ⟨?_, rfl⟩
    rcases List.take_eq_nil_iff.mp (List.getLast?_eq_none_iff.mp ends) with none | empty
    · cases none
    · exact empty
  | some final =>
    refine .inr ⟨final, rfl, ?_⟩
    have read : ((remaining last reader.batchFirstLine log.chunks).take CHUNK_BATCH_SIZE).mapM
        (iterUncompressLines compressors first last) =
        some (((remaining last reader.batchFirstLine log.chunks).take CHUNK_BATCH_SIZE).map
          (Chunk.shows compressors first last)) :=
      mapM_eq_map fun chunk member =>
        (sound chunk (List.mem_filter.mp (List.mem_of_mem_take member)).1).iterUncompressLines
    simp only [read, Option.bind_eq_bind, Option.bind_some, Option.pure_def, List.flatMap]

/-- Enough queries find everything, each what no earlier one found. -/
theorem Reader.fetchAll_eq {log : Log} (sound : ∀ chunk ∈ log.chunks, chunk.Sound compressors)
    (increasing : log.chunks.Pairwise fun earlier later => earlier.lastLine < later.lastLine)
    (queries : Nat) (reader : Reader) (enough : (remaining last reader.batchFirstLine log.chunks).length < queries) :
    (reader.fetchAll compressors first last log queries).map Reader.lines =
      some (reader.lines ++ (remaining last reader.batchFirstLine log.chunks).flatMap
        (Chunk.shows compressors first last)) := by
  induction queries generalizing reader with
  | zero => omega
  | succ queries ih =>
    rcases reader.fetch_eq first last sound with ⟨empty, fetched⟩ | ⟨final, ends, fetched⟩
    · simp [Reader.fetchAll, fetched, empty]
    · have dropped := remaining_drop increasing ends
      have some : 0 < (remaining last reader.batchFirstLine log.chunks).length := by
        have member := List.mem_of_mem_take (List.mem_of_getLast? ends)
        exact List.length_pos_of_mem member
      have later := ih ⟨max reader.batchFirstLine final.lastLine + 1,
        reader.lines ++ ((remaining last reader.batchFirstLine log.chunks).take CHUNK_BATCH_SIZE).flatMap
          (Chunk.shows compressors first last), false⟩
        (by simp only [dropped, List.length_drop, CHUNK_BATCH_SIZE]; omega)
      simp only [Reader.fetchAll, fetched, Option.bind_eq_bind, Option.bind_some, Bool.false_eq_true, if_false, later,
        dropped, List.append_assoc, ← List.flatMap_append, List.take_append_drop]

/-- The reader shows of every chunk of the range what is in the range. -/
theorem iterLogLines_eq {log : Log} (sound : log.Sound compressors) (first : Nat) (last : Option Nat) :
    iterLogLines compressors first last log =
      some ((remaining last first log.chunks).flatMap (Chunk.shows compressors first last)) := by
  have increasing : log.chunks.Pairwise fun earlier later => earlier.lastLine < later.lastLine := by
    refine sound.covers.increasing.imp_of_mem fun _ later apart => ?_
    have := sound.covers.within _ later
    omega
  have enough : (remaining last first log.chunks).length < log.chunks.length + 1 :=
    Nat.lt_succ_of_le (List.length_filter_le _ _)
  unfold iterLogLines
  rw [(Reader.new first).fetchAll_eq sound.sound increasing (log.chunks.length + 1) enough]
  rfl

theorem getLogLines_eq {log : Log} (sound : log.Sound compressors) (first last : Nat) :
    getLogLines compressors log first last =
      some ((remaining (some last) first log.chunks).flatMap (Chunk.shows compressors first (some last))).flatten := by
  simp only [getLogLines, iterLogLines_eq sound, Option.map_some]

/-- A reader never shows a carriage return. -/
theorem carriage_not_mem_shows (chunk : Chunk) {line : Text} (member : line ∈ chunk.shows compressors first last) :
    '\r' ∉ line := by
  intro inside
  have whole := List.mem_flatten.mpr ⟨line, mem_of_mem_between member, inside⟩
  rw [shown, readLines_flatten] at whole
  exact carriage_not_mem_universal (by decide) false _ whole

theorem textOf_cons (chunk : Chunk) (chunks : List Chunk) :
    textOf compressors (chunk :: chunks) = chunk.text compressors ++ '\n' :: textOf compressors chunks := by
  simp [textOf]

theorem textOf_append (before after : List Chunk) :
    textOf compressors (before ++ after) = textOf compressors before ++ textOf compressors after := List.flatMap_append

theorem length_lines {start stop : Nat} {chunks : List Chunk} (covers : Covers start chunks stop)
    (sound : ∀ chunk ∈ chunks, chunk.Sound compressors) :
    start + (readLines '\n' (textOf compressors chunks)).length = stop := by
  induction chunks generalizing start with
  | nil => exact covers
  | cons chunk chunks ih =>
    obtain ⟨starts, _, rest⟩ := covers
    have later := ih rest fun other member => sound other (List.mem_cons_of_mem _ member)
    have counted := (sound chunk List.mem_cons_self).lines
    rw [textOf_cons, readLines_append, List.length_append, length_readLines]
    omega

/-- Without carriage returns the chunks one after another show the lines of the range that they hold. -/
theorem flatMap_shows {start stop : Nat} {chunks : List Chunk} (covers : Covers start chunks stop)
    (sound : ∀ chunk ∈ chunks, chunk.Sound compressors) (none : ∀ chunk ∈ chunks, '\r' ∉ chunk.text compressors) :
    chunks.flatMap (Chunk.shows compressors first last) =
      between first last start (readLines '\n' (textOf compressors chunks)) := by
  induction chunks generalizing start with
  | nil => rfl
  | cons chunk chunks ih =>
    obtain ⟨starts, _, rest⟩ := covers
    have later := ih rest (fun other member => sound other (List.mem_cons_of_mem _ member))
      fun other member => none other (List.mem_cons_of_mem _ member)
    have counted := (sound chunk List.mem_cons_self).lines
    rw [List.flatMap_cons, later, textOf_cons, readLines_append, between_append, length_readLines, Chunk.shows,
      shown_of_not_mem (by decide) (none chunk List.mem_cons_self), starts,
      show chunk.lastLine + 1 = start + ((chunk.text compressors).count '\n' + 1) by omega]

/-- A chunk that is not asked for has nothing to show. -/
theorem Chunk.shows_eq_nil {chunk : Chunk} (sound : chunk.Sound compressors) (none : '\r' ∉ chunk.text compressors)
    (outside : ¬ (last.all (chunk.firstLine ≤ ·) ∧ first ≤ chunk.lastLine)) :
    chunk.shows compressors first last = [] := by
  by_cases after : last.all (chunk.firstLine ≤ ·)
  · refine between_before ?_
    have before : ¬ first ≤ chunk.lastLine := fun reached => outside ⟨after, reached⟩
    have counted := sound.lines
    rw [length_shown (by decide), lone_of_not_mem (by simp [none])]
    omega
  · exact between_after after

theorem flatMap_remaining {chunks : List Chunk} (sound : ∀ chunk ∈ chunks, chunk.Sound compressors)
    (none : ∀ chunk ∈ chunks, '\r' ∉ chunk.text compressors) :
    (remaining last first chunks).flatMap (Chunk.shows compressors first last) =
      chunks.flatMap (Chunk.shows compressors first last) := by
  induction chunks with
  | nil => rfl
  | cons chunk chunks ih =>
    have later := ih (fun other member => sound other (List.mem_cons_of_mem _ member))
      fun other member => none other (List.mem_cons_of_mem _ member)
    unfold remaining at later ⊢
    rw [List.filter_cons, List.flatMap_cons]
    split_ifs with selected
    · rw [List.flatMap_cons, later]
    · rw [later, Chunk.shows_eq_nil (sound chunk List.mem_cons_self) (none chunk List.mem_cons_self)
        (by simpa using selected), List.nil_append]

end Range

theorem Log.Sound.carriage_not_mem {log : Log} (none : '\r' ∉ textOf compressors log.chunks) :
    ∀ chunk ∈ log.chunks, '\r' ∉ chunk.text compressors := fun chunk member inside =>
  none (List.mem_flatMap.mpr ⟨chunk, member, List.mem_append_left _ inside⟩)

/-- A log without carriage returns reads back as its lines. -/
theorem getLogLines_of_not_mem {log : Log} (sound : log.Sound compressors)
    (none : '\r' ∉ textOf compressors log.chunks) (first last : Nat) :
    getLogLines compressors log first last = some (((log.lines compressors).drop first).take (last + 1 - first)).flatten := by
  have absent := Log.Sound.carriage_not_mem none
  rw [getLogLines_eq sound, flatMap_remaining sound.sound absent, flatMap_shows sound.covers sound.sound absent,
    between_eq]
  rfl

def rawChunk (firstLine lastLine : Nat) (text : String) : Chunk := ⟨firstLine, lastLine, utf8 text.toList, .raw⟩

theorem rawChunk_text (firstLine lastLine : Nat) (text : String) :
    (rawChunk firstLine lastLine text).text compressors = text.toList := Chunk.text_eq rfl

theorem rawChunk_sound {firstLine lastLine : Nat} {text : String}
    (lines : lastLine = firstLine + text.toList.count '\n') : (rawChunk firstLine lastLine text).Sound compressors :=
  Chunk.sound_of_read rfl lines

end Umbilical.Logs
