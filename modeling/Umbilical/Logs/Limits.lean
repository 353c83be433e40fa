import Umbilical.Logs.Compressing
import Umbilical.Shared.Interleaving

set_option autoImplicit false

/-!
# The limits of a chunk

`appendLog` measures a long line before it stores it, and takes short ones together
without measuring them. `compressLog` measures the chunks of a group and not the
chunk that it makes of them.
-/

namespace Umbilical.Logs

open Python Lines Interleaving

/-- A flushed compress object compresses as a new one does. -/
def Compressor.Renews (compressor : Compressor) : Prop :=
  ∀ obj, compressor.Reusable obj → ∀ pieces,
    (compressor.compressAll obj pieces).1 = (compressor.compressAll compressor.new pieces).1

def Compressors.Renew (compressors : Compressors) : Prop := ∀ method, (compressors.byId method).Renews

theorem RawCompressor.renews : RawCompressor.Renews := fun _ _ _ => rfl

theorem uncompressed_renew : uncompressed.Renew := by
  intro method
  cases method <;> exact RawCompressor.renews

/-- The lines without the trailing newline of the last one. -/
def stripLast (lines : List (List UInt8)) : List (List UInt8) := lines.dropLast ++ [(lines.getLast?.getD []).dropLast]

/-- Lines that fit into a chunk as they are or compressed. -/
def RunFits (compressor : Compressor) (run : List (List UInt8)) : Prop :=
  ((stripLast run).map List.length).sum ≤ MAX_CHUNK_SIZE ∨
    (compressor.compressAll compressor.new (stripLast run)).1.length ≤ MAX_CHUNK_SIZE

/-- The lines of at most `MAX_CHUNK_SIZE` bytes with no longer one between them, behind those that there are. A line
that cannot be encoded is the end, and what stands directly before it is not stored. -/
def shortRuns : List Str → List (List UInt8) → List (List (List UInt8))
  | [], run => if run = [] then [] else [run]
  | line :: rest, run =>
      match encode line with
      | none => []
      | some lineBytes =>
          if lineBytes.length > MAX_CHUNK_SIZE then (if run = [] then [] else [run]) ++ shortRuns rest []
          else shortRuns rest (run ++ [lineBytes])

def Terminated (line : List UInt8) : Prop := line.getLast? = some 10

section Writing

variable {compressor : Compressor} {obj : compressor.CompressObj}

theorem compressChunk_fits (method : Method) (renews : compressor.Renews) (reusable : compressor.Reusable obj) {lines : List (List UInt8)}
    {last : List UInt8} (ends : lines.getLast? = some last) (terminated : Terminated last) :
    ∃ piece obj', compressChunk compressor method obj lines = some (piece, obj') ∧ compressor.Reusable obj' ∧
      (piece.content.length ≤ MAX_CHUNK_SIZE ↔ RunFits compressor lines) := by
  have stripped : stripLast lines = lines.dropLast ++ [last.dropLast] := by simp [stripLast, ends]
  have again := Compressor.Reusable.flushed (stripLast lines) reusable
  have same := renews obj reusable (stripLast lines)
  unfold compressChunk RunFits
  rw [← same]
  simp only [ends, show last.getLast? = some 10 from terminated, if_true, ← stripped]
  split_ifs with useless
  · refine ⟨_, _, rfl, again, ?_⟩
    rw [List.length_flatten]
    exact ⟨.inl, fun either => either.elim id fun small => useless.trans small⟩
  · refine ⟨_, _, rfl, again, ?_⟩
    exact ⟨.inr, fun either => either.elim (fun small => by simp only; omega) id⟩

/-- Compressing never makes a chunk longer than its lines. -/
theorem RunFits.of_short {line : List UInt8} (short : line.length ≤ MAX_CHUNK_SIZE + 1) : RunFits compressor [line] := by
  refine .inl ?_
  simp only [stripLast, List.dropLast_singleton, List.nil_append, List.getLast?_singleton, Option.getD_some,
    List.map_singleton, List.sum_singleton, List.length_dropLast]
  omega

theorem length_decodable_le (line : List UInt8) : (decodable line).length ≤ line.length := by
  induction line using decodable.induct with
  | case1 => simp [decodable]
  | case2 line filled fine => simp [decodable, filled, fine]
  | case3 line filled torn ih =>
    rw [decodable, if_neg filled, if_neg torn]
    exact ih.trans (by simp)

/-- A long line is measured compressed, and truncated if that is not enough. -/
theorem compressLongLine_fits (method : Method) (renews : compressor.Renews) (reusable : compressor.Reusable obj) {line : List UInt8}
    (terminated : Terminated line) :
    ∃ piece obj', compressLongLine compressor method obj line = some (piece, obj') ∧ compressor.Reusable obj' ∧
      piece.content.length ≤ MAX_CHUNK_SIZE := by
  obtain ⟨piece, obj', compressed, again, _⟩ :=
    compressChunk_fits method renews reusable (show [line].getLast? = some line from rfl) terminated
  by_cases large : MAX_CHUNK_SIZE < piece.content.length
  · have ended : Terminated (truncateLine line) := by simp [Terminated, truncateLine]
    have short : (truncateLine line).length ≤ MAX_CHUNK_SIZE + 1 := by
      have := length_decodable_le (line.take (MAX_CHUNK_SIZE - 1))
      simp only [truncateLine, List.length_append, List.length_singleton, List.length_take, MAX_CHUNK_SIZE] at *
      omega
    obtain ⟨truncated, obj'', result, reused, fits⟩ :=
      compressChunk_fits method renews again (show [truncateLine line].getLast? = some _ from rfl) ended
    refine ⟨truncated, obj'', ?_, reused, fits.mpr (.of_short short)⟩
    simp [compressLongLine, compressed, large, result]
  · exact ⟨piece, obj', by simp [compressLongLine, compressed, large], again, by omega⟩

/-- What the generator yields fits if and only if what it takes together fits. -/
theorem iterChunkCompress_fits (method : Method) (renews : compressor.Renews) (reusable : compressor.Reusable obj)
    (lines : List Str) (run : List (List UInt8)) (terminated : ∀ line ∈ lines, ∀ bytes, encode line = some bytes → Terminated bytes)
    (pending : ∀ bytes ∈ run, Terminated bytes) :
    (∀ piece ∈ (iterChunkCompress compressor method lines run 0 obj).1, piece.content.length ≤ MAX_CHUNK_SIZE) ↔
      ∀ run' ∈ shortRuns lines run, RunFits compressor run' := by
  induction lines generalizing run obj with
  | nil =>
    rw [iterChunkCompress, shortRuns]
    split_ifs with none
    · simp
    · obtain ⟨last, ends⟩ := Option.ne_none_iff_exists'.mp (mt List.getLast?_eq_none_iff.mp none)
      obtain ⟨piece, obj', compressed, _, fits⟩ :=
        compressChunk_fits method renews reusable ends (pending last (List.mem_of_getLast? ends))
      simp [compressed, fits]
  | cons line rest ih =>
    have later := fun other member => terminated other (List.mem_cons_of_mem line member)
    rw [iterChunkCompress, shortRuns]
    cases encoded : encode line with
    | none => simp
    | some lineBytes =>
      have endsLine := terminated line List.mem_cons_self lineBytes encoded
      simp only [flushLines, Nat.zero_add]
      by_cases long : lineBytes.length > MAX_CHUNK_SIZE
      · by_cases none : run = []
        · obtain ⟨piece, obj', compressed, again, fits⟩ := compressLongLine_fits method renews reusable endsLine
          have after := ih again [] later (List.forall_mem_nil _)
          simp [none, long, compressed, fits, after]
        · obtain ⟨last, ends⟩ := Option.ne_none_iff_exists'.mp (mt List.getLast?_eq_none_iff.mp none)
          obtain ⟨flushed, obj', flushes, again, fitsRun⟩ :=
            compressChunk_fits method renews reusable ends (pending last (List.mem_of_getLast? ends))
          obtain ⟨piece, obj'', compressed, reused, fits⟩ := compressLongLine_fits method renews again endsLine
          have after := ih reused [] later (List.forall_mem_nil _)
          simp [none, long, flushes, compressed, fitsRun, fits, after]
      · have after := ih reusable (run ++ [lineBytes]) later fun bytes member => by
          rcases List.mem_append.mp member with old | new
          · exact pending bytes old
          · exact List.mem_singleton.mp new ▸ endsLine
        simp [long, after]

end Writing

/-- A row that fits. -/
def Chunk.Fits (chunk : Chunk) : Prop := chunk.content.length ≤ MAX_CHUNK_SIZE

theorem insertPieces_fits (pieces : List Piece) (log : Log) (first last : Nat) :
    (∀ chunk ∈ (insertPieces pieces log first last).1.chunks, chunk.Fits) ↔
      (∀ chunk ∈ log.chunks, chunk.Fits) ∧ ∀ piece ∈ pieces, piece.content.length ≤ MAX_CHUNK_SIZE := by
  induction pieces generalizing log first last with
  | nil => simp [insertPieces]
  | cons piece pieces ih =>
    rw [insertPieces, ih]
    simp [Log.insert, List.mem_orderedInsert, Chunk.Fits, and_assoc, and_left_comm]

theorem terminated_of_readLines {content : Str} (ends : content.getLast? = some lineEnd) :
    ∀ line ∈ readLines lineEnd content, ∀ bytes, encode line = some bytes → Terminated bytes := by
  obtain ⟨body, rfl⟩ := List.getLast?_eq_some_iff.mp ends
  intro line member bytes encoded
  obtain ⟨inside, _, rfl⟩ := ended_of_mem_readLines lineEnd member
  obtain ⟨text, decoded, rfl⟩ := Option.map_eq_some_iff.mp encoded
  have same := Str.ofText_of_text? decoded
  obtain ⟨body, rfl⟩ := exists_body (same ▸ List.getLast?_concat)
  rw [Terminated, utf8_append, utf8_newline, List.getLast?_concat]

/-- What a call of `appendLog` takes together fits. -/
def ContentFits (compressor : Compressor) (content : Str) : Prop :=
  content.getLast? = some lineEnd → ∀ run ∈ shortRuns (readLines lineEnd content) [], RunFits compressor run

variable {compressors : Compressors}

theorem appendLog_fits (renew : compressors.Renew) (configured : Option Method) (content : Str) (log : Log) :
    (∀ chunk ∈ (appendLog compressors configured content log).1.chunks, chunk.Fits) ↔
      (∀ chunk ∈ log.chunks, chunk.Fits) ∧ ContentFits (compressors.byId (Compressors.configured configured)) content := by
  unfold appendLog ContentFits
  by_cases ends : content.getLast? = some lineEnd
  · have pieces := iterChunkCompress_fits (Compressors.configured configured) (renew (Compressors.configured configured)) .new
      (readLines lineEnd content) [] (terminated_of_readLines ends) nofun
    have inserted := insertPieces_fits (piecesOf compressors (Compressors.configured configured) content).1 log
      log.numLines log.numLines
    rw [piecesOf, pieces] at inserted
    simp only [ends, if_true, forall_const]
    split_ifs
    · exact inserted
    · exact inserted
  · simp [ends]

/-- A log that is appended to and compressed. -/
structure Storing (compressors : Compressors) where
  compression : Compression compressors
  /-- The chunks that compressing has made, each with the number of those in whose place it came. -/
  grouped : List (Nat × Chunk)

inductive StoringEvent where
  | append (configured : Option Method) (content : Str)
  | gather (configured : Option Method) (force : Bool)
  | replace

namespace Storing

def new : Storing compressors where
  compression := .new .new
  grouped := []

def step (state : Storing compressors) : StoringEvent → Storing compressors × List Unit
  | .append configured content =>
      ({ state with compression := { state.compression with
          log := (appendLog compressors configured content state.compression.log).1 } }, [])
  | .gather configured force => ({ state with compression := state.compression.gather configured force }, [])
  | .replace => (⟨state.compression.replace.1, state.grouped ++ state.compression.replace.2⟩, [])

/-- The limits of the rows, and of the chunks that come in the place of several. -/
def Limited (state : Storing compressors) : Prop :=
  (∀ chunk ∈ state.compression.log.chunks, chunk.Fits) ∧
    ∀ made ∈ state.grouped, 1 < made.1 → made.2.lastLine < made.2.firstLine + MAX_CHUNK_LINES

/-- A group that stays within the limits when it is put together. -/
def GroupFits (state : Storing compressors) (group : Nat × Nat) : Prop :=
  ∀ contents, ((getChunksContent state.compression.log group).mapM fun chunk =>
      compressors.read chunk.compressed chunk.content) = some contents →
    ((compressors.byId state.compression.method).compressAll (compressors.byId state.compression.method).new
      (contents.intersperse [10])).1.length ≤ MAX_CHUNK_SIZE ∧
    (1 < (getChunksContent state.compression.log group).length → group.2 < group.1 + MAX_CHUNK_LINES)

/-- Nothing is stored unmeasured that is over a limit. -/
def Fits (state : Storing compressors) : StoringEvent → Prop
  | .append configured content => ContentFits (compressors.byId (Compressors.configured configured)) content
  | .gather _ _ => True
  | .replace => ∀ group ∈ state.compression.groups.head?, state.GroupFits group

/-- Within the limits so far, with a compress object that can be used again. -/
structure Keeps (state : Storing compressors) : Prop where
  limited : state.Limited
  reusable : (compressors.byId state.compression.method).Reusable state.compression.obj

variable {state : Storing compressors}

/-- What a transaction makes of the first group. -/
theorem exists_replace (renew : compressors.Renew) (keeps : state.Keeps) {group : Nat × Nat} {groups : List (Nat × Nat)}
    (ahead : state.compression.groups = group :: groups) {contents : List (List UInt8)}
    (read : ((getChunksContent state.compression.log group).mapM fun chunk =>
      compressors.read chunk.compressed chunk.content) = some contents) :
    ∃ chunk, chunk.firstLine = group.1 ∧ chunk.lastLine = group.2 ∧
      chunk.content = ((compressors.byId state.compression.method).compressAll
        (compressors.byId state.compression.method).new (contents.intersperse [10])).1 ∧
      state.compression.replace.1.log = replaceChunksByNewGroupedChunk state.compression.log chunk ∧
      state.compression.replace.2 = [((getChunksContent state.compression.log group).length, chunk)] ∧
      (compressors.byId state.compression.replace.1.method).Reusable state.compression.replace.1.obj := by
  have same := renew state.compression.method state.compression.obj keeps.reusable (contents.intersperse [10])
  have again := Compressor.Reusable.flushed (contents.intersperse [10]) keeps.reusable
  obtain ⟨saved, result⟩ : ∃ saved, groupedChunk compressors state.compression.method state.compression.log
      state.compression.obj group = some (⟨group.1, group.2, ((compressors.byId state.compression.method).compressAll
        state.compression.obj (contents.intersperse [10])).1, state.compression.method⟩, saved,
        ((compressors.byId state.compression.method).compressAll state.compression.obj (contents.intersperse [10])).2) := by
    rw [groupedChunk, recompressChunks, read]
    exact ⟨_, rfl⟩
  rw [Compression.replace_eq ahead result]
  exact ⟨_, rfl, rfl, same, rfl, rfl, again⟩

theorem step_replace_unread {group : Nat × Nat} {groups : List (Nat × Nat)}
    (ahead : state.compression.groups = group :: groups)
    (unread : ((getChunksContent state.compression.log group).mapM fun chunk =>
      compressors.read chunk.compressed chunk.content) = none) :
    (state.step .replace).1 = { state with compression := { state.compression with
      groups := [], totalBytesSaved := none } } := by
  unfold step Compression.replace
  rw [ahead]
  simp [groupedChunk, recompressChunks, unread]

theorem mem_replaceChunks {log : Log} {chunk other : Chunk} :
    other ∈ (replaceChunksByNewGroupedChunk log chunk).chunks ↔
      other = chunk ∨ other ∈ log.chunks ∧ inGroup (chunk.firstLine, chunk.lastLine) other = false := by
  simp [replaceChunksByNewGroupedChunk, Log.insert, List.mem_orderedInsert]

theorem Keeps.step (renew : compressors.Renew) (keeps : state.Keeps) {event : StoringEvent} (fits : state.Fits event) :
    (state.step event).1.Keeps := by
  cases event with
  | append configured content =>
    exact ⟨⟨(appendLog_fits renew configured content _).mpr ⟨keeps.limited.1, fits⟩, keeps.limited.2⟩, keeps.reusable⟩
  | gather configured force =>
    unfold Storing.step Compression.gather
    cases state.compression.groups with
    | nil => exact ⟨keeps.limited, .new⟩
    | cons group groups => exact keeps
  | replace =>
    cases ahead : state.compression.groups with
    | nil =>
      have idle : (state.step .replace).1 = state := by
        unfold Storing.step Compression.replace
        rw [ahead]
        simp
      exact idle.symm ▸ keeps
    | cons group groups =>
      have within : state.GroupFits group := fits group (by rw [ahead]; rfl)
      cases read : (getChunksContent state.compression.log group).mapM fun chunk =>
          compressors.read chunk.compressed chunk.content with
      | none =>
        rw [step_replace_unread ahead read]
        exact ⟨keeps.limited, keeps.reusable⟩
      | some contents =>
        obtain ⟨small, few⟩ := within contents read
        obtain ⟨chunk, first, last, content, log, made, again⟩ := exists_replace renew keeps ahead read
        refine ⟨⟨fun other member => ?_, fun other member => ?_⟩, again⟩
        · change other ∈ state.compression.replace.1.log.chunks at member
          rcases mem_replaceChunks.mp (log ▸ member) with rfl | ⟨old, _⟩
          · rw [Chunk.Fits, content]
            exact small
          · exact keeps.limited.1 other old
        · change other ∈ state.grouped ++ state.compression.replace.2 at member
          rcases List.mem_append.mp member with old | new
          · exact keeps.limited.2 other old
          · obtain rfl := List.mem_singleton.mp (made ▸ new)
            intro several
            have := few several
            simp only
            omega

/-- A step that does not fit stores what is over a limit. -/
theorem Keeps.lost (renew : compressors.Renew) (keeps : state.Keeps) {event : StoringEvent} (large : ¬ state.Fits event) :
    ¬ (state.step event).1.Limited := by
  rintro ⟨small, few⟩
  refine large ?_
  cases event with
  | append configured content => exact ((appendLog_fits renew configured content _).mp small).2
  | gather configured force => exact trivial
  | replace =>
    intro group first contents read
    obtain ⟨groups, ahead⟩ := List.head?_eq_some_iff.mp first
    obtain ⟨chunk, first, last, content, log, made, _⟩ := exists_replace renew keeps ahead read
    constructor
    · have stored : chunk ∈ state.compression.replace.1.log.chunks := by
        rw [log]
        exact mem_replaceChunks.mpr (.inl rfl)
      rw [← content]
      exact small chunk stored
    · intro several
      have listed : ((getChunksContent state.compression.log group).length, chunk) ∈
          state.grouped ++ state.compression.replace.2 := by
        rw [made]
        exact List.mem_append_right _ List.mem_cons_self
      have := few _ listed several
      simp only at this
      omega

theorem new_keeps : (new : Storing compressors).Keeps where
  limited := ⟨nofun, nofun⟩
  reusable := .new

/-- Whether every state that these events lead through is within the limits. -/
def StaysLimited (compressors : Compressors) (events : List StoringEvent) : Prop :=
  ∀ past, past <+: events → (final step (new : Storing compressors) past).Limited

/-- Every row and every grouped chunk is within the limits if and only if nothing over them is stored unmeasured. -/
theorem run_staysLimited_iff (compressors : Compressors) (renew : compressors.Renew) (events : List StoringEvent) :
    StaysLimited compressors events ↔ Always step Fits (new : Storing compressors) events :=
  always_iff (fun _ _ keeps fits => keeps.step renew fits) (fun _ _ keeps large => keeps.lost renew large)
    (fun _ keeps => keeps.limited) new_keeps events

section Instances

def twoCalls : List StoringEvent :=
  [.append (some .raw) (.literal "one\n"), .append none (.literal "two\n"), .gather none false, .replace]

theorem contentFits_of_all {compressor : Compressor} {content : Str}
    (small : ((shortRuns (readLines lineEnd content) []).all fun run =>
      decide (((stripLast run).map List.length).sum ≤ MAX_CHUNK_SIZE)) = true) : ContentFits compressor content :=
  fun _ run member => .inl (by simpa using List.all_eq_true.mp small run member)

theorem twoCalls_staysLimited : StaysLimited uncompressed twoCalls := by
  refine (run_staysLimited_iff uncompressed uncompressed_renew twoCalls).mpr ⟨?_, ?_, trivial, ?_, trivial⟩
  · exact contentFits_of_all (by decide)
  · exact contentFits_of_all (by decide)
  · intro group first contents read
    obtain rfl : (0, 1) = group := Option.some.inj first
    obtain rfl : [[111, 110, 101], [116, 119, 111]] = contents := Option.some.inj read
    exact ⟨by decide, fun _ => by decide⟩

/-- Lines that are empty. -/
theorem readLines_replicate (count : Nat) :
    readLines lineEnd (List.replicate count lineEnd) = List.replicate count [lineEnd] := by
  induction count with
  | zero => rfl
  | succ count ih => simp [List.replicate_succ, readLines, ih]

theorem shortRuns_replicate (count : Nat) (run : List (List UInt8)) (filled : run ≠ []) :
    shortRuns (List.replicate count [lineEnd]) run = [run ++ List.replicate count [10]] := by
  induction count generalizing run with
  | zero => simp [shortRuns, filled]
  | succ count ih =>
    have encoded : encode [lineEnd] = some [10] := by decide
    rw [List.replicate_succ, shortRuns, encoded]
    simp only
    rw [if_neg (by decide), ih _ (by simp), List.append_assoc, List.replicate_succ]
    rfl

theorem StaysLimited.contentFits (renew : compressors.Renew) {configured : Option Method} {content : Str}
    (limited : StaysLimited compressors [.append configured content]) :
    ContentFits (compressors.byId (Compressors.configured configured)) content :=
  ((appendLog_fits renew configured content .new).mp (limited _ List.prefix_rfl).1).2

/-- Empty lines that make up a row of more bytes than it may have. -/
theorem emptyLines_not_fit {count : Nat} (many : MAX_CHUNK_SIZE + 1 < count) :
    ¬ ContentFits RawCompressor (List.replicate count lineEnd) := by
  intro fits
  obtain ⟨others, rfl⟩ : ∃ others, count = others + 1 := ⟨count - 1, by omega⟩
  have encoded : encode [lineEnd] = some [10] := by decide
  have runs : shortRuns (readLines lineEnd (List.replicate (others + 1) lineEnd)) [] =
      [[10] :: List.replicate others [10]] := by
    rw [readLines_replicate, List.replicate_succ, shortRuns, encoded]
    simp only
    rw [if_neg (by decide), shortRuns_replicate _ _ (by simp)]
    rfl
  have run := fits (by simp [List.replicate_succ']) _ (runs ▸ List.mem_cons_self)
  have size : ((stripLast ([10] :: List.replicate others [10])).map List.length).sum = others := by
    rw [← List.replicate_succ, List.replicate_succ']
    simp [stripLast]
  rw [RunFits, RawCompressor.compressAll_eq, List.length_flatten, size] at run
  omega

theorem emptyLines_not_staysLimited :
    ¬ StaysLimited uncompressed [.append (some .raw) (List.replicate (MAX_CHUNK_SIZE + 2) lineEnd)] :=
  fun limited => emptyLines_not_fit (by omega) (limited.contentFits uncompressed_renew)

end Instances

end Storing

end Umbilical.Logs
