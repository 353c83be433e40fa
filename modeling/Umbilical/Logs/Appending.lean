import Umbilical.Logs.Reading

set_option autoImplicit false

/-!
# Appending to a log

`appendLog` breaks its content up into chunks and inserts them one by one.
-/

namespace Umbilical.Logs

open Python Lines

def MAX_CHUNK_SIZE : Nat := 65536

def MAX_CHUNK_LINES : Nat := 1000

def lineEnd : CodePoint := .scalar '\n'

/-- `line.encode('utf-8')` -/
def encode (line : Str) : Option (List UInt8) := (Str.text? line).map utf8

/-- What `_thd_compress_chunk` returns. -/
structure Piece where
  content : List UInt8
  compressed : Method
  linesCount : Nat
  deriving DecidableEq

section Writing

variable (compressor : Compressor) (method : Method)

/-- `none` where the assertion about the trailing newline fails. -/
def compressChunk (obj : compressor.CompressObj) (lines : List (List UInt8)) : Option (Piece × compressor.CompressObj) :=
  match lines.getLast? with
  | none => none
  | some last =>
      if last.getLast? = some 10 then
        let lines := lines.dropLast ++ [last.dropLast]
        let (compressed, obj) := compressor.compressAll obj lines
        -- is it useful to compress the chunk?
        if (lines.map List.length).sum ≤ compressed.length then
          some (⟨lines.flatten, .raw, lines.length⟩, obj)
        else some (⟨compressed, method, lines.length⟩, obj)
      else none

/-- The loop of `_truncate_line`. -/
def decodable (line : List UInt8) : List UInt8 :=
  if line = [] then []
  else if (decodeUtf8 line).isSome then line
  else decodable line.dropLast
termination_by line.length
decreasing_by
  rename_i filled _
  have := List.length_pos_iff.mpr filled
  simp only [List.length_dropLast]
  omega

def truncateLine (line : List UInt8) : List UInt8 := decodable (line.take (MAX_CHUNK_SIZE - 1)) ++ [10]

/-- A line that is too long for a chunk, unless compressing it helps. -/
def compressLongLine (obj : compressor.CompressObj) (line : List UInt8) : Option (Piece × compressor.CompressObj) := do
  let (piece, obj) ← compressChunk compressor method obj [line]
  if MAX_CHUNK_SIZE < piece.content.length then compressChunk compressor method obj [truncateLine line]
  else some (piece, obj)

/-- Flushes the lines that another one would take over the limit. -/
def flushLines (lines : List (List UInt8)) (linesSize : Nat) (obj : compressor.CompressObj) (lineSize : Nat) :
    Option (List Piece × List (List UInt8) × Nat × compressor.CompressObj) :=
  if lines ≠ [] ∧ linesSize + lineSize > MAX_CHUNK_SIZE then
    (compressChunk compressor method obj lines).map fun (piece, obj) => ([piece], [], 0, obj)
  else some ([], lines, linesSize, obj)

/-- `_thd_iter_chunk_compress` from some line on: what it yields, and whether it comes to its end. -/
def iterChunkCompress : List Str → List (List UInt8) → Nat → compressor.CompressObj → List Piece × Bool
  | [], lines, _, obj =>
      if lines = [] then ([], true)
      else match compressChunk compressor method obj lines with
        | none => ([], false)
        | some (piece, _) => ([piece], true)
  | line :: rest, lines, linesSize, obj =>
      match encode line with
      | none => ([], false)
      | some lineBytes =>
          match flushLines compressor method lines linesSize obj lineBytes.length with
          | none => ([], false)
          | some (flushed, lines, linesSize, obj) =>
              if lineBytes.length > MAX_CHUNK_SIZE then
                match compressLongLine compressor method obj lineBytes with
                | none => (flushed, false)
                | some (piece, obj) =>
                    let (pieces, finished) := iterChunkCompress rest lines linesSize obj
                    (flushed ++ piece :: pieces, finished)
              else
                -- lines_size stays as it is
                let (pieces, finished) := iterChunkCompress rest (lines ++ [lineBytes]) linesSize obj
                (flushed ++ pieces, finished)

end Writing

/-- The chunks are inserted one after another; returns the last line. -/
def insertPieces : List Piece → Log → Nat → Nat → Log × Nat
  | [], log, _, lastLine => (log, lastLine)
  | piece :: pieces, log, chunkFirstLine, _ =>
      let lastLine := chunkFirstLine + piece.linesCount - 1
      insertPieces pieces (log.insert ⟨chunkFirstLine, lastLine, piece.content, piece.compressed⟩) (lastLine + 1) lastLine

/-- The pieces of a content, and whether all of it could be encoded. -/
def piecesOf (compressors : Compressors) (method : Method) (content : Str) : List Piece × Bool :=
  iterChunkCompress (compressors.byId method) method (readLines lineEnd content) [] 0 (compressors.byId method).new

/-- `appendLog` on a log that exists. What it has inserted stays when it raises. -/
def appendLog (compressors : Compressors) (configured : Option Method) (content : Str) (log : Log) :
    Log × Option (Nat × Nat) :=
  if content.getLast? = some lineEnd then
    let (pieces, finished) := piecesOf compressors (Compressors.configured configured) content
    let (inserted, lastLine) := insertPieces pieces log log.numLines log.numLines
    if finished then ({ inserted with numLines := lastLine + 1 }, some (log.numLines, lastLine))
    else (inserted, none)
  else (log, none)

variable {compressors : Compressors} {method : Method}

/-- A line as it is written: ended by the only newline in it. -/
def Ended (line : Text) : Prop := ∃ body, '\n' ∉ body ∧ line = body ++ ['\n']

/-- A piece from which its lines can be read back. -/
structure Piece.Carries (compressors : Compressors) (piece : Piece) (lines : List Text) : Prop where
  filled : lines ≠ []
  readable : compressors.read piece.compressed piece.content = some (utf8 lines.flatten.dropLast)
  count : piece.linesCount = lines.length

theorem utf8_newline : utf8 ['\n'] = [10] := by decide

theorem exists_body {text : Text} (ends : (Str.ofText text).getLast? = some lineEnd) : ∃ body, text = body ++ ['\n'] := by
  simp only [Str.ofText, List.getLast?_map, Option.map_eq_some_iff] at ends
  obtain ⟨last, found, same⟩ := ends
  obtain ⟨body, rfl⟩ := List.getLast?_eq_some_iff.mp found
  exact ⟨body, by rw [CodePoint.scalar.inj same]⟩

/-- The lines with the trailing newline of the last one stripped. -/
theorem strip_lines (lines : List Text) {line : Text} (ended : Ended line) :
    (utf8 line).getLast? = some 10 ∧
      (lines.map utf8 ++ [(utf8 line).dropLast]).flatten = utf8 (lines ++ [line]).flatten.dropLast := by
  obtain ⟨body, _, rfl⟩ := ended
  have bytes : utf8 (body ++ ['\n']) = utf8 body ++ [10] := by rw [utf8_append, utf8_newline]
  refine ⟨by rw [bytes, List.getLast?_concat], ?_⟩
  have whole : (lines ++ [body ++ ['\n']]).flatten = (lines.flatten ++ body) ++ ['\n'] := by simp
  rw [bytes, whole, List.dropLast_concat, List.dropLast_concat, List.flatten_append, ← utf8_flatten, utf8_append]
  simp

theorem compressChunk_carries (lawful : compressors.Lawful) {obj : (compressors.byId method).CompressObj}
    (reusable : (compressors.byId method).Reusable obj) {lines : List Text} (filled : lines ≠ [])
    (ended : ∀ line ∈ lines, Ended line) :
    ∃ piece obj', compressChunk (compressors.byId method) method obj (lines.map utf8) = some (piece, obj') ∧
      (compressors.byId method).Reusable obj' ∧ piece.Carries compressors lines ∧
      piece.content.length ≤ (utf8 lines.flatten).length - 1 := by
  obtain ⟨others, line, rfl⟩ : ∃ others line, lines = others ++ [line] :=
    ⟨_, _, (List.dropLast_append_getLast filled).symm⟩
  obtain ⟨last, stripped⟩ := strip_lines others (ended line (by simp))
  have mapped : (others ++ [line]).map utf8 = others.map utf8 ++ [utf8 line] := by simp
  have size : ((others.map utf8 ++ [(utf8 line).dropLast]).map List.length).sum =
      (utf8 (others ++ [line]).flatten.dropLast).length := by
    rw [← List.length_flatten, stripped]
  have shorter : (utf8 (others ++ [line]).flatten.dropLast).length = (utf8 (others ++ [line]).flatten).length - 1 := by
    rw [← stripped, utf8_flatten, mapped]
    simp only [List.flatten_append, List.flatten_singleton, List.length_append, List.length_dropLast]
    have : 0 < (utf8 line).length := List.length_pos_of_mem (List.mem_of_getLast? last)
    omega
  have count : (others.map utf8 ++ [(utf8 line).dropLast]).length = (others ++ [line]).length := by simp
  have reads := lawful.read_compressAll method reusable (others.map utf8 ++ [(utf8 line).dropLast])
  have again := Compressor.Reusable.flushed (others.map utf8 ++ [(utf8 line).dropLast]) reusable
  unfold compressChunk
  simp only [mapped, List.getLast?_concat, last, if_true, List.dropLast_concat]
  split_ifs with useless
  · refine ⟨_, _, rfl, again, ⟨filled, ?_, count⟩, ?_⟩
    · rw [Compressors.read_raw, stripped]
    · rw [stripped, shorter]
  · refine ⟨_, _, rfl, again, ⟨filled, ?_, count⟩, ?_⟩
    · rw [reads, stripped]
    · have := size.trans shorter
      simp only
      omega

/-- A line of at most `MAX_CHUNK_SIZE` bytes is not truncated, whether its newline counts or not. -/
theorem compressLongLine_carries (lawful : compressors.Lawful) {obj : (compressors.byId method).CompressObj}
    (reusable : (compressors.byId method).Reusable obj) {line : Text} (ended : Ended line)
    (fits : (utf8 line).length ≤ MAX_CHUNK_SIZE + 1) :
    ∃ piece obj', compressLongLine (compressors.byId method) method obj (utf8 line) = some (piece, obj') ∧
      (compressors.byId method).Reusable obj' ∧ piece.Carries compressors [line] := by
  obtain ⟨piece, obj', compressed, again, carries, size⟩ :=
    compressChunk_carries lawful reusable (List.cons_ne_nil line []) (by simpa using ended)
  refine ⟨piece, obj', ?_, again, carries⟩
  rw [List.flatten_singleton] at size
  simp only [List.map_cons, List.map_nil] at compressed
  unfold compressLongLine
  simp only [compressed, Option.bind_eq_bind, Option.bind_some]
  rw [if_neg (by omega)]

/-- With nothing ever added to `lines_size`, only a line that is too long flushes the lines before it. -/
theorem flushLines_carries (lawful : compressors.Lawful) {obj : (compressors.byId method).CompressObj}
    (reusable : (compressors.byId method).Reusable obj) {pending : List Text} (ended : ∀ line ∈ pending, Ended line)
    (lineSize : Nat) :
    ∃ flushed groups kept obj', flushLines (compressors.byId method) method (pending.map utf8) 0 obj lineSize =
        some (flushed, kept.map utf8, 0, obj') ∧
      (compressors.byId method).Reusable obj' ∧ List.Forall₂ (Piece.Carries compressors) flushed groups ∧
      groups.flatten ++ kept = pending ∧ (lineSize > MAX_CHUNK_SIZE → kept = []) := by
  unfold flushLines
  by_cases flushes : pending.map utf8 ≠ [] ∧ 0 + lineSize > MAX_CHUNK_SIZE
  · have filled : pending ≠ [] := fun empty => flushes.1 (by rw [empty]; rfl)
    obtain ⟨piece, obj', compressed, again, carries, _⟩ := compressChunk_carries lawful reusable filled ended
    refine ⟨[piece], [pending], [], obj', ?_, again, .cons carries .nil, by simp, fun _ => rfl⟩
    rw [if_pos flushes, compressed]
    rfl
  · refine ⟨[], [], pending, obj, if_neg flushes, reusable, .nil, rfl, fun long => ?_⟩
    by_contra filled
    exact flushes ⟨by simpa using filled, by omega⟩

/-- What the generator yields carries the lines of its content, one piece after another. -/
theorem iterChunkCompress_carries (lawful : compressors.Lawful) (lines pending : List Text)
    {obj : (compressors.byId method).CompressObj} (reusable : (compressors.byId method).Reusable obj)
    (ended : ∀ line ∈ pending ++ lines, Ended line) (fits : ∀ line ∈ lines, (utf8 line).length ≤ MAX_CHUNK_SIZE + 1) :
    ∃ pieces groups, iterChunkCompress (compressors.byId method) method (lines.map Str.ofText) (pending.map utf8) 0 obj =
        (pieces, true) ∧
      List.Forall₂ (Piece.Carries compressors) pieces groups ∧ groups.flatten = pending ++ lines := by
  induction lines generalizing pending obj with
  | nil =>
    rw [List.map_nil, iterChunkCompress]
    by_cases none : pending = []
    · subst none
      exact ⟨[], [], rfl, .nil, rfl⟩
    · obtain ⟨piece, obj', compressed, _, carries, _⟩ :=
        compressChunk_carries lawful reusable none (by simpa using ended)
      rw [if_neg (by simpa using none), compressed]
      exact ⟨[piece], [pending], rfl, .cons carries .nil, by simp⟩
  | cons line rest ih =>
    have later : ∀ kept, (∀ other ∈ kept, Ended other) → ∀ other ∈ kept ++ rest, Ended other := by
      intro kept endedKept other member
      rcases List.mem_append.mp member with inside | after
      · exact endedKept other inside
      · exact ended other (by simp [after])
    have endedLine : Ended line := ended line (by simp)
    have fitsRest : ∀ other ∈ rest, (utf8 other).length ≤ MAX_CHUNK_SIZE + 1 :=
      fun other member => fits other (List.mem_cons_of_mem _ member)
    obtain ⟨flushed, groups, kept, obj', flushes, again, carried, together, emptied⟩ :=
      flushLines_carries lawful reusable
        (fun other member => ended other (List.mem_append_left _ member)) (utf8 line).length
    have endedKept : ∀ other ∈ kept, Ended other := fun other member =>
      ended other (List.mem_append_left _ (together ▸ List.mem_append_right _ member))
    have encoded : encode (Str.ofText line) = some (utf8 line) := by simp [encode]
    rw [List.map_cons, iterChunkCompress, encoded]
    simp only [flushes]
    by_cases long : (utf8 line).length > MAX_CHUNK_SIZE
    · obtain ⟨piece, obj'', compressed, reused, carries⟩ :=
        compressLongLine_carries lawful again endedLine (fits line List.mem_cons_self)
      obtain ⟨pieces, others, rests, carriedRest, flattened⟩ :=
        ih [] reused (later [] nofun) fitsRest
      obtain rfl := emptied long
      refine ⟨flushed ++ piece :: pieces, groups ++ [line] :: others, ?_,
        List.rel_append carried (.cons carries carriedRest), ?_⟩
      · rw [if_pos long, compressed]
        simp only [List.map_nil] at rests
        simp only [List.map_nil, rests]
      · simp only [List.append_nil] at together
        simp [together, flattened]
    · obtain ⟨pieces, others, rests, carriedRest, flattened⟩ := ih (kept ++ [line]) again
        (later _ fun other member => by
          rcases List.mem_append.mp member with inside | same
          · exact endedKept other inside
          · exact List.mem_singleton.mp same ▸ endedLine) fitsRest
      refine ⟨flushed ++ pieces, groups ++ others, ?_, List.rel_append carried carriedRest, ?_⟩
      · rw [if_neg long]
        rw [List.map_append, List.map_singleton] at rests
        rw [rests]
      · rw [List.flatten_append, flattened, ← List.append_assoc, ← List.append_assoc, together]
        simp

end Umbilical.Logs
