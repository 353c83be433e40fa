import Umbilical.Logs.Appending
import Mathlib.Data.List.Count

set_option autoImplicit false

/-!
# Writing and reading back

The writer ends a line at a newline only, the reader also at a carriage return,
which it turns into a newline.
-/

namespace Umbilical.Logs

open Python Lines

variable {compressors : Compressors}

theorem orderedInsert_last {chunks : List Chunk} {chunk : Chunk} (last : ∀ other ∈ chunks, other.firstLine < chunk.firstLine) :
    chunks.orderedInsert (fun left right => left.firstLine ≤ right.firstLine) chunk = chunks ++ [chunk] := by
  induction chunks with
  | nil => rfl
  | cons head tail ih =>
    have before := last head List.mem_cons_self
    rw [List.orderedInsert, if_neg (by omega), ih fun other member => last other (List.mem_cons_of_mem _ member)]
    rfl

theorem count_flatten {lines : List Text} (ended : ∀ line ∈ lines, Ended line) : lines.flatten.count '\n' = lines.length := by
  induction lines with
  | nil => rfl
  | cons line lines ih =>
    obtain ⟨body, unbroken, rfl⟩ := ended line List.mem_cons_self
    rw [List.flatten_cons, List.count_append, ih fun other member => ended other (List.mem_cons_of_mem _ member),
      List.count_append, List.count_eq_zero.mpr unbroken, List.count_singleton_self, List.length_cons]
    omega

/-- The lines of a piece are its text and the newline that was stripped. -/
theorem flatten_ended {lines : List Text} (filled : lines ≠ []) (ended : ∀ line ∈ lines, Ended line) :
    lines.flatten.dropLast ++ ['\n'] = lines.flatten := by
  obtain ⟨others, line, rfl⟩ : ∃ others line, lines = others ++ [line] :=
    ⟨_, _, (List.dropLast_append_getLast filled).symm⟩
  obtain ⟨body, _, rfl⟩ := ended line (by simp)
  have whole : (others ++ [body ++ ['\n']]).flatten = (others.flatten ++ body) ++ ['\n'] := by simp
  rw [whole, List.dropLast_concat]

/-- Every piece becomes a chunk behind those that there are. -/
theorem insertPieces_sound {pieces : List Piece} {groups : List (List Text)}
    (carried : List.Forall₂ (Piece.Carries compressors) pieces groups) (ended : ∀ group ∈ groups, ∀ line ∈ group, Ended line)
    {log : Log} {first : Nat} (covers : Covers 0 log.chunks first)
    (sound : ∀ chunk ∈ log.chunks, chunk.Sound compressors) (last : Nat) :
    ∃ inserted lastLine, insertPieces pieces log first last = (inserted, lastLine) ∧
      Covers 0 inserted.chunks (first + groups.flatten.length) ∧
      (∀ chunk ∈ inserted.chunks, chunk.Sound compressors) ∧
      textOf compressors inserted.chunks = textOf compressors log.chunks ++ groups.flatten.flatten ∧
      inserted.numLines = log.numLines ∧
      (groups = [] → lastLine = last) ∧ (groups ≠ [] → lastLine + 1 = first + groups.flatten.length) := by
  induction carried generalizing log first last with
  | nil => exact ⟨log, last, rfl, covers, sound, by simp, rfl, fun _ => rfl, fun none => absurd rfl none⟩
  | @cons piece group pieces groups carries rest ih =>
    have endedGroup := ended group List.mem_cons_self
    have filled : 0 < group.length := List.length_pos_iff.mpr carries.filled
    have stripped := flatten_ended carries.filled endedGroup
    have counted : group.flatten.dropLast.count '\n' + 1 = group.length := by
      have whole := count_flatten endedGroup
      rw [← stripped, List.count_append, List.count_singleton_self] at whole
      exact whole
    have count := carries.count
    -- the chunk that the piece becomes
    let chunk : Chunk := ⟨first, first + piece.linesCount - 1, piece.content, piece.compressed⟩
    have behind : ∀ other ∈ log.chunks, other.firstLine < chunk.firstLine := fun other member => by
      have := covers.within other member
      exact show other.firstLine < first by omega
    have chunkText : chunk.text compressors = group.flatten.dropLast := Chunk.text_eq carries.readable
    have chunkSound : chunk.Sound compressors := Chunk.sound_of_read carries.readable
      (show first + piece.linesCount - 1 = first + _ by omega)
    have placed : (log.insert chunk).chunks = log.chunks ++ [chunk] := orderedInsert_last behind
    have coversNow : Covers 0 (log.insert chunk).chunks (first + piece.linesCount - 1 + 1) := by
      rw [placed]
      exact covers.append ⟨rfl, show first ≤ first + piece.linesCount - 1 by omega, rfl⟩
    have soundNow : ∀ other ∈ (log.insert chunk).chunks, other.Sound compressors := by
      rw [placed]
      intro other member
      rcases List.mem_append.mp member with old | new
      · exact sound other old
      · exact List.mem_singleton.mp new ▸ chunkSound
    obtain ⟨inserted, lastLine, result, coversLater, soundLater, text, lines, ends, lastly⟩ :=
      ih (fun other member => ended other (List.mem_cons_of_mem _ member)) coversNow soundNow
        (first + piece.linesCount - 1)
    refine ⟨inserted, lastLine, result, ?_, soundLater, ?_, lines, nofun, fun _ => ?_⟩
    · rw [List.flatten_cons, List.length_append]
      exact show first + (group.length + groups.flatten.length) =
        first + piece.linesCount - 1 + 1 + groups.flatten.length by omega ▸ coversLater
    · rw [text, placed, textOf_append, textOf_cons, chunkText, List.flatten_cons, List.flatten_append, ← stripped]
      simp [textOf]
    · by_cases none : groups = []
      · subst none
        rw [ends rfl, List.flatten_singleton]
        omega
      · rw [lastly none, List.flatten_cons, List.length_append]
        omega

theorem readLines_ofText (text : Text) : readLines lineEnd (Str.ofText text) = (readLines '\n' text).map Str.ofText :=
  readLines_map '\n' (fun _ _ same => CodePoint.scalar.inj same) text

theorem piecesOf_carries (lawful : compressors.Lawful) (method : Method) {body : Text}
    (fits : ∀ line ∈ readLines '\n' (body ++ ['\n']), (utf8 line).length ≤ MAX_CHUNK_SIZE + 1) :
    ∃ pieces groups, piecesOf compressors method (Str.ofText (body ++ ['\n'])) = (pieces, true) ∧
      List.Forall₂ (Piece.Carries compressors) pieces groups ∧ groups.flatten = readLines '\n' (body ++ ['\n']) := by
  unfold piecesOf
  rw [readLines_ofText]
  exact iterChunkCompress_carries lawful _ [] .new (fun line member => ended_of_mem_readLines '\n' member) fits

/-- Writing a text that can be encoded appends it. -/
theorem appendLog_ok (lawful : compressors.Lawful) (configured : Option Method) {log : Log} (sound : log.Sound compressors)
    {body : Text} (fits : ∀ line ∈ readLines '\n' (body ++ ['\n']), (utf8 line).length ≤ MAX_CHUNK_SIZE + 1) :
    ∃ written, appendLog compressors configured (Str.ofText (body ++ ['\n'])) log =
        (written, some (log.numLines, log.numLines + body.count '\n')) ∧
      written.Sound compressors ∧ textOf compressors written.chunks = textOf compressors log.chunks ++ (body ++ ['\n']) ∧
      written.numLines = log.numLines + (body ++ ['\n']).count '\n' := by
  obtain ⟨pieces, groups, yielded, carried, flattened⟩ :=
    piecesOf_carries lawful (Compressors.configured configured) fits
  have ended : ∀ group ∈ groups, ∀ line ∈ group, Ended line := fun group inside line member =>
    ended_of_mem_readLines '\n' (flattened ▸ List.mem_flatten.mpr ⟨group, inside, member⟩)
  obtain ⟨inserted, lastLine, result, covers, soundChunks, text, _, _, lastly⟩ :=
    insertPieces_sound carried ended sound.covers sound.sound log.numLines
  have count : groups.flatten.length = body.count '\n' + 1 := by rw [flattened, length_readLines]
  have filled : groups ≠ [] := by
    rintro rfl
    simp at count
  have last := lastly filled
  refine ⟨{ inserted with numLines := lastLine + 1 }, ?_, ⟨?_, soundChunks⟩, ?_, ?_⟩
  · have trailing : (Str.ofText (body ++ ['\n'])).getLast? = some lineEnd := by simp [Str.ofText, lineEnd]
    unfold appendLog
    rw [if_pos trailing, yielded]
    simp only [result, if_true]
    rw [show lastLine = log.numLines + body.count '\n' by omega]
  · rw [← last] at covers
    exact covers
  · rw [text, flattened, readLines_flatten]
  · simp only [List.count_append, List.count_singleton_self]
    omega

/-- Whatever cannot be encoded makes the call raise. -/
theorem iterChunkCompress_encodable {method : Method} (lines : List Str) (pending : List (List UInt8)) (linesSize : Nat)
    (obj : (compressors.byId method).CompressObj)
    (finished : (iterChunkCompress (compressors.byId method) method lines pending linesSize obj).2 = true) :
    ∀ line ∈ lines, line.Encodable := by
  induction lines generalizing pending linesSize obj with
  | nil => nofun
  | cons line rest ih =>
    rw [iterChunkCompress] at finished
    cases encoded : encode line with
    | none => simp [encoded] at finished
    | some bytes =>
      have encodable : line.Encodable := by
        obtain ⟨text, found, _⟩ := Option.map_eq_some_iff.mp encoded
        exact Option.isSome_iff_exists.mpr ⟨text, found⟩
      have later : ∀ other ∈ rest, other.Encodable := by
        simp only [encoded] at finished
        split at finished
        · cases finished
        · split_ifs at finished
          · split at finished
            · cases finished
            · exact ih _ _ _ finished
          · exact ih _ _ _ finished
      intro other member
      rcases List.mem_cons.mp member with rfl | member
      · exact encodable
      · exact later other member

theorem encodable_flatten {lines : List Str} (each : ∀ line ∈ lines, line.Encodable) : Str.Encodable lines.flatten := by
  induction lines with
  | nil => rfl
  | cons line lines ih =>
    obtain ⟨text, rfl⟩ := Str.encodable_iff.mp (each line List.mem_cons_self)
    obtain ⟨rest, same⟩ := Str.encodable_iff.mp (ih fun other member => each other (List.mem_cons_of_mem _ member))
    exact Str.encodable_iff.mpr ⟨text ++ rest, by rw [List.flatten_cons, same]; simp [Str.ofText]⟩

/-- A call that returns has encoded its content. -/
theorem encodable_of_appendLog {configured : Option Method} {content : Str} {log : Log} {pair : Nat × Nat}
    (returned : (appendLog compressors configured content log).2 = some pair) : content.Encodable := by
  unfold appendLog at returned
  split_ifs at returned
  simp only at returned
  split_ifs at returned with finished
  · have each := iterChunkCompress_encodable _ _ _ _ finished
    exact readLines_flatten lineEnd content ▸ encodable_flatten each

/-- `appendLog` called for one content after another. -/
def appendAll (compressors : Compressors) : List (Option Method × Str) → Log → Log × List (Option (Nat × Nat))
  | [], log => (log, [])
  | (configured, content) :: calls, log =>
      let (log, returned) := appendLog compressors configured content log
      let (log, others) := appendAll compressors calls log
      (log, returned :: others)

/-- A content that ends with a newline, with no line of more than `MAX_CHUNK_SIZE` bytes before its newline. -/
structure Writable (content : Str) : Prop where
  ends : content.getLast? = some lineEnd
  fits : ∀ line ∈ readLines lineEnd content, ∀ bytes, encode line = some bytes → bytes.length ≤ MAX_CHUNK_SIZE + 1

/-- The number of lines before each content and the index of its last line. -/
def pairs : Nat → List Str → List (Option (Nat × Nat))
  | _, [] => []
  | lines, content :: contents =>
      some (lines, lines + content.count lineEnd - 1) :: pairs (lines + content.count lineEnd) contents

/-- The log reads back as written. -/
structure ReadsBack (compressors : Compressors) (calls : List (Option Method × Str)) : Prop where
  returned : (appendAll compressors calls .new).2 = pairs 0 (calls.map Prod.snd)
  covers : Covers 0 (appendAll compressors calls .new).1.chunks (appendAll compressors calls .new).1.numLines
  counted : (appendAll compressors calls .new).1.numLines = (readLines lineEnd (calls.map Prod.snd).flatten).length
  reads : ∀ first last, first ≤ last →
    (getLogLines compressors (appendAll compressors calls .new).1 first last).map Str.ofText =
      some (((readLines lineEnd (calls.map Prod.snd).flatten).drop first).take (last + 1 - first)).flatten

theorem Writable.exists_text {content : Str} (writable : Writable content) (encodable : content.Encodable) :
    ∃ body, content = Str.ofText (body ++ ['\n']) ∧
      ∀ line ∈ readLines '\n' (body ++ ['\n']), (utf8 line).length ≤ MAX_CHUNK_SIZE + 1 := by
  obtain ⟨text, rfl⟩ := Str.encodable_iff.mp encodable
  obtain ⟨body, rfl⟩ := exists_body writable.ends
  refine ⟨body, rfl, fun line member => ?_⟩
  refine writable.fits (Str.ofText line) ?_ _ (by simp [encode])
  rw [readLines_ofText]
  exact List.mem_map_of_mem member

theorem count_ofText (text : Text) : (Str.ofText text).count lineEnd = text.count '\n' :=
  List.count_map_of_injective text CodePoint.scalar (fun _ _ same => CodePoint.scalar.inj same) '\n'

/-- Contents that can be encoded are written one behind another. -/
theorem appendAll_ok (lawful : compressors.Lawful) {calls : List (Option Method × Str)}
    (writable : ∀ call ∈ calls, Writable call.2) (encodable : ∀ call ∈ calls, call.2.Encodable)
    {log : Log} (sound : log.Sound compressors) :
    ∃ written text, appendAll compressors calls log = (written, pairs log.numLines (calls.map Prod.snd)) ∧
      written.Sound compressors ∧ (calls.map Prod.snd).flatten = Str.ofText text ∧
      textOf compressors written.chunks = textOf compressors log.chunks ++ text := by
  induction calls generalizing log with
  | nil => exact ⟨log, [], rfl, sound, rfl, by simp⟩
  | cons call calls ih =>
    obtain ⟨configured, content⟩ := call
    obtain ⟨body, rfl, fits⟩ := (writable _ List.mem_cons_self).exists_text (encodable _ List.mem_cons_self)
    obtain ⟨written, appended, soundNow, textNow, lines⟩ := appendLog_ok lawful configured sound fits
    obtain ⟨after, text, result, soundLater, contents, textLater⟩ :=
      ih (fun other member => writable other (List.mem_cons_of_mem _ member))
        (fun other member => encodable other (List.mem_cons_of_mem _ member)) soundNow
    refine ⟨after, body ++ ['\n'] ++ text, ?_, soundLater, ?_, ?_⟩
    · have count : (Str.ofText (body ++ ['\n'])).count lineEnd = body.count '\n' + 1 := by
        rw [count_ofText, List.count_append, List.count_singleton_self]
      rw [List.count_append, List.count_singleton_self] at lines
      simp only [appendAll, appended, result, List.map_cons, pairs, count, lines]
      rw [show log.numLines + (body.count '\n' + 1) - 1 = log.numLines + body.count '\n' by omega]
    · rw [List.map_cons, List.flatten_cons, contents]
      simp [Str.ofText]
    · rw [textLater, textNow, List.append_assoc]

theorem encodable_of_pairs {calls : List (Option Method × Str)} {log : Log} {lines : Nat}
    (returned : (appendAll compressors calls log).2 = pairs lines (calls.map Prod.snd)) :
    ∀ call ∈ calls, call.2.Encodable := by
  induction calls generalizing log lines with
  | nil => nofun
  | cons call calls ih =>
    simp only [appendAll, List.map_cons, pairs, List.cons.injEq] at returned
    intro other member
    rcases List.mem_cons.mp member with rfl | member
    · exact encodable_of_appendLog returned.1
    · exact ih returned.2 other member

theorem mem_flatten_iff {calls : List (Option Method × Str)} {text : Text}
    (contents : (calls.map Prod.snd).flatten = Str.ofText text) :
    '\r' ∉ text ↔ ∀ call ∈ calls, CodePoint.scalar '\r' ∉ call.2 := by
  have inside : '\r' ∈ text ↔ CodePoint.scalar '\r' ∈ (calls.map Prod.snd).flatten := by
    simp [contents, Str.ofText]
  rw [inside]
  constructor
  · intro none call member within
    exact none (List.mem_flatten.mpr ⟨call.2, List.mem_map_of_mem member, within⟩)
  · intro none within
    obtain ⟨content, member, within⟩ := List.mem_flatten.mp within
    obtain ⟨call, called, rfl⟩ := List.mem_map.mp member
    exact none call called within

theorem Log.new_sound : Log.new.Sound compressors := ⟨rfl, nofun⟩

/-- The reader shows no carriage return, so there can be none in what reads back. -/
theorem ReadsBack.carriage_not_mem {calls : List (Option Method × Str)} (back : ReadsBack compressors calls)
    (lawful : compressors.Lawful) (writable : ∀ call ∈ calls, Writable call.2) :
    ∀ call ∈ calls, CodePoint.scalar '\r' ∉ call.2 := by
  obtain ⟨written, text, result, sound, contents, stored⟩ :=
    appendAll_ok lawful writable (encodable_of_pairs back.returned) Log.new_sound
  -- the whole of the log is what was written
  have whole := back.reads 0 written.numLines (Nat.zero_le _)
  have counted := back.counted
  rw [result] at whole counted
  simp only at whole counted
  rw [getLogLines_eq sound, List.drop_zero, List.take_of_length_le (by omega), readLines_flatten, contents,
    Option.map_some, Option.some.injEq] at whole
  refine (mem_flatten_iff contents).mp ?_
  rw [← Str.ofText_injective whole]
  simp only [List.mem_flatten, List.mem_flatMap, not_exists, not_and]
  rintro line ⟨chunk, _, shown⟩
  exact carriage_not_mem_shows chunk shown

/-- What has been written reads back exactly when all of it can be encoded and none of it is a carriage return. -/
theorem readsBack_iff (compressors : Compressors) (lawful : compressors.Lawful) (calls : List (Option Method × Str))
    (writable : ∀ call ∈ calls, Writable call.2) :
    ReadsBack compressors calls ↔ ∀ call ∈ calls, call.2.Encodable ∧ CodePoint.scalar '\r' ∉ call.2 := by
  constructor
  · intro back call member
    exact ⟨encodable_of_pairs back.returned call member, back.carriage_not_mem lawful writable call member⟩
  · intro fine
    obtain ⟨written, text, result, sound, contents, stored⟩ :=
      appendAll_ok lawful writable (fun call member => (fine call member).1) Log.new_sound
    have none : '\r' ∉ text := (mem_flatten_iff contents).mpr fun call member => (fine call member).2
    have stored : textOf compressors written.chunks = text := stored
    have lines : readLines lineEnd (calls.map Prod.snd).flatten = (written.lines compressors).map Str.ofText := by
      rw [contents, readLines_ofText, Log.lines, stored]
    refine ⟨by rw [result]; rfl, by rw [result]; exact sound.covers, ?_, fun first last _ => ?_⟩
    · have counted := length_lines sound.covers sound.sound
      rw [result, lines, List.length_map]
      simpa [Log.lines] using counted.symm
    · rw [result, getLogLines_of_not_mem sound (stored ▸ none), lines, ← List.map_drop, ← List.map_take,
        Option.map_some, Str.ofText, List.map_flatten]
      rfl

section Instances

theorem writable_of_decide {content : Str} (ends : content.getLast? = some lineEnd)
    (fits : ((readLines lineEnd content).all fun line => (encode line).all fun bytes =>
      decide (bytes.length ≤ MAX_CHUNK_SIZE + 1)) = true) : Writable content := by
  refine ⟨ends, fun line member bytes encoded => ?_⟩
  have each := List.all_eq_true.mp fits line member
  simpa [encoded] using each

def twice : List (Option Method × Str) := [(some .raw, .literal "one\ntwo\n"), (none, .literal "\n")]

theorem twice_readsBack : ReadsBack uncompressed twice :=
  (readsBack_iff uncompressed uncompressed_lawful twice (by
    rintro call member
    rcases List.mem_cons.mp member with rfl | member
    · exact writable_of_decide (by decide) (by decide)
    · obtain rfl := List.mem_singleton.mp member
      exact writable_of_decide (by decide) (by decide))).mpr (by decide)

/-- A line with a carriage return in it reads back as two. -/
theorem carriageReturn_not_readsBack : ¬ ReadsBack uncompressed [(some .raw, .literal "a\rb\n")] := by
  intro back
  have none := back.carriage_not_mem uncompressed_lawful (by
    rintro call member
    obtain rfl := List.mem_singleton.mp member
    exact writable_of_decide (by decide) (by decide)) _ List.mem_cons_self
  revert none
  decide

end Instances

end Umbilical.Logs
