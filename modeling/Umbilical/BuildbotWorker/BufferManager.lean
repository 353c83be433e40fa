import Umbilical.BuildbotWorker.LineBoundaryFinder
import Umbilical.Logs.StreamLog
import Mathlib.Algebra.BigOperators.Group.List.Basic
import Mathlib.Data.List.GetD

set_option autoImplicit false

/-!
# Messages to the master

What a command has to say is collected until it fills a message. Lines of one log are joined, and lines that do not
fit into one message are sent in several.
-/

namespace Umbilical.BuildbotWorker

open Python Lines Logs

variable {τ ν : Type}

inductive Stream where
  | stdout
  | stderr
  | header
  deriving DecidableEq

/-- A log name and its data: with the name of the log for `"log"`, and any other value with any other name. -/
inductive Entry (τ ν : Type) where
  | log (name : String) (info : LineInfo τ)
  | stream (logname : Stream) (info : LineInfo τ)
  | other (logname : String) (value : ν)

def LineInfo.len (info : LineInfo τ) : Int :=
  info.text.length + 8 * (info.lfPositions.length + info.lineTimes.length)

namespace Entry

def len : Entry τ ν → Int
  | .log _ info | .stream _ info => info.len
  | .other _ _ => 20

end Entry

def joinLineInfo (previous new : LineInfo τ) : LineInfo τ where
  text := previous.text ++ new.text
  lfPositions := previous.lfPositions ++ new.lfPositions.map (previous.text.length + ·)
  lineTimes := previous.lineTimes ++ new.lineTimes

def Entry.join : Entry τ ν → Entry τ ν → Option (Entry τ ν)
  | .log name previous, .log name' new => if name = name' then some (.log name' (joinLineInfo previous new)) else none
  | .stream logname previous, .stream logname' new =>
    if logname = logname' then some (.stream logname' (joinLineInfo previous new)) else none
  | _, _ => none

def bufferedAppendMaybeJoinLines (buffered : List (Entry τ ν)) (entry : Entry τ ν) : List (Entry τ ν) :=
  match buffered.getLast?.bind (·.join entry) with
  | some joined => buffered.dropLast ++ [joined]
  | none => buffered ++ [entry]

section Split

variable (bufferSize : Int) (info : LineInfo τ)

/-- `data[1][index]` -/
def LineInfo.position (index : Nat) : Int := info.lfPositions.getD index 0

/-- `line_size` of the lines from `posStart` to before `posEnd` -/
def LineInfo.lineSize (posStart posEnd : Nat) : Int :=
  let stringPartSize :=
    if posStart = 0 then info.position (posEnd - 1) + 1 else info.position (posEnd - 1) - info.position (posStart - 1)
  stringPartSize + ((posEnd - posStart : Nat) : Int) * 8 + ((posEnd - posStart : Nat) : Int) * 8

/-- The loop that looks for the last line that still fits; its rounds are no more than the lines. -/
def LineInfo.findEnd (posStart : Nat) : Nat → Nat → Nat
  | 0, posEnd => posEnd
  | rounds + 1, posEnd =>
    if posEnd ≤ info.lfPositions.length then
      if info.lineSize posStart posEnd ≤ bufferSize then findEnd posStart rounds (posEnd + 1)
      else if posEnd > posStart + 1 then posEnd - 1
      else posEnd
    else posEnd

def LineInfo.posEnd (posStart : Nat) : Nat :=
  let posEnd := info.findEnd bufferSize posStart (info.lfPositions.length + 1) (posStart + 1)
  if posEnd > info.lfPositions.length then posEnd - 1 else posEnd

/-- The lines from `posStart` to before `posEnd` -/
def LineInfo.part (posStart posEnd : Nat) : LineInfo τ :=
  let posSubstringEnd := info.lfPositions.getD (posEnd - 1) 0 + 1
  if posStart ≠ 0 then
    let posSubstringStart := info.lfPositions.getD (posStart - 1) 0 + 1
    { text := slice info.text posSubstringStart posSubstringEnd
      lfPositions := ((info.lfPositions.take posEnd).drop posStart).map (· - posSubstringStart)
      lineTimes := (info.lineTimes.take posEnd).drop posStart }
  else
    { text := info.text.take posSubstringEnd
      lfPositions := info.lfPositions.take posEnd
      lineTimes := info.lineTimes.take posEnd }

/-- The loop over the parts; each of its rounds takes a line at least. -/
def LineInfo.parts : Nat → Nat → List (LineInfo τ)
  | 0, _ => []
  | rounds + 1, posStart =>
    if posStart < info.lfPositions.length then
      info.part posStart (info.posEnd bufferSize posStart) :: parts rounds (info.posEnd bufferSize posStart)
    else []

/-- The messages of an entry that does not fit into one. -/
def Entry.split : Entry τ ν → List (List (Entry τ ν))
  | .other logname value => [[.other logname value]]
  | .log name info => (info.parts bufferSize info.lfPositions.length 0).map fun part => [.log name part]
  | .stream logname info => (info.parts bufferSize info.lfPositions.length 0).map fun part => [.stream logname part]

end Split

/-- `timer` says that `_send_message_timer` is there. -/
structure BufferManager (τ ν : Type) where
  bufferSize : Int
  buflen : Int
  buffered : List (Entry τ ν)
  timer : Bool

namespace BufferManager

variable (manager : BufferManager τ ν)

def new (bufferSize : Int) : BufferManager τ ν where
  bufferSize := bufferSize
  buflen := 0
  buffered := []
  timer := false

/-- The messages that go to the consumer. -/
def sendMessage (data : List (Entry τ ν)) : List (List (Entry τ ν)) := if data.length = 0 then [] else [data]

def sendMessageFromBuffer : BufferManager τ ν × List (List (Entry τ ν)) :=
  ({ manager with buffered := [], buflen := 0, timer := false }, sendMessage manager.buffered)

def append (entry : Entry τ ν) : BufferManager τ ν × List (List (Entry τ ν)) :=
  if entry.len ≤ manager.bufferSize - manager.buflen then
    ({ manager with
      buffered := match entry with
        | .other _ _ => manager.buffered ++ [entry]
        | .log _ _ | .stream _ _ => bufferedAppendMaybeJoinLines manager.buffered entry
      buflen := manager.buflen + entry.len
      timer := true }, [])
  else
    let (manager, sent) := manager.sendMessageFromBuffer
    if entry.len ≤ manager.bufferSize then
      ({ manager with
        buffered := manager.buffered ++ [entry]
        buflen := manager.buflen + entry.len
        timer := true }, sent)
    else (manager, sent ++ entry.split manager.bufferSize)

def flush : BufferManager τ ν × List (List (Entry τ ν)) :=
  if manager.buffered.length > 0 then manager.sendMessageFromBuffer else (manager, [])

end BufferManager

inductive BufferEvent (τ ν : Type) where
  | append (entry : Entry τ ν)
  | flush
  /-- The time of the timer has come. -/
  | timeout

namespace BufferManager

def step (manager : BufferManager τ ν) : BufferEvent τ ν → BufferManager τ ν × List (List (Entry τ ν))
  | .append entry => manager.append entry
  | .flush => manager.flush
  | .timeout => if manager.timer then manager.sendMessageFromBuffer else (manager, [])

/-- The messages of a run, in the order in which they are sent. -/
def run : BufferManager τ ν → List (BufferEvent τ ν) → BufferManager τ ν × List (List (Entry τ ν))
  | manager, [] => (manager, [])
  | manager, event :: events =>
    let (manager, sent) := manager.step event
    let (manager, later) := run manager events
    (manager, sent ++ later)

end BufferManager

/-- A line of a log or a stream with its time, or another value. -/
inductive Item (τ ν : Type) where
  | logLine (name : String) (line : Text) (time : τ)
  | streamLine (logname : Stream) (line : Text) (time : τ)
  | value (logname : String) (value : ν)

namespace Entry

def items : Entry τ ν → List (Item τ ν)
  | .log name info => info.timedLines.map fun line => .logLine name line.1 line.2
  | .stream logname info => info.timedLines.map fun line => .streamLine logname line.1 line.2
  | .other logname value => [.value logname value]

def WellFormed : Entry τ ν → Prop
  | .log _ info | .stream _ info => info.WellFormed
  | .other _ _ => True

/-- A single line, or another value. -/
def Single : Entry τ ν → Prop
  | .log _ info | .stream _ info => info.lfPositions.length = 1
  | .other _ _ => True

end Entry

/-- The accounted size of a message. -/
def messageLen (message : List (Entry τ ν)) : Int := (message.map Entry.len).sum

def items (message : List (Entry τ ν)) : List (Item τ ν) := message.flatMap Entry.items

def BufferEvent.items : BufferEvent τ ν → List (Item τ ν)
  | .append entry => entry.items
  | .flush | .timeout => []

section Positions

theorem lfPositionsFrom_append (start : Nat) (front back : Text) : lfPositionsFrom start (front ++ back) =
    lfPositionsFrom start front ++ lfPositionsFrom (start + front.length) back := by
  induction front generalizing start with
  | nil => rfl
  | cons char front ih =>
    rw [List.cons_append, lfPositionsFrom, lfPositionsFrom, ih, List.length_cons, Nat.add_right_comm, Nat.add_assoc start]
    split
    · rfl
    · rfl

theorem lfPositionsFrom_add (start more : Nat) (text : Text) :
    lfPositionsFrom (more + start) text = (lfPositionsFrom start text).map (more + ·) := by
  induction text generalizing start with
  | nil => rfl
  | cons char text ih =>
    rw [lfPositionsFrom, lfPositionsFrom, Nat.add_assoc, ih]
    split
    · rfl
    · rfl

variable {lines : List Text}

theorem length_lfPositionsFrom (ended : ∀ line ∈ lines, EndedLine line) (start : Nat) :
    (lfPositionsFrom start lines.flatten).length = lines.length := by
  induction lines generalizing start with
  | nil => rfl
  | cons line lines ih =>
    obtain ⟨body, free, rfl⟩ := ended line List.mem_cons_self
    rw [List.flatten_cons, lfPositionsFrom_append, List.length_append, ih fun other member =>
      ended other (List.mem_cons_of_mem _ member), lfPositionsFrom_line free, List.length_cons]
    exact Nat.add_comm _ _

/-- The last newline is the last character. -/
theorem getD_lfPositionsFrom (ended : ∀ line ∈ lines, EndedLine line) (some : lines ≠ []) (start : Nat)
    (more : List Nat) :
    (lfPositionsFrom start lines.flatten ++ more).getD (lines.length - 1) 0 + 1 = start + lines.flatten.length := by
  obtain ⟨front, last, rfl⟩ := List.eq_nil_or_concat lines |>.resolve_left some
  rw [List.concat_eq_append] at *
  obtain ⟨body, free, rfl⟩ := ended last (List.mem_append_right _ (List.mem_singleton_self _))
  have before := length_lfPositionsFrom (fun line member => ended line (List.mem_append_left _ member)) start
  have index : (front ++ [body ++ ['\n']]).length - 1 = (lfPositionsFrom start front.flatten).length := by
    rw [before, List.length_append, List.length_singleton, Nat.add_sub_cancel]
  rw [index, List.flatten_append, List.flatten_singleton, lfPositionsFrom_append, lfPositionsFrom_line free,
    List.append_assoc, List.getD_append_right _ _ _ _ le_rfl, Nat.sub_self, List.cons_append, List.getD_cons_zero,
    List.length_append, List.length_append, List.length_singleton, Nat.add_assoc, Nat.add_assoc]

theorem whole_flatten (ended : ∀ line ∈ lines, EndedLine line) : Whole '\n' lines.flatten := by
  induction lines with
  | nil => exact .inl rfl
  | cons line lines ih =>
    obtain ⟨body, -, rfl⟩ := ended line List.mem_cons_self
    exact Whole.append (.inr ⟨body, rfl⟩) (ih fun other member => ended other (List.mem_cons_of_mem _ member))

end Positions

section Parts

variable {info : LineInfo τ} {before between : List Text} {after : Text}

namespace LineInfo

theorem WellFormed.length_lfPositions (wellFormed : info.WellFormed) :
    info.lfPositions.length = (readLines '\n' info.text).length := by
  have all := length_lfPositionsFrom (fun _ member => wellFormed.whole.ended member) 0
  rw [readLines_flatten] at all
  rw [wellFormed.positions, getLfPositions, all]

/-- The lines up to one of them end after its newline. -/
theorem position_last (positions : info.lfPositions = getLfPositions info.text)
    (split : info.text = before.flatten ++ after) (ended : ∀ line ∈ before, EndedLine line) (some : before ≠ []) :
    info.lfPositions.getD (before.length - 1) 0 + 1 = before.flatten.length := by
  rw [positions, getLfPositions, split, lfPositionsFrom_append, getD_lfPositionsFrom ended some, Nat.zero_add]

theorem part_eq (positions : info.lfPositions = getLfPositions info.text)
    (split : info.text = before.flatten ++ between.flatten ++ after) (ended : ∀ line ∈ before ++ between, EndedLine line)
    (some : between ≠ []) : info.part before.length (before.length + between.length) =
      { text := between.flatten
        lfPositions := getLfPositions between.flatten
        lineTimes := (info.lineTimes.take (before.length + between.length)).drop before.length } := by
  have substringEnd := position_last positions (by rw [split, List.flatten_append]) ended
    (List.append_ne_nil_of_right_ne_nil _ some)
  have counted := length_lfPositionsFrom (fun line member => ended line (List.mem_append_left _ member)) 0
  have countedBetween :=
    length_lfPositionsFrom (fun line member => ended line (List.mem_append_right _ member)) before.flatten.length
  rw [List.length_append, List.flatten_append, List.length_append] at substringEnd
  -- The newlines before the lines, in them and after them.
  have parted : info.lfPositions = getLfPositions before.flatten ++
      (lfPositionsFrom before.flatten.length between.flatten ++
        lfPositionsFrom (before.flatten.length + between.flatten.length) after) := by
    rw [positions, getLfPositions, split, List.append_assoc, lfPositionsFrom_append, lfPositionsFrom_append,
      Nat.zero_add]
    rfl
  have taken : (info.lfPositions.take (before.length + between.length)).drop before.length =
      lfPositionsFrom before.flatten.length between.flatten := by
    rw [parted, ← List.append_assoc, List.take_left' (by rw [List.length_append, getLfPositions, counted, countedBetween])]
    exact List.drop_left' counted
  have shifted : (lfPositionsFrom before.flatten.length between.flatten).map (· - before.flatten.length) =
      getLfPositions between.flatten := by
    rw [← Nat.add_zero before.flatten.length, lfPositionsFrom_add, List.map_map]
    exact (List.map_congr_left fun position _ => Nat.add_sub_cancel_left _ _).trans (List.map_id _)
  unfold part
  split
  · rename_i notFirst
    have substringStart := position_last positions (by rw [split, List.append_assoc])
      (fun line member => ended line (List.mem_append_left _ member))
      (List.ne_nil_of_length_pos (Nat.pos_of_ne_zero notFirst))
    dsimp only
    rw [substringStart, substringEnd, split, slice_append, taken, shifted]
  · rename_i first
    obtain rfl := List.length_eq_zero_iff.mp (not_not.mp first)
    rw [List.flatten_nil, List.nil_append] at split
    rw [List.length_nil, Nat.zero_add, List.drop_zero] at taken
    rw [List.length_nil, Nat.zero_add, List.flatten_nil, List.length_nil, Nat.zero_add] at substringEnd
    dsimp only
    rw [List.length_nil, Nat.zero_add, substringEnd, taken, split, List.take_left, List.drop_zero]
    rfl

/-- The size of the lines is what they will be accounted for when they are sent. -/
theorem lineSize_eq (positions : info.lfPositions = getLfPositions info.text)
    (split : info.text = before.flatten ++ between.flatten ++ after) (ended : ∀ line ∈ before ++ between, EndedLine line)
    (some : between ≠ []) : info.lineSize before.length (before.length + between.length) =
      between.flatten.length + 8 * (between.length + between.length) := by
  have substringEnd := position_last positions (by rw [split, List.flatten_append]) ended
    (List.append_ne_nil_of_right_ne_nil _ some)
  rw [List.length_append, List.flatten_append, List.length_append] at substringEnd
  unfold lineSize position
  dsimp only
  split
  · rename_i first
    obtain rfl := List.length_eq_zero_iff.mp first
    simp only [List.length_nil, List.flatten_nil, Nat.zero_add] at substringEnd ⊢
    omega
  · rename_i notFirst
    have substringStart := position_last positions (by rw [split, List.append_assoc])
      (fun line member => ended line (List.mem_append_left _ member))
      (List.ne_nil_of_length_pos (Nat.pos_of_ne_zero notFirst))
    omega

variable {posStart posEnd : Nat}

/-- A part is well formed, and its size is what the loop reckons with. -/
theorem WellFormed.part (wellFormed : info.WellFormed) (some : posStart < posEnd)
    (within : posEnd ≤ info.lfPositions.length) :
    (info.part posStart posEnd).WellFormed ∧ (info.part posStart posEnd).lfPositions.length = posEnd - posStart ∧
      (info.part posStart posEnd).len = info.lineSize posStart posEnd ∧
      (info.part posStart posEnd).timedLines = (info.timedLines.take posEnd).drop posStart := by
  rw [wellFormed.length_lfPositions] at within
  obtain ⟨lines, read⟩ : ∃ lines, lines = readLines '\n' info.text := ⟨_, rfl⟩
  have ended : ∀ line ∈ lines, EndedLine line := fun _ member => wellFormed.whole.ended (read ▸ member)
  have times : info.lineTimes.length = lines.length := read ▸ wellFormed.times
  have timed : info.timedLines = lines.zip info.lineTimes := by rw [LineInfo.timedLines, read]
  rw [← read] at within
  -- The lines before the part, those of the part and those after it.
  obtain ⟨before, started⟩ : ∃ before, before = lines.take posStart := ⟨_, rfl⟩
  obtain ⟨between, taken⟩ : ∃ between, between = (lines.take posEnd).drop posStart := ⟨_, rfl⟩
  have front : before ++ between = lines.take posEnd := by
    have parted := List.take_append_drop posStart (lines.take posEnd)
    rwa [List.take_take, min_eq_left some.le, ← started, ← taken] at parted
  have startedLength : before.length = posStart := by
    rw [started, List.length_take, min_eq_left (some.le.trans within)]
  have takenLength : between.length = posEnd - posStart := by
    rw [taken, List.length_drop, List.length_take, min_eq_left within]
  have split : info.text = before.flatten ++ between.flatten ++ (lines.drop posEnd).flatten := by
    rw [← List.flatten_append, ← List.flatten_append, front, List.take_append_drop, read, readLines_flatten]
  have endedFront : ∀ line ∈ before ++ between, EndedLine line := fun line member =>
    ended line (List.mem_of_mem_take (front ▸ member))
  have something : between ≠ [] := List.ne_nil_of_length_pos (by omega)
  have same : before.length + between.length = posEnd := by omega
  have part := part_eq wellFormed.positions split endedFront something
  have size := lineSize_eq wellFormed.positions split endedFront something
  rw [same, startedLength] at part size
  have readBetween : readLines '\n' between.flatten = between :=
    readLines_ended fun line member => endedFront line (List.mem_append_right _ member)
  have counted := length_lfPositionsFrom (fun line member => endedFront line (List.mem_append_right _ member)) 0
  have timesLength : ((info.lineTimes.take posEnd).drop posStart).length = between.length := by
    rw [List.length_drop, List.length_take, times, min_eq_left within, takenLength]
  rw [part, size]
  refine ⟨⟨?_, rfl, ?_⟩, ?_, ?_, ?_⟩
  · exact whole_flatten fun line member => endedFront line (List.mem_append_right _ member)
  · rw [timesLength, readBetween]
  · rw [getLfPositions, counted, takenLength]
  · rw [len, timesLength, getLfPositions, counted]
  · rw [timed, LineInfo.timedLines, readBetween, taken, List.zip_eq_zipWith, List.zip_eq_zipWith, List.take_zipWith,
      List.drop_zipWith]

section Loops

variable {bufferSize : Int}

/-- Where the inner loop stops: behind the last line, before one that no longer fits, or behind one that does not fit. -/
theorem findEnd_spec {rounds : Nat} (after : posStart < posEnd) (within : posEnd ≤ info.lfPositions.length + 1)
    (fits : posStart + 1 < posEnd → info.lineSize posStart (posEnd - 1) ≤ bufferSize)
    (enough : info.lfPositions.length + 1 < posEnd + rounds) (some : posStart < info.lfPositions.length) :
    let found := info.findEnd bufferSize posStart rounds posEnd
    posStart < found ∧
      (found ≤ info.lfPositions.length ∧ (posStart + 1 < found → info.lineSize posStart found ≤ bufferSize) ∨
        found = info.lfPositions.length + 1 ∧ info.lineSize posStart info.lfPositions.length ≤ bufferSize) := by
  induction rounds generalizing posEnd with
  | zero => omega
  | succ rounds ih =>
    unfold findEnd
    dsimp only
    split
    · rename_i left
      split
      · rename_i small
        exact ih (by omega) (by omega) (fun _ => small) (by omega)
      · rename_i large
        split
        · rename_i several
          exact ⟨by omega, .inl ⟨by omega, fun _ => fits several⟩⟩
        · exact ⟨after, .inl ⟨left, fun several => by contradiction⟩⟩
    · obtain rfl : posEnd = info.lfPositions.length + 1 := by omega
      exact ⟨after, .inr ⟨rfl, fits (by omega)⟩⟩

/-- One line is taken, or as many as fit. -/
theorem posEnd_spec (some : posStart < info.lfPositions.length) :
    posStart < info.posEnd bufferSize posStart ∧ info.posEnd bufferSize posStart ≤ info.lfPositions.length ∧
      (posStart + 1 < info.posEnd bufferSize posStart →
        info.lineSize posStart (info.posEnd bufferSize posStart) ≤ bufferSize) := by
  obtain ⟨after, ⟨within, fits⟩ | ⟨all, fits⟩⟩ := @findEnd_spec _ info posStart (posStart + 1) bufferSize
    (info.lfPositions.length + 1) (Nat.lt_succ_self _) (by omega) (fun several => absurd several (Nat.lt_irrefl _))
    (by omega) some
  · rw [posEnd, if_neg (Nat.not_lt.mpr within)]
    exact ⟨after, within, fits⟩
  · rw [posEnd, all, if_pos (Nat.lt_succ_self _), Nat.add_sub_cancel]
    exact ⟨some, le_rfl, fun _ => fits⟩

/-- The lines come in parts, each of which fits or is a single line. -/
theorem WellFormed.parts {rounds : Nat} (wellFormed : info.WellFormed) (within : posStart ≤ info.lfPositions.length)
    (enough : info.lfPositions.length ≤ posStart + rounds) :
    (∀ part ∈ info.parts bufferSize rounds posStart,
      part.WellFormed ∧ (bufferSize < part.len → part.lfPositions.length = 1)) ∧
    (info.parts bufferSize rounds posStart).flatMap timedLines = info.timedLines.drop posStart := by
  have counted : info.timedLines.length = info.lfPositions.length := by
    rw [timedLines, List.length_zip, wellFormed.times, min_self, wellFormed.length_lfPositions]
  induction rounds generalizing posStart with
  | zero =>
    refine ⟨fun _ member => absurd member List.not_mem_nil, ?_⟩
    rw [List.drop_eq_nil_of_le (by omega)]
    rfl
  | succ rounds ih =>
    unfold LineInfo.parts
    split
    · rename_i left
      obtain ⟨after, upTo, fits⟩ := @posEnd_spec _ info posStart bufferSize left
      obtain ⟨partWellFormed, partLines, partLen, partTimed⟩ := wellFormed.part after upTo
      obtain ⟨later, timed⟩ := ih upTo (by omega)
      refine ⟨fun part member => ?_, ?_⟩
      · rcases List.mem_cons.mp member with rfl | member
        · refine ⟨partWellFormed, fun large => ?_⟩
          rw [partLen] at large
          rw [partLines]
          have single := mt fits (Int.not_le.mpr large)
          omega
        · exact later part member
      · have parted := List.take_append_drop (info.posEnd bufferSize posStart) info.timedLines
        have before : posStart ≤ (info.timedLines.take (info.posEnd bufferSize posStart)).length := by
          rw [List.length_take, counted, min_eq_left upTo]
          exact after.le
        rw [List.flatMap_cons, partTimed, timed, ← List.drop_append_of_le_length before, parted]
    · refine ⟨fun _ member => absurd member List.not_mem_nil, ?_⟩
      rw [List.drop_eq_nil_of_le (by omega)]
      rfl

end Loops

end LineInfo

end Parts

section Join

variable {previous new : LineInfo τ}

theorem len_joinLineInfo : (joinLineInfo previous new).len = previous.len + new.len := by
  unfold LineInfo.len joinLineInfo
  simp only [List.length_append, List.length_map]
  omega

theorem timedLines_joinLineInfo (wellFormed : previous.WellFormed) :
    (joinLineInfo previous new).timedLines = previous.timedLines ++ new.timedLines := by
  unfold LineInfo.timedLines joinLineInfo
  dsimp only
  rw [readLines_whole wellFormed.whole, List.zip_append wellFormed.times.symm]

theorem LineInfo.WellFormed.joinLineInfo (first : previous.WellFormed) (second : new.WellFormed) :
    (joinLineInfo previous new).WellFormed where
  whole := first.whole.append second.whole
  positions := by
    unfold BuildbotWorker.joinLineInfo
    dsimp only
    rw [first.positions, second.positions, getLfPositions, getLfPositions, getLfPositions, lfPositionsFrom_append,
      ← lfPositionsFrom_add, Nat.zero_add, Nat.add_zero]
  times := by
    unfold BuildbotWorker.joinLineInfo
    dsimp only
    rw [readLines_whole first.whole, List.length_append, List.length_append, first.times, second.times]

variable {entry joined : Entry τ ν} {last : Entry τ ν}

/-- A joined entry says what both said. -/
theorem Entry.join_spec (joins : last.join entry = some joined) (first : last.WellFormed) (second : entry.WellFormed) :
    joined.WellFormed ∧ joined.items = last.items ++ entry.items ∧ joined.len = last.len + entry.len := by
  unfold Entry.join at joins
  split at joins
  · split at joins
    · rename_i same
      cases joins
      refine ⟨first.joinLineInfo second, ?_, len_joinLineInfo⟩
      rw [items, items, items, timedLines_joinLineInfo first, List.map_append, same]
    · cases joins
  · split at joins
    · rename_i same
      cases joins
      refine ⟨first.joinLineInfo second, ?_, len_joinLineInfo⟩
      rw [items, items, items, timedLines_joinLineInfo first, List.map_append, same]
    · cases joins
  · cases joins

theorem messageLen_append (front back : List (Entry τ ν)) :
    messageLen (front ++ back) = messageLen front + messageLen back := by
  rw [messageLen, List.map_append, List.sum_append]
  rfl

theorem messageLen_singleton (entry : Entry τ ν) : messageLen [entry] = entry.len := by
  rw [messageLen, List.map_singleton, List.sum_singleton]

theorem items_append (front back : List (Entry τ ν)) : items (front ++ back) = items front ++ items back :=
  List.flatMap_append

theorem items_singleton (entry : Entry τ ν) : items [entry] = entry.items := List.flatMap_singleton _ _

/-- What is buffered with an entry more -/
structure Adds (buffered : List (Entry τ ν)) (entry : Entry τ ν) (after : List (Entry τ ν)) : Prop where
  wellFormed : ∀ entry ∈ after, entry.WellFormed
  items : items after = BuildbotWorker.items buffered ++ entry.items
  len : messageLen after = messageLen buffered + entry.len

variable {buffered : List (Entry τ ν)}

theorem adds_concat (wellFormed : ∀ entry ∈ buffered, entry.WellFormed) (entryWellFormed : entry.WellFormed) :
    Adds buffered entry (buffered ++ [entry]) where
  wellFormed other member := by
    rcases List.mem_append.mp member with member | member
    · exact wellFormed other member
    · rwa [List.mem_singleton.mp member]
  items := by rw [items_append, items_singleton]
  len := by rw [messageLen_append, messageLen_singleton]

theorem adds_maybeJoined (wellFormed : ∀ entry ∈ buffered, entry.WellFormed) (entryWellFormed : entry.WellFormed) :
    Adds buffered entry (bufferedAppendMaybeJoinLines buffered entry) := by
  unfold bufferedAppendMaybeJoinLines
  split
  · rename_i joined joins
    obtain ⟨last, isLast, found⟩ := Option.bind_eq_some_iff.mp joins
    obtain ⟨front, rfl⟩ := List.getLast?_eq_some_iff.mp isLast
    obtain ⟨joinedWellFormed, joinedItems, joinedLen⟩ :=
      Entry.join_spec found (wellFormed last (List.mem_append_right _ (List.mem_singleton_self _))) entryWellFormed
    have joinedLast := @adds_concat _ _ joined front (fun other among => wellFormed other (List.mem_append_left _ among))
      joinedWellFormed
    rw [List.dropLast_concat]
    refine ⟨joinedLast.wellFormed, ?_, ?_⟩
    · rw [joinedLast.items, joinedItems, items_append, items_singleton, List.append_assoc]
    · rw [joinedLast.len, joinedLen, messageLen_append, messageLen_singleton, Int.add_assoc]
  · exact adds_concat wellFormed entryWellFormed

end Join

section Split

variable {entry : Entry τ ν} {message : List (Entry τ ν)} {bufferSize : Int}

/-- A message of well-formed entries that fits, or says a single thing. -/
structure Sendable (bufferSize : Int) (message : List (Entry τ ν)) : Prop where
  wellFormed : ∀ entry ∈ message, entry.WellFormed
  fits : bufferSize < messageLen message → ∃ entry, message = [entry] ∧ entry.Single

/-- What a log and a stream do alike with the parts of their lines. -/
theorem sendable_parts {info : LineInfo τ} {wrap : LineInfo τ → Entry τ ν} {line : Text × τ → Item τ ν}
    (wellFormed : info.WellFormed) (wraps : ∀ part : LineInfo τ, (part.WellFormed → (wrap part).WellFormed) ∧
      (part.lfPositions.length = 1 → (wrap part).Single) ∧ (wrap part).len = part.len ∧
      (wrap part).items = part.timedLines.map line) :
    let messages := (info.parts bufferSize info.lfPositions.length 0).map fun part => [wrap part]
    (∀ message ∈ messages, Sendable bufferSize message) ∧ messages.flatMap items = info.timedLines.map line := by
  intro messages
  obtain ⟨each, timed⟩ := @LineInfo.WellFormed.parts _ info 0 bufferSize info.lfPositions.length wellFormed
    (Nat.zero_le _) (Nat.zero_add _).ge
  refine ⟨fun message member => ?_, ?_⟩
  · obtain ⟨part, among, rfl⟩ := List.mem_map.mp member
    obtain ⟨partWellFormed, single⟩ := each part among
    obtain ⟨wrapped, wrappedSingle, wrappedLen, -⟩ := wraps part
    refine ⟨fun entry member => ?_, fun large => ⟨_, rfl, ?_⟩⟩
    · rw [List.mem_singleton.mp member]
      exact wrapped partWellFormed
    · rw [messageLen_singleton, wrappedLen] at large
      exact wrappedSingle (single large)
  · rw [List.drop_zero] at timed
    rw [List.flatMap_map, ← timed, List.map_flatMap]
    refine List.flatMap_congr fun part _ => ?_
    rw [items_singleton, (wraps part).2.2.2]

theorem Entry.split_sendable (wellFormed : entry.WellFormed) :
    (∀ message ∈ entry.split bufferSize, Sendable bufferSize message) ∧
      (entry.split bufferSize).flatMap BuildbotWorker.items = entry.items := by
  cases entry with
  | other logname value =>
    refine ⟨fun message member => ?_, rfl⟩
    rw [List.mem_singleton.mp member]
    refine ⟨fun entry among => ?_, fun _ => ⟨_, rfl, trivial⟩⟩
    rw [List.mem_singleton.mp among]
    trivial
  | log name info => exact sendable_parts wellFormed fun _ => ⟨id, id, rfl, rfl⟩
  | stream logname info => exact sendable_parts wellFormed fun _ => ⟨id, id, rfl, rfl⟩

end Split

namespace BufferManager

variable {manager : BufferManager τ ν} {entry : Entry τ ν}

structure Sound (manager : BufferManager τ ν) : Prop where
  wellFormed : ∀ entry ∈ manager.buffered, entry.WellFormed
  buflen : manager.buflen = messageLen manager.buffered
  fits : manager.buffered ≠ [] → manager.buflen ≤ manager.bufferSize
  idle : manager.timer = false → manager.buffered = []

/-- What a call does with what was buffered and what it is told. -/
structure Passes (manager : BufferManager τ ν) (told : List (Item τ ν)) (after : BufferManager τ ν)
    (sent : List (List (Entry τ ν))) : Prop where
  sound : after.Sound
  bufferSize : after.bufferSize = manager.bufferSize
  sendable : ∀ message ∈ sent, Sendable manager.bufferSize message
  items : sent.flatMap items ++ BuildbotWorker.items after.buffered = BuildbotWorker.items manager.buffered ++ told

theorem new_sound (bufferSize : Int) : (new bufferSize : BufferManager τ ν).Sound where
  wellFormed _ member := absurd member List.not_mem_nil
  buflen := rfl
  fits some := absurd rfl some
  idle _ := rfl

theorem Sound.keeps (sound : manager.Sound) : manager.Passes [] manager [] where
  sound := sound
  bufferSize := rfl
  sendable _ member := absurd member List.not_mem_nil
  items := (List.append_nil _).symm

theorem Sound.sendMessageFromBuffer (sound : manager.Sound) :
    manager.Passes [] manager.sendMessageFromBuffer.1 manager.sendMessageFromBuffer.2 where
  sound := ⟨fun _ member => absurd member List.not_mem_nil, rfl, fun some => absurd rfl some, fun _ => rfl⟩
  bufferSize := rfl
  sendable message member := by
    unfold BufferManager.sendMessageFromBuffer sendMessage at member
    dsimp only at member
    split at member
    · cases member
    · rename_i some
      rw [List.mem_singleton.mp member]
      refine ⟨sound.wellFormed, fun large => absurd large (Int.not_lt.mpr ?_)⟩
      rw [← sound.buflen]
      exact sound.fits fun none => some (congrArg List.length none)
  items := by
    unfold BufferManager.sendMessageFromBuffer sendMessage
    dsimp only
    split
    · rename_i none
      rw [List.eq_nil_of_length_eq_zero none]
      rfl
    · rw [List.flatMap_singleton]
      rfl

theorem Passes.trans {middle after : BufferManager τ ν} {told later : List (Item τ ν)} {sent more : List (List (Entry τ ν))}
    (first : manager.Passes told middle sent) (second : middle.Passes later after more) :
    manager.Passes (told ++ later) after (sent ++ more) where
  sound := second.sound
  bufferSize := second.bufferSize.trans first.bufferSize
  sendable message member := by
    rcases List.mem_append.mp member with member | member
    · exact first.sendable message member
    · exact first.bufferSize ▸ second.sendable message member
  items := by
    rw [List.flatMap_append, List.append_assoc, second.items, ← List.append_assoc, first.items, List.append_assoc]

theorem Sound.adds {after : List (Entry τ ν)} (sound : manager.Sound) (adds : Adds manager.buffered entry after)
    (fits : entry.len ≤ manager.bufferSize - manager.buflen) :
    manager.Passes entry.items { manager with buffered := after, buflen := manager.buflen + entry.len, timer := true } []
    where
  sound := by
    refine ⟨adds.wellFormed, ?_, fun _ => ?_, fun idle => by cases idle⟩
    · rw [adds.len, ← sound.buflen]
    · dsimp only
      omega
  bufferSize := rfl
  sendable _ member := absurd member List.not_mem_nil
  items := adds.items

theorem Sound.append (sound : manager.Sound) (wellFormed : entry.WellFormed) :
    manager.Passes entry.items (manager.append entry).1 (manager.append entry).2 := by
  unfold BufferManager.append
  split
  · rename_i fits
    cases entry with
    | other => exact sound.adds (adds_concat sound.wellFormed wellFormed) fits
    | log => exact sound.adds (adds_maybeJoined sound.wellFormed wellFormed) fits
    | stream => exact sound.adds (adds_maybeJoined sound.wellFormed wellFormed) fits
  · -- What was buffered goes first, and then the entry has an empty buffer or none.
    have emptied := sound.sendMessageFromBuffer
    dsimp only
    split
    · rename_i fits
      have added := emptied.trans
        (emptied.sound.adds (adds_concat emptied.sound.wellFormed wellFormed) (fits.trans_eq (Int.sub_zero _).symm))
      rwa [List.nil_append, List.append_nil] at added
    · obtain ⟨sendable, said⟩ := @Entry.split_sendable _ _ entry manager.bufferSize wellFormed
      exact emptied.trans ⟨emptied.sound, rfl, sendable, (congrArg (· ++ _) said).trans (List.append_nil _)⟩

theorem Sound.step (sound : manager.Sound) {event : BufferEvent τ ν}
    (wellFormed : ∀ entry, event = .append entry → entry.WellFormed) :
    manager.Passes event.items (manager.step event).1 (manager.step event).2 := by
  cases event with
  | append entry => exact sound.append (wellFormed entry rfl)
  | flush =>
    unfold BufferManager.step BufferManager.flush
    dsimp only
    split
    · exact sound.sendMessageFromBuffer
    · exact sound.keeps
  | timeout =>
    unfold BufferManager.step
    dsimp only
    split
    · exact sound.sendMessageFromBuffer
    · exact sound.keeps

theorem Sound.run (sound : manager.Sound) {events : List (BufferEvent τ ν)}
    (wellFormed : ∀ entry, .append entry ∈ events → entry.WellFormed) :
    manager.Passes (events.flatMap BufferEvent.items) (manager.run events).1 (manager.run events).2 := by
  induction events generalizing manager with
  | nil => exact sound.keeps
  | cons event events ih =>
    have first := sound.step fun entry same => wellFormed entry (same ▸ List.mem_cons_self)
    exact first.trans (ih first.sound fun entry member => wellFormed entry (List.mem_cons_of_mem _ member))

theorem flush_empties (manager : BufferManager τ ν) : manager.flush.1.buffered = [] := by
  unfold flush
  split
  · rfl
  · rename_i none
    exact List.eq_nil_of_length_eq_zero (Nat.eq_zero_of_not_pos none)

/-- Nothing is lost, doubled or put in another place, whatever the size of the buffer and whenever the timer fires. -/
theorem run_exact (bufferSize : Int) (events : List (BufferEvent τ ν))
    (wellFormed : ∀ entry, .append entry ∈ events → entry.WellFormed) :
    let (manager, sent) := (new bufferSize).run events
    sent.flatMap items ++ items manager.buffered = events.flatMap BufferEvent.items ∧
      (∀ message ∈ sent, ∀ entry ∈ message, entry.WellFormed) ∧
      (∀ message ∈ sent, bufferSize < messageLen message → ∃ entry, message = [entry] ∧ entry.Single) ∧
      (manager.timer = false → manager.buffered = []) ∧
      manager.flush.1.buffered = [] ∧ (sent ++ manager.flush.2).flatMap items = events.flatMap BufferEvent.items := by
  have passes := (new_sound bufferSize).run wellFormed
  have flushed := (passes.trans (@Sound.step _ _ _ passes.sound .flush fun _ same => by cases same)).items
  have empty := flush_empties ((new bufferSize).run events).1
  rw [BufferManager.step, empty] at flushed
  refine ⟨passes.items, fun message member => (passes.sendable message member).wellFormed,
    fun message member => (passes.sendable message member).fits, passes.sound.idle, empty, ?_⟩
  exact (List.append_nil _).symm.trans (flushed.trans (List.append_nil _))

/-- Two lines are joined, a value has its own message, and two lines of a log do not fit into one. -/
theorem joinedAndSplit_exact :
    let events : List (BufferEvent Nat Int) :=
      [.append (.stream .stdout ⟨['x', '\n'], [1], [0]⟩), .append (.stream .stdout ⟨['y', '\n'], [1], [1]⟩), .timeout,
        .append (.other "rc" 0), .append (.log "log" ⟨['a', 'b', '\n', 'c', '\n'], [2, 4], [2, 3]⟩)]
    ((new 36).run events).2 =
        [[.stream .stdout ⟨['x', '\n', 'y', '\n'], [1, 3], [0, 1]⟩], [.other "rc" 0],
          [.log "log" ⟨['a', 'b', '\n'], [2], [2]⟩], [.log "log" ⟨['c', '\n'], [1], [3]⟩]] ∧
      ((new 36).run events).2.flatMap items ++ items ((new 36).run events).1.buffered =
        events.flatMap BufferEvent.items := by
  intro events
  refine ⟨rfl, (run_exact 36 events fun entry member => ?_).1⟩
  simp only [events, List.mem_cons, List.not_mem_nil, BufferEvent.append.injEq, reduceCtorEq, or_false, false_or] at member
  rcases member with rfl | rfl | rfl | rfl
  · exact ⟨.inr ⟨['x'], rfl⟩, rfl, rfl⟩
  · exact ⟨.inr ⟨['y'], rfl⟩, rfl, rfl⟩
  · trivial
  · exact ⟨.inr ⟨['a', 'b', '\n', 'c'], rfl⟩, rfl, rfl⟩

end BufferManager

end Umbilical.BuildbotWorker
