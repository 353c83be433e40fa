import Umbilical.Process.RemoteCommand

set_option autoImplicit false

/-!
# Whole lines of a command's output

However the output comes in pieces, what was printed is in the logs and in what is collected in the
end, unless a long line was split, a run of backspaces was cut, or a collected stream ends without a
newline.
-/

namespace Umbilical.Process

open Python Lines Logs

namespace Origin

variable {stdio : String} {lognames : List String}

/-- There is a log in which the lines of the origin are told apart. -/
def Shown (stdio : String) (lognames : List String) : Origin → Prop
  | stream _ => True
  | log logname => logname ∈ lognames ∧ logname ≠ stdio

/-- A log of its own is not named as a stream or as the log of the streams. -/
def Proper (stdio : String) (origin : Origin) : Prop := ofName origin.name = origin ∧ origin ≠ log stdio

theorem proper_stream (origin : Stream) : (stream origin).Proper stdio := by
  cases origin
  · exact ⟨rfl, nofun⟩
  · exact ⟨rfl, nofun⟩
  · exact ⟨rfl, nofun⟩

theorem name_ofName (name : String) : (ofName name).name = name := by
  unfold ofName
  split
  · rename_i same
    exact same.symm
  split
  · rename_i same
    exact same.symm
  split
  · rename_i same
    exact same.symm
  · rfl

theorem name_injective {first second : Origin} (proper : first.Proper stdio) (other : second.Proper stdio)
    (same : first.name = second.name) : first = second := by
  rw [← proper.1, ← other.1, same]

end Origin

/-- The text of an origin, in the pieces in which it came. -/
def pieces (origin : Origin) (all : List Update) : List Text :=
  (all.filter fun update => update.origin = origin).map Update.data

def printed (origin : Origin) (all : List Update) : Text := (pieces origin all).flatten

theorem pieces_cons_self (update : Update) (rest : List Update) :
    pieces update.origin (update :: rest) = update.data :: pieces update.origin rest := by
  simp [pieces]

theorem pieces_cons_other {origin : Origin} {update : Update} (other : update.origin ≠ origin) (rest : List Update) :
    pieces origin (update :: rest) = pieces origin rest := by
  simp [pieces, other]

/-- The lines in the logs are those of the texts, each marked with its stream. -/
structure Logged (stdio : String) (lognames : List String) (logs : String → Option Text) (text : Origin → Text) :
    Prop where
  streams : ∃ content, logs stdio = some content ∧ Marked ['o', 'e', 'h'] content ∧
    ∀ stream : Stream, linesOf stream.mark content = readLines '\n' (text (.stream stream))
  others : ∀ name ∈ lognames, name ≠ stdio → ∃ content, logs name = some content ∧ Marked ['o'] content ∧
    linesOf 'o' content = readLines '\n' (text (.log name))

namespace Logged

variable {stdio : String} {lognames : List String} {logs : String → Option Text} {text : Origin → Text}

theorem mark_ne (stream : Stream) : stream.mark ≠ '\n' := by
  cases stream
  all_goals decide

theorem mark_mem (stream : Stream) : stream.mark ∈ ['o', 'e', 'h'] := by
  cases stream
  all_goals decide

theorem mark_injective : Function.Injective Stream.mark := by
  intro first second same
  cases first <;> cases second <;> first | rfl | cases same

theorem congr (logged : Logged stdio lognames logs text) {other : Origin → Text}
    (same : ∀ origin, origin.Shown stdio lognames → other origin = text origin) : Logged stdio lognames logs other := by
  obtain ⟨⟨content, found, marked, lines⟩, others⟩ := logged
  refine ⟨⟨content, found, marked, fun stream => ?_⟩, fun name listed different => ?_⟩
  · rw [lines, same (.stream stream) trivial]
  · rw [same (.log name) ⟨listed, different⟩]
    exact others name listed different

/-- Logs have the lines of one text for each origin. -/
theorem text_unique (logged : Logged stdio lognames logs text) {other : Origin → Text}
    (also : Logged stdio lognames logs other) {origin : Origin} (shown : origin.Shown stdio lognames) :
    text origin = other origin := by
  have same : readLines '\n' (text origin) = readLines '\n' (other origin) := by
    cases origin with
    | stream stream =>
      obtain ⟨content, found, _, lines⟩ := logged.streams
      obtain ⟨_, again, _, others⟩ := also.streams
      rw [← lines, ← others, Option.some.inj (found.symm.trans again)]
    | log name =>
      obtain ⟨content, found, _, lines⟩ := logged.others name shown.1 shown.2
      obtain ⟨_, again, _, others⟩ := also.others name shown.1 shown.2
      rw [← lines, ← others, Option.some.inj (found.symm.trans again)]
  rw [← readLines_flatten '\n' (text origin), same, readLines_flatten]

/-- Whole lines of a stream are added to those it has. -/
theorem addStream (logged : Logged stdio lognames logs text) (stream : Stream)
    (whole : Whole '\n' (text (.stream stream))) {data : Text} (added : Whole '\n' data) :
    ∃ content, logs stdio = some content ∧
      Logged stdio lognames (Function.update logs stdio (some (content ++ annotate stream.mark data)))
        (Function.update text (.stream stream) (text (.stream stream) ++ data)) := by
  obtain ⟨⟨content, found, marked, lines⟩, others⟩ := logged
  refine ⟨content, found, ⟨_, Function.update_self .., marked.append (mark_mem stream) (mark_ne stream) added,
    fun other => ?_⟩, fun name listed different => ?_⟩
  · rw [linesOf_append marked.1 (mark_ne stream) added, lines]
    by_cases same : other = stream
    · rw [same, if_pos rfl, Function.update_self, readLines_whole whole]
    · have apart : other.mark ≠ stream.mark := fun marks => same (mark_injective marks)
      have origin : Origin.stream other ≠ .stream stream := fun origins => same (Origin.stream.inj origins)
      rw [if_neg apart, List.append_nil, Function.update_of_ne origin]
  · have origin : Origin.log name ≠ .stream stream := nofun
    rw [Function.update_of_ne different, Function.update_of_ne origin]
    exact others name listed different

theorem addLog (logged : Logged stdio lognames logs text) {name : String} (listed : name ∈ lognames)
    (different : name ≠ stdio) (whole : Whole '\n' (text (.log name))) {data : Text} (added : Whole '\n' data) :
    ∃ content, logs name = some content ∧
      Logged stdio lognames (Function.update logs name (some (content ++ annotate 'o' data)))
        (Function.update text (.log name) (text (.log name) ++ data)) := by
  obtain ⟨⟨streams, kept, mixed, all⟩, others⟩ := logged
  obtain ⟨content, found, marked, lines⟩ := others name listed different
  refine ⟨content, found, ⟨streams, ?_, mixed, fun stream => ?_⟩, fun other found apart => ?_⟩
  · rw [Function.update_of_ne different.symm, kept]
  · have origin : Origin.stream stream ≠ .log name := nofun
    rw [Function.update_of_ne origin, all]
  · by_cases same : other = name
    · subst same
      refine ⟨_, Function.update_self .., marked.append List.mem_cons_self (by decide) added, ?_⟩
      rw [linesOf_append marked.1 (by decide) added, if_pos rfl, lines, Function.update_self, readLines_whole whole]
    · have origin : Origin.log other ≠ .log name := fun origins => same (Origin.log.inj origins)
      rw [Function.update_of_ne same, Function.update_of_ne origin]
      exact others other found apart

end Logged

namespace RemoteCommand

variable (used : UsedSecrets) (command : RemoteCommand)

def collects (command : RemoteCommand) : Origin → Bool
  | .stream .stdout => command.collectStdout
  | .stream .stderr => command.collectStderr
  | _ => false

/-- What is added of the data: in the end, the newline that `flush` put there is left out of what is collected. -/
def added (origin : Origin) (data : Text) (isFlushed : Bool) : Text :=
  if isFlushed && command.collects origin then data.dropLast else data

def collect (stream : Stream) (data : Text) : RemoteCommand :=
  if command.collects (.stream stream) then
    match stream with
    | .stdout => { command with stdout := command.stdout ++ data }
    | .stderr => { command with stderr := command.stderr ++ data }
    | .header => command
  else command

/-- What was collected of a stream. -/
def collected : Stream → Text
  | .stdout => command.stdout
  | .stderr => command.stderr
  | .header => []

theorem remoteUpdate_stream (stream : Stream) (data : Text) (isFlushed : Bool) :
    command.remoteUpdate used (.stream stream) data isFlushed =
      (command.collect stream (command.added (.stream stream) (used.cleanupTextFromSecrets data) isFlushed)).addStdioLines
        stream.mark (command.added (.stream stream) (used.cleanupTextFromSecrets data) isFlushed) := by
  cases stream with
  | stdout => cases collected : command.collectStdout <;> cases isFlushed <;>
      simp [remoteUpdate, addStdoutLines, added, collect, collects, collected]
  | stderr => cases collected : command.collectStderr <;> cases isFlushed <;>
      simp [remoteUpdate, addStderrLines, added, collect, collects, collected]
  | header => cases isFlushed <;> simp [remoteUpdate, addHeaderLines, added, collect, collects]

@[simp] theorem collect_logs (stream : Stream) (data : Text) : (command.collect stream data).logs = command.logs := by
  unfold collect
  split
  · cases stream <;> rfl
  · rfl

@[simp] theorem collect_stdioLogName (stream : Stream) (data : Text) :
    (command.collect stream data).stdioLogName = command.stdioLogName := by
  unfold collect
  split
  · cases stream <;> rfl
  · rfl

@[simp] theorem collect_collects (stream : Stream) (data : Text) :
    (command.collect stream data).collects = command.collects := by
  unfold collect
  split
  · cases stream <;> rfl
  · rfl

@[simp] theorem collect_finders (stream : Stream) (data : Text) :
    (command.collect stream data).lineBoundaryFinders = command.lineBoundaryFinders := by
  unfold collect
  split
  · cases stream <;> rfl
  · rfl

theorem collect_collected {other : Stream} (flag : command.collects (.stream other)) (stream : Stream) (data : Text) :
    (command.collect stream data).collected other =
      if other = stream then command.collected other ++ data else command.collected other := by
  unfold collect
  cases other with
  | stdout => cases stream with
    | stdout => simp [flag, collected]
    | stderr => cases command.collects (.stream .stderr) <;> rfl
    | header => rfl
  | stderr => cases stream with
    | stdout => cases command.collects (.stream .stdout) <;> rfl
    | stderr => simp [flag, collected]
    | header => rfl
  | header => cases flag

/-- What adding lines to a log does. -/
theorem addLines_cases {name : String} {mark : Char} (other : mark ≠ '\n') {data : Text} {content : Text}
    (found : command.logs name = some content) :
    (data.getLast? ≠ some '\n' → (command.addLines name mark data).2 = true) ∧
      (Whole '\n' data → data ≠ [] → command.addLines name mark data =
        ({ command with logs := Function.update command.logs name (some (content ++ annotate mark data)) }, false)) := by
  unfold addLines
  rw [found]
  refine ⟨fun unended => ?_, fun whole something => ?_⟩
  · simp only [onWholeLines_open other unended]
  · simp only [onWholeLines_whole mark whole something]

/-- What was added to the logs and collected, with the finders and what is expected left out. -/
structure Passed (stdio : String) (lognames : List String) (command : RemoteCommand) (text : Origin → Text) : Prop where
  logged : Logged stdio lognames command.logs text
  stdioLog : command.stdioLogName = some stdio
  missing : ∀ name ∉ lognames, command.logs name = none
  whole : ∀ origin, Whole '\n' (text origin)
  collected : ∀ stream, command.collects (.stream stream) → command.collected stream = text (.stream stream)

namespace Passed

variable {used command}
variable {stdio : String} {lognames : List String} {text : Origin → Text} {data : Text}

theorem whole_update (passed : Passed stdio lognames command text) (origin : Origin) (whole : Whole '\n' data) :
    ∀ other, Whole '\n' (Function.update text origin (text origin ++ data) other) := by
  intro other
  by_cases same : other = origin
  · rw [same, Function.update_self]
    exact (passed.whole origin).append whole
  · rw [Function.update_of_ne same]
    exact passed.whole other

/-- Whole lines of a stream go to the log and to what is collected. -/
theorem addStream (passed : Passed stdio lognames command text) (stream : Stream) (whole : Whole '\n' data)
    (something : data ≠ []) : ((command.collect stream data).addStdioLines stream.mark data).2 = false ∧
      Passed stdio lognames ((command.collect stream data).addStdioLines stream.mark data).1
        (Function.update text (.stream stream) (text (.stream stream) ++ data)) := by
  obtain ⟨content, found, logged⟩ := passed.logged.addStream stream (passed.whole _) whole
  have there : (command.collect stream data).logs stdio = some content := by rw [collect_logs, found]
  have step := ((command.collect stream data).addLines_cases (Logged.mark_ne stream) there).2 whole something
  have named : (command.collect stream data).stdioLogName = some stdio := by rw [collect_stdioLogName, passed.stdioLog]
  have added : (command.collect stream data).addStdioLines stream.mark data =
      (command.collect stream data).addLines stdio stream.mark data := by
    unfold addStdioLines
    rw [named]
  rw [added, step, collect_logs]
  refine ⟨rfl, logged, named, fun name absent => ?_, passed.whole_update _ whole, fun other flag => ?_⟩
  · have different : name ≠ stdio := by
      rintro rfl
      exact absurd ((passed.missing _ absent).symm.trans found) nofun
    exact (Function.update_of_ne different ..).trans (passed.missing name absent)
  · have flag : command.collects (.stream other) := by
      rw [← command.collect_collects stream data]
      exact flag
    have text : (command.collect stream data).collected other = _ := command.collect_collected flag stream data
    refine text.trans ?_
    rw [passed.collected other flag]
    by_cases same : other = stream
    · rw [if_pos same, same, Function.update_self]
    · have origin : Origin.stream other ≠ .stream stream := fun origins => same (Origin.stream.inj origins)
      rw [if_neg same, Function.update_of_ne origin]

/-- Whole lines go to the log of that name, if there is one. -/
theorem addLog (passed : Passed stdio lognames command text) {name : String} (different : name ≠ stdio)
    (whole : Whole '\n' data) (something : data ≠ []) : (command.addToLog name data).2 = false ∧
      Passed stdio lognames (command.addToLog name data).1
        (Function.update text (.log name) (text (.log name) ++ data)) := by
  have streams (stream : Stream) : Function.update text (.log name) (text (.log name) ++ data) (.stream stream) =
      text (.stream stream) := by
    have origin : Origin.stream stream ≠ .log name := nofun
    exact Function.update_of_ne origin ..
  by_cases listed : name ∈ lognames
  · obtain ⟨content, found, logged⟩ := passed.logged.addLog listed different (passed.whole _) whole
    have step := (command.addLines_cases (Logged.mark_ne .stdout) found).2 whole something
    rw [addToLog, step]
    refine ⟨rfl, logged, passed.stdioLog, fun other absent => ?_, passed.whole_update _ whole, fun stream flag => ?_⟩
    · have apart : other ≠ name := by
        rintro rfl
        exact absent listed
      exact (Function.update_of_ne apart ..).trans (passed.missing other absent)
    · rw [streams]
      exact passed.collected stream flag
  · have step : command.addToLog name data = (command, false) := by
      unfold addToLog addLines
      rw [passed.missing name listed]
    rw [step]
    refine ⟨rfl, passed.logged.congr fun origin shown => ?_, passed.stdioLog, passed.missing,
      passed.whole_update _ whole, fun stream flag => ?_⟩
    · refine Function.update_of_ne ?_ ..
      rintro rfl
      exact listed shown.1
    · rw [streams]
      exact passed.collected stream flag

/-- Whole lines of an origin are added, without the newline that `flush` put there if they are collected; if that
leaves a line open, adding them raises. -/
theorem remoteUpdate (passed : Passed stdio lognames command text) {origin : Origin} (proper : origin.Proper stdio)
    (clean : used.cleanupTextFromSecrets data = data) (whole : Whole '\n' data) (something : data ≠ [])
    (isFlushed : Bool) :
    ((command.remoteUpdate used origin data isFlushed).2 = false ↔
      (command.added origin data isFlushed).getLast? = some '\n') ∧
      ((command.remoteUpdate used origin data isFlushed).2 = false →
        Passed stdio lognames (command.remoteUpdate used origin data isFlushed).1
          (Function.update text origin (text origin ++ command.added origin data isFlushed))) := by
  cases origin with
  | log name =>
    have different : name ≠ stdio := fun same => proper.2 (congrArg _ same)
    have same : command.remoteUpdate used (.log name) data isFlushed = command.addToLog name data := by
      unfold RemoteCommand.remoteUpdate
      rw [clean]
    have all : command.added (.log name) data isFlushed = data := by simp [added, collects]
    obtain ⟨quiet, next⟩ := passed.addLog different whole something
    rw [same, all]
    exact ⟨iff_of_true quiet (getLast_eq_newline.mpr ⟨whole, something⟩), fun _ => next⟩
  | stream stream =>
    rw [remoteUpdate_stream, clean]
    generalize command.added (.stream stream) data isFlushed = kept
    by_cases ends : kept.getLast? = some '\n'
    · obtain ⟨whole, something⟩ := getLast_eq_newline.mp ends
      obtain ⟨quiet, next⟩ := passed.addStream stream whole something
      exact ⟨iff_of_true quiet ends, fun _ => next⟩
    · obtain ⟨content, found, _⟩ := passed.logged.streams
      have there : (command.collect stream kept).logs stdio = some content := by rw [collect_logs, found]
      have raised := ((command.collect stream kept).addLines_cases (Logged.mark_ne stream) there).1 ends
      have named : (command.collect stream kept).stdioLogName = some stdio := by
        rw [collect_stdioLogName, passed.stdioLog]
      have added : (command.collect stream kept).addStdioLines stream.mark kept =
          (command.collect stream kept).addLines stdio stream.mark kept := by
        unfold addStdioLines
        rw [named]
      rw [added, raised]
      exact ⟨iff_of_false nofun ends, nofun⟩

end Passed

section Frames

variable (origin : Origin) (data : Text) (isFlushed : Bool)

theorem addLines_frame (name : String) (mark : Char) :
    (command.addLines name mark data).1.lineBoundaryFinders = command.lineBoundaryFinders ∧
      (command.addLines name mark data).1.collects = command.collects := by
  unfold addLines
  split
  · exact ⟨rfl, rfl⟩
  split
  · exact ⟨rfl, rfl⟩
  · exact ⟨rfl, rfl⟩

theorem addStdioLines_frame (mark : Char) :
    (command.addStdioLines mark data).1.lineBoundaryFinders = command.lineBoundaryFinders ∧
      (command.addStdioLines mark data).1.collects = command.collects := by
  unfold addStdioLines
  split
  · exact ⟨rfl, rfl⟩
  · exact addLines_frame command data _ mark

theorem remoteUpdate_frame :
    (command.remoteUpdate used origin data isFlushed).1.lineBoundaryFinders = command.lineBoundaryFinders ∧
      (command.remoteUpdate used origin data isFlushed).1.collects = command.collects := by
  cases origin with
  | log name => exact addLines_frame command _ name _
  | stream stream =>
    rw [remoteUpdate_stream]
    obtain ⟨finders, flags⟩ := addStdioLines_frame (command.collect stream _) _ stream.mark
    exact ⟨finders.trans (collect_finders ..), flags.trans (collect_collects ..)⟩

end Frames

/-- There is one finder for each name, and none for the name of the log of the streams. -/
structure Finders (stdio : String) (command : RemoteCommand) : Prop where
  distinct : Keyed.Distinct Prod.fst command.lineBoundaryFinders
  proper : ∀ entry ∈ command.lineBoundaryFinders, (Origin.ofName entry.1).Proper stdio

variable {used command} {stdio : String} {lognames : List String}

theorem finder_congr {other : RemoteCommand} (same : other.lineBoundaryFinders = command.lineBoundaryFinders)
    (name : String) : other.finder name = command.finder name := by
  unfold RemoteCommand.finder
  rw [same]

theorem finder_setFinder (name other : String) (finder : LineBoundaryFinder) :
    (command.setFinder name finder).finder other = if other = name then finder else command.finder other := by
  unfold setFinder RemoteCommand.finder
  cases found : Keyed.lookup Prod.fst command.lineBoundaryFinders name with
  | some entry =>
    have keeps (entry : String × LineBoundaryFinder) : Prod.fst (entry.1, finder) = Prod.fst entry := rfl
    simp only [Keyed.lookup_revise (fun entry => (entry.1, finder)) keeps]
    by_cases same : other = name
    · simp [same, found]
    · simp [same]
  | none =>
    simp only [Keyed.lookup_append]
    by_cases same : other = name
    · simp [same, found]
    · simp [same, Ne.symm same]

theorem Finders.setFinder (finders : Finders stdio command) {origin : Origin} (proper : origin.Proper stdio)
    (finder : LineBoundaryFinder) : Finders stdio (command.setFinder origin.name finder) := by
  have new : (Origin.ofName origin.name).Proper stdio := by rwa [proper.1]
  unfold RemoteCommand.setFinder
  cases found : Keyed.lookup Prod.fst command.lineBoundaryFinders origin.name with
  | some entry =>
    have keeps (entry : String × LineBoundaryFinder) : Prod.fst (entry.1, finder) = Prod.fst entry := rfl
    refine ⟨(Keyed.distinct_revise _ keeps).mpr finders.distinct, fun entry member => ?_⟩
    rcases Keyed.mem_revise member with ⟨kept, _⟩ | ⟨old, _, same, rfl⟩
    · exact finders.proper entry kept
    · rwa [same]
  | none =>
    refine ⟨Keyed.distinct_append.mpr ⟨finders.distinct, found⟩, fun entry member => ?_⟩
    rcases List.mem_append.mp member with kept | added
    · exact finders.proper entry kept
    · rwa [List.mem_singleton.mp added]

/-- One piece of text: its origin's finder gets it, and what comes out is added. -/
theorem Passed.update {text : Origin → Text} (passed : Passed stdio lognames command text)
    (finders : Finders stdio command) {update : Update} (proper : update.origin.Proper stdio)
    (clean : ∀ line, ((command.finder update.origin.name).append update.data).2 = some line →
      used.cleanupTextFromSecrets line = line) :
    Passed stdio lognames (command.update used update) (Function.update text update.origin
        (text update.origin ++ ((command.finder update.origin.name).append update.data).2.getD [])) ∧
      Finders stdio (command.update used update) ∧ (command.update used update).collects = command.collects ∧
      ∀ name, (command.update used update).finder name = if name = update.origin.name then
        ((command.finder update.origin.name).append update.data).1 else command.finder name := by
  have next (finder : LineBoundaryFinder) : Passed stdio lognames (command.setFinder update.origin.name finder) text :=
    ⟨passed.logged, passed.stdioLog, passed.missing, passed.whole, passed.collected⟩
  have set := finders.setFinder proper ((command.finder update.origin.name).append update.data).1
  have found := fun name => command.finder_setFinder update.origin.name name
    ((command.finder update.origin.name).append update.data).1
  unfold RemoteCommand.update
  cases out : ((command.finder update.origin.name).append update.data).2 with
  | none =>
    simp only [out]
    rw [Option.getD_none, List.append_nil, Function.update_eq_self]
    exact ⟨next _, set, rfl, found⟩
  | some line =>
    simp only [out]
    obtain ⟨whole, something⟩ := LineBoundaryFinder.append_whole out
    obtain ⟨quiet, added⟩ := (next _).remoteUpdate proper (clean line out) whole something false
    obtain ⟨kept, flags⟩ := remoteUpdate_frame used (command.setFinder update.origin.name
      ((command.finder update.origin.name).append update.data).1) update.origin line false
    refine ⟨added (quiet.mpr (getLast_eq_newline.mpr ⟨whole, something⟩)), ⟨?_, ?_⟩, flags, fun name => ?_⟩
    · rw [kept]
      exact set.distinct
    · rw [kept]
      exact set.proper
    · exact (finder_congr kept name).trans (found name)

open LineBoundaryFinder

theorem pieces_of_improper {all : List Update} (named : ∀ update ∈ all, update.origin.Proper stdio) {origin : Origin}
    (improper : ¬ origin.Proper stdio) : pieces origin all = [] := by
  have none : (all.filter fun update => update.origin = origin) = [] := by
    rw [List.filter_eq_nil_iff]
    intro update member same
    rw [← of_decide_eq_true same] at improper
    exact improper (named update member)
  rw [pieces, none]
  rfl

/-- After all pieces, what each finder passed on of its origin's was added. -/
theorem Passed.updates {text : Origin → Text} (passed : Passed stdio lognames command text)
    (finders : Finders stdio command) {all : List Update} (named : ∀ update ∈ all, update.origin.Proper stdio)
    (clean : ∀ origin, origin.Proper stdio → ∀ line, line <:+: (command.finder origin.name).passed (pieces origin all) →
      used.cleanupTextFromSecrets line = line) :
    Passed stdio lognames (command.updates used all)
        (fun origin => text origin ++ ((command.finder origin.name).feed (pieces origin all)).2) ∧
      Finders stdio (command.updates used all) ∧ (command.updates used all).collects = command.collects ∧
      ∀ origin, origin.Proper stdio → (command.updates used all).finder origin.name =
        ((command.finder origin.name).feed (pieces origin all)).1 := by
  induction all generalizing command text with
  | nil =>
    have same : (fun origin => text origin ++ ((command.finder origin.name).feed (pieces origin [])).2) = text := by
      funext origin
      exact List.append_nil _
    rw [same]
    exact ⟨passed, finders, rfl, fun _ _ => rfl⟩
  | cons update rest ih =>
    have proper := named update List.mem_cons_self
    have others : ∀ update ∈ rest, update.origin.Proper stdio := fun other member =>
      named other (List.mem_cons_of_mem _ member)
    obtain ⟨next, set, flags, found⟩ := passed.update finders proper fun line out => by
      apply clean _ proper line
      rw [pieces_cons_self, passed_cons, out]
      exact (List.prefix_append _ _).isInfix
    -- The finder of the origin has been given the piece, and the others are as they were.
    have self : (command.update used update).finder update.origin.name =
        ((command.finder update.origin.name).append update.data).1 := by rw [found, if_pos rfl]
    have other {origin : Origin} (improper : origin.Proper stdio) (different : origin ≠ update.origin) :
        (command.update used update).finder origin.name = command.finder origin.name := by
      rw [found, if_neg fun same => different (Origin.name_injective improper proper same)]
    obtain ⟨last, sets, same, fed⟩ := ih next set others fun origin well line inside => by
      apply clean origin well line
      by_cases same : origin = update.origin
      · subst same
        rw [self] at inside
        rw [pieces_cons_self, passed_cons]
        exact inside.trans (List.suffix_append _ _).isInfix
      · rw [other well same] at inside
        rwa [pieces_cons_other (Ne.symm same)]
    have total : (fun origin => text origin ++ ((command.finder origin.name).feed (pieces origin (update :: rest))).2) =
        fun origin => Function.update text update.origin
          (text update.origin ++ ((command.finder update.origin.name).append update.data).2.getD []) origin ++
            (((command.update used update).finder origin.name).feed (pieces origin rest)).2 := by
      funext origin
      by_cases same : origin = update.origin
      · rw [same, pieces_cons_self, self, Function.update_self, feed, List.append_assoc]
      · rw [Function.update_of_ne same, pieces_cons_other (Ne.symm same)]
        by_cases well : origin.Proper stdio
        · rw [other well same]
        · rw [pieces_of_improper others well]
          rfl
    rw [total]
    refine ⟨last, sets, same.trans flags, fun origin well => (fed origin well).trans ?_⟩
    by_cases same : origin = update.origin
    · rw [same, pieces_cons_self, self, feed]
    · rw [other well same, pieces_cons_other (Ne.symm same)]

/-- What is added of a finder's text in the end. -/
def lastOf (collects : Origin → Bool) (origin : Origin) (finder : LineBoundaryFinder) : Text :=
  match finder.flush.2 with
  | none => []
  | some line => if collects origin then line.dropLast else line

def flushOf (collects : Origin → Bool) (origin : Origin) : List (String × LineBoundaryFinder) → Text
  | [] => []
  | (name, finder) :: rest =>
    if Origin.ofName name = origin then lastOf collects origin finder ++ flushOf collects origin rest
    else flushOf collects origin rest

/-- Nothing that is collected is left open without its last newline. -/
def Closed (collects : Origin → Bool) (entries : List (String × LineBoundaryFinder)) : Prop :=
  ∀ entry ∈ entries, ∀ line, entry.2.flush.2 = some line → collects (Origin.ofName entry.1) →
    line.dropLast.getLast? = some '\n'

/-- The loop at the end raises if what is collected of a stream is left open, and adds everything else. -/
theorem Passed.flushAll {text : Origin → Text} (passed : Passed stdio lognames command text)
    {entries : List (String × LineBoundaryFinder)} (proper : ∀ entry ∈ entries, (Origin.ofName entry.1).Proper stdio)
    (clean : ∀ entry ∈ entries, ∀ line, entry.2.flush.2 = some line → used.cleanupTextFromSecrets line = line) :
    ((flushAll used command entries).2 = false ↔ Closed command.collects entries) ∧
      ((flushAll used command entries).2 = false → Passed stdio lognames (flushAll used command entries).1
        fun origin => text origin ++ flushOf command.collects origin entries) := by
  induction entries generalizing command text with
  | nil =>
    have same : (fun origin => text origin ++ flushOf command.collects origin []) = text := by
      funext origin
      exact List.append_nil _
    rw [same]
    exact ⟨iff_of_true rfl nofun, fun _ => passed⟩
  | cons entry rest ih =>
    obtain ⟨name, finder⟩ := entry
    have well := proper _ List.mem_cons_self
    have propers : ∀ entry ∈ rest, (Origin.ofName entry.1).Proper stdio := fun entry member =>
      proper entry (List.mem_cons_of_mem _ member)
    have cleans : ∀ entry ∈ rest, ∀ line, entry.2.flush.2 = some line → used.cleanupTextFromSecrets line = line :=
      fun entry member => clean entry (List.mem_cons_of_mem _ member)
    rw [Closed, List.forall_mem_cons]
    cases out : finder.flush.2 with
    | none =>
      obtain ⟨quiet, last⟩ := ih passed propers cleans
      have step : RemoteCommand.flushAll used command ((name, finder) :: rest) =
          RemoteCommand.flushAll used command rest := by
        rw [RemoteCommand.flushAll, out]
      have same : (fun origin => text origin ++ flushOf command.collects origin ((name, finder) :: rest)) =
          fun origin => text origin ++ flushOf command.collects origin rest := by
        funext origin
        simp [flushOf, lastOf, out]
      rw [same, step]
      exact ⟨quiet.trans ⟨fun all => ⟨nofun, all⟩, And.right⟩, last⟩
    | some line =>
      obtain ⟨whole, something⟩ := LineBoundaryFinder.flush_whole out
      obtain ⟨ends, added⟩ := passed.remoteUpdate well (clean _ List.mem_cons_self line out) whole something true
      obtain ⟨_, flags⟩ := remoteUpdate_frame used command (Origin.ofName name) line true
      have kept : command.added (Origin.ofName name) line true = lastOf command.collects (Origin.ofName name) finder := by
        simp [RemoteCommand.added, lastOf, out]
      have closed : (∀ other, some line = some other → command.collects (Origin.ofName name) →
          other.dropLast.getLast? = some '\n') ↔ (lastOf command.collects (Origin.ofName name) finder).getLast? =
            some '\n' := by
        rw [← kept, RemoteCommand.added]
        by_cases collected : command.collects (Origin.ofName name)
        · simp [collected]
        · simp [collected, getLast_eq_newline.mpr ⟨whole, something⟩]
      rw [kept] at ends added
      rw [closed, ← ends]
      have step : RemoteCommand.flushAll used command ((name, finder) :: rest) =
          if (command.remoteUpdate used (Origin.ofName name) line true).2 then
            ((command.remoteUpdate used (Origin.ofName name) line true).1, true)
          else RemoteCommand.flushAll used (command.remoteUpdate used (Origin.ofName name) line true).1 rest := by
        rw [RemoteCommand.flushAll, out]
        dsimp only
        cases command.remoteUpdate used (Origin.ofName name) line true with
        | mk next raised => cases raised <;> rfl
      rw [step]
      by_cases raised : (command.remoteUpdate used (Origin.ofName name) line true).2 = true
      · rw [if_pos raised, raised]
        exact ⟨⟨nofun, fun both => both.1⟩, nofun⟩
      · have went : (command.remoteUpdate used (Origin.ofName name) line true).2 = false := by simpa using raised
        obtain ⟨quiet, last⟩ := ih (added went) propers cleans
        rw [flags] at quiet last
        rw [if_neg raised, quiet]
        refine ⟨⟨fun all => ⟨went, all⟩, And.right⟩, fun all => ?_⟩
        have total : (fun origin => text origin ++ flushOf command.collects origin ((name, finder) :: rest)) =
            fun origin => Function.update text (Origin.ofName name) (text (Origin.ofName name) ++
              lastOf command.collects (Origin.ofName name) finder) origin ++ flushOf command.collects origin rest := by
          funext origin
          by_cases same : origin = Origin.ofName name
          · rw [same, flushOf, if_pos rfl, Function.update_self, List.append_assoc]
          · rw [flushOf, if_neg (Ne.symm same), Function.update_of_ne same]
        rw [total]
        exact last (quiet.mpr all)

/-- There is at most one finder for an origin. -/
theorem flushOf_eq {entries : List (String × LineBoundaryFinder)} (distinct : Keyed.Distinct Prod.fst entries)
    (collects : Origin → Bool) {origin : Origin} (proper : origin.Proper stdio) :
    flushOf collects origin entries = lastOf collects origin
      (match Keyed.lookup Prod.fst entries origin.name with | some entry => entry.2 | none => ⟨none⟩) := by
  induction entries with
  | nil => rfl
  | cons entry rest ih =>
    obtain ⟨name, finder⟩ := entry
    obtain ⟨fresh, later⟩ := List.nodup_cons.mp distinct
    have last := ih later
    have same : Origin.ofName name = origin ↔ name = origin.name := by
      constructor
      · rintro rfl
        exact (Origin.name_ofName name).symm
      · rintro rfl
        exact proper.1
    by_cases here : name = origin.name
    · have absent : Keyed.lookup Prod.fst rest origin.name = none := Keyed.lookup_eq_none.mpr fun other member found =>
        fresh (List.mem_map.mpr ⟨other, member, found.trans here.symm⟩)
      have first : Keyed.lookup Prod.fst ((name, finder) :: rest) origin.name = some (name, finder) := by
        simp [Keyed.lookup, here]
      rw [absent] at last
      rw [flushOf, if_pos (same.mpr here), first, last]
      exact List.append_nil _
    · have first : Keyed.lookup Prod.fst ((name, finder) :: rest) origin.name = Keyed.lookup Prod.fst rest origin.name := by
        simp [Keyed.lookup, here]
      rw [flushOf, if_neg fun found => here (same.mp found), first, last]

theorem flushOf_improper {entries : List (String × LineBoundaryFinder)}
    (proper : ∀ entry ∈ entries, (Origin.ofName entry.1).Proper stdio) (collects : Origin → Bool) {origin : Origin}
    (improper : ¬ origin.Proper stdio) : flushOf collects origin entries = [] := by
  induction entries with
  | nil => rfl
  | cons entry rest ih =>
    have different : Origin.ofName entry.1 ≠ origin := by
      rintro rfl
      exact improper (proper entry List.mem_cons_self)
    rw [flushOf, if_neg different]
    exact ih fun other member => proper other (List.mem_cons_of_mem _ member)

theorem flushAll_collects (entries : List (String × LineBoundaryFinder)) :
    (flushAll used command entries).1.collects = command.collects := by
  induction entries generalizing command with
  | nil => rfl
  | cons entry rest ih =>
    rw [RemoteCommand.flushAll]
    split
    · exact ih
    split
    · rename_i line _ _ _ result
      have same := (remoteUpdate_frame used command (Origin.ofName entry.1) line true).2
      rwa [result] at same
    · rename_i line _ _ _ result
      have same := (remoteUpdate_frame used command (Origin.ofName entry.1) line true).2
      rw [result] at same
      exact ih.trans same

/-- What holds of a new finder holds of all there are exactly if it holds of the finder of every origin. -/
theorem Finders.all (finders : Finders stdio command) (holds : Origin → LineBoundaryFinder → Prop)
    (new : ∀ origin, holds origin ⟨none⟩) :
    (∀ entry ∈ command.lineBoundaryFinders, holds (Origin.ofName entry.1) entry.2) ↔
      ∀ origin, origin.Proper stdio → holds origin (command.finder origin.name) := by
  constructor
  · intro all origin proper
    unfold RemoteCommand.finder
    cases found : Keyed.lookup Prod.fst command.lineBoundaryFinders origin.name with
    | none => exact new origin
    | some entry =>
      obtain ⟨member, same⟩ := Keyed.mem_of_lookup found
      have last := all entry member
      rwa [same, proper.1] at last
  · intro all entry member
    have last := all _ (finders.proper entry member)
    rw [Origin.name_ofName] at last
    unfold RemoteCommand.finder at last
    rwa [finders.distinct.lookup_self member] at last

/-- Without the newlines that `flush` put there, all of a text is added exactly if its pieces are tidy and, where it is
collected, it ends with a newline. -/
theorem added_iff {pieces : List Text} {collects : Origin → Bool} {origin : Origin}
    (closed : ∀ line, (feed ⟨none⟩ pieces).1.flush.2 = some line → collects origin →
      line.dropLast.getLast? = some '\n') :
    (feed ⟨none⟩ pieces).2 ++ lastOf collects origin (feed ⟨none⟩ pieces).1 = ended pieces.flatten ↔
      Tidy [] pieces ∧ (collects origin → unfinished pieces.flatten = []) := by
  unfold lastOf
  cases out : (feed ⟨none⟩ pieces).1.flush.2 with
  | none =>
    have all : (feed ⟨none⟩ pieces).2 ++ [] = passed ⟨none⟩ pieces := by
      rw [passed, out]
      rfl
    rw [all, passed_iff]
    exact ⟨fun tidy => ⟨tidy, fun _ => (flush_tidy tidy).mp out⟩, And.left⟩
  | some line =>
    by_cases collected : collects origin = true
    · dsimp only
      rw [if_pos collected]
      refine iff_of_false (ne_of_blank out (closed line out collected)) fun both => ?_
      exact absurd (out.symm.trans ((flush_tidy both.1).mpr (both.2 collected))) (Option.some_ne_none line)
    · have all : (feed ⟨none⟩ pieces).2 ++ line = passed ⟨none⟩ pieces := by
        rw [passed, out]
        rfl
      dsimp only
      rw [if_neg collected, all, passed_iff]
      exact ⟨fun tidy => ⟨tidy, fun flag => absurd flag collected⟩, And.left⟩

/-- The command's deferred fires without an error, and the logs and what is collected have what was printed. -/
structure Delivered (stdio : String) (lognames : List String) (all : List Update) (outcome : Outcome) : Prop where
  quiet : outcome.2 = false
  logged : Logged stdio lognames outcome.1.logs fun origin => ended (printed origin all)
  stdout : outcome.1.collectStdout → outcome.1.stdout = normalize (printed (.stream .stdout) all)
  stderr : outcome.1.collectStderr → outcome.1.stderr = normalize (printed (.stream .stderr) all)

variable (collectStdout collectStderr : Bool)

theorem start_passed (used : stdio ∈ lognames) :
    Passed stdio lognames (start collectStdout collectStderr (some stdio) lognames) fun _ => [] := by
  have empty (name : String) (listed : name ∈ lognames) :
      (start collectStdout collectStderr (some stdio) lognames).logs name = some [] := if_pos listed
  have nothing (streams : List Char) : Marked streams [] := ⟨.inl rfl, nofun⟩
  refine ⟨⟨⟨[], empty stdio used, nothing _, fun _ => rfl⟩, fun name listed _ => ⟨[], empty name listed, nothing _, rfl⟩⟩,
    rfl, fun name absent => if_neg absent, fun _ => .inl rfl, fun stream _ => ?_⟩
  cases stream
  all_goals rfl

theorem start_finders : Finders stdio (start collectStdout collectStderr (some stdio) lognames) := ⟨List.nodup_nil, nofun⟩

/-- Exactly if every text that is shown came in tidy pieces and what is collected ends with a newline, all of it is
delivered. -/
theorem output_delivered {all : List Update} (listed : stdio ∈ lognames)
    (named : ∀ update ∈ all, update.origin.Proper stdio)
    (unprinted : ∀ secret ∈ used, ∀ origin, ¬ secret.1 <:+: passed ⟨none⟩ (pieces origin all)) :
    Delivered stdio lognames all
        (((start collectStdout collectStderr (some stdio) lognames).updates used all).remoteComplete used) ↔
      (∀ origin, origin.Shown stdio lognames → Tidy [] (pieces origin all)) ∧
        (collectStdout → unfinished (printed (.stream .stdout) all) = []) ∧
        (collectStderr → unfinished (printed (.stream .stderr) all) = []) := by
  have clean : ∀ origin line, line <:+: passed ⟨none⟩ (pieces origin all) → used.cleanupTextFromSecrets line = line :=
    fun origin line inside => UsedSecrets.cleanup_of_absent fun secret member found =>
      unprinted secret member origin (found.trans inside)
  obtain ⟨next, finders, flags, fed⟩ := (start_passed collectStdout collectStderr listed).updates
    (start_finders collectStdout collectStderr) named fun origin _ line inside => clean origin line inside
  generalize (start collectStdout collectStderr (some stdio) lognames).updates used all = command at next finders flags fed
  have closed : Closed command.collects command.lineBoundaryFinders ↔ ∀ origin, origin.Proper stdio → ∀ line,
      (feed ⟨none⟩ (pieces origin all)).1.flush.2 = some line → command.collects origin →
        line.dropLast.getLast? = some '\n' := by
    refine (finders.all (fun origin finder => ∀ line, finder.flush.2 = some line → command.collects origin →
      line.dropLast.getLast? = some '\n') fun _ => nofun).trans ?_
    exact forall₂_congr fun origin proper => by rw [fed origin proper]; rfl
  have cleans : ∀ entry ∈ command.lineBoundaryFinders, ∀ line, entry.2.flush.2 = some line →
      used.cleanupTextFromSecrets line = line := by
    refine (finders.all (fun _ finder => ∀ line, finder.flush.2 = some line →
      used.cleanupTextFromSecrets line = line) fun _ => nofun).mpr fun origin proper line out => ?_
    rw [fed origin proper] at out
    apply clean origin line
    rw [passed, show (feed ⟨none⟩ (pieces origin all)).1.flush.2 = some line from out]
    exact (List.suffix_append _ _).isInfix
  obtain ⟨quiet, last⟩ := next.flushAll finders.proper cleans
  have final (origin : Origin) (proper : origin.Proper stdio) :
      flushOf command.collects origin command.lineBoundaryFinders =
        lastOf command.collects origin (feed ⟨none⟩ (pieces origin all)).1 :=
    (flushOf_eq finders.distinct command.collects proper).trans (congrArg _ (fed origin proper))
  have stdoutFlag : command.collects (.stream .stdout) = collectStdout := by rw [flags]; rfl
  have stderrFlag : command.collects (.stream .stderr) = collectStderr := by rw [flags]; rfl
  constructor
  · intro delivered
    have ends := closed.mp (quiet.mp delivered.quiet)
    have each (origin : Origin) (proper : origin.Proper stdio) (shown : origin.Shown stdio lognames) :
        Tidy [] (pieces origin all) ∧ (command.collects origin → unfinished (printed origin all) = []) := by
      apply (added_iff (ends origin proper)).mp
      rw [← final origin proper]
      exact (last delivered.quiet).logged.text_unique delivered.logged shown
    refine ⟨fun origin shown => ?_, fun flag => ?_, fun flag => ?_⟩
    · by_cases proper : origin.Proper stdio
      · exact (each origin proper shown).1
      · rw [pieces_of_improper named proper]
        exact tidy_nil.mpr (Nat.zero_le _)
    · exact (each _ (Origin.proper_stream .stdout) trivial).2 (stdoutFlag.trans flag)
    · exact (each _ (Origin.proper_stream .stderr) trivial).2 (stderrFlag.trans flag)
  · rintro ⟨tidy, stdout, stderr⟩
    have whole (origin : Origin) (flag : command.collects origin) :
        origin.Shown stdio lognames ∧ unfinished (printed origin all) = [] := by
      cases origin with
      | log name => cases flag
      | stream stream =>
        cases stream with
        | stdout => exact ⟨trivial, stdout (stdoutFlag.symm.trans flag)⟩
        | stderr => exact ⟨trivial, stderr (stderrFlag.symm.trans flag)⟩
        | header => cases flag
    have ends : ∀ origin, origin.Proper stdio → ∀ line, (feed ⟨none⟩ (pieces origin all)).1.flush.2 = some line →
        command.collects origin → line.dropLast.getLast? = some '\n' := by
      intro origin _ line out flag
      obtain ⟨shown, nothing⟩ := whole origin flag
      exact absurd (out.symm.trans ((flush_tidy (tidy origin shown)).mpr nothing)) (Option.some_ne_none _)
    have went := quiet.mpr (closed.mpr ends)
    have delivered := last went
    have each (origin : Origin) (shown : origin.Shown stdio lognames) : ended (printed origin all) =
        (feed ⟨none⟩ (pieces origin all)).2 ++ flushOf command.collects origin command.lineBoundaryFinders := by
      by_cases proper : origin.Proper stdio
      · rw [final origin proper]
        exact ((added_iff (ends origin proper)).mpr ⟨tidy origin shown, fun flag => (whole origin flag).2⟩).symm
      · rw [flushOf_improper finders.proper _ proper, printed, pieces_of_improper named proper]
        rfl
    have collected (stream : Stream) (flag : (flushAll used command command.lineBoundaryFinders).1.collects
        (.stream stream)) : (flushAll used command command.lineBoundaryFinders).1.collected stream =
          normalize (printed (.stream stream) all) := by
      have text : _ = (feed ⟨none⟩ (pieces (.stream stream) all)).2 ++ _ := delivered.collected stream flag
      rw [flushAll_collects] at flag
      rw [text, ← each (.stream stream) trivial, ended, if_pos (whole _ flag).2]
    exact ⟨went, delivered.logged.congr each, collected .stdout, collected .stderr⟩

theorem ended_line_delivered : Delivered "stdio" ["stdio"] [⟨.stream .stdout, ['a', '\n']⟩]
    (((start true false (some "stdio") ["stdio"]).updates [] [⟨.stream .stdout, ['a', '\n']⟩]).remoteComplete []) := by
  refine (output_delivered true false List.mem_cons_self ?_ ?_).mpr ⟨fun origin _ => ?_, by decide, nofun⟩
  · intro update member
    rw [List.mem_singleton.mp member]
    exact Origin.proper_stream .stdout
  · exact nofun
  · by_cases same : origin = .stream .stdout
    · subst same
      exact tidy_cons.mpr ⟨⟨Nat.zero_le _, nofun⟩, tidy_nil.mpr (by decide)⟩
    · have none : pieces origin [⟨.stream .stdout, ['a', '\n']⟩] = [] := pieces_cons_other (Ne.symm same) []
      rw [none]
      exact tidy_nil.mpr (Nat.zero_le _)

/-- A collected stream whose last line has no newline makes the command raise in the end. -/
theorem unended_raises : ¬ Delivered "stdio" ["stdio"] [⟨.stream .stdout, ['a']⟩]
    (((start true false (some "stdio") ["stdio"]).updates [] [⟨.stream .stdout, ['a']⟩]).remoteComplete []) := by
  intro delivered
  have quiet := delivered.quiet
  revert quiet
  decide

end RemoteCommand

end Umbilical.Process
