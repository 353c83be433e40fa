import Umbilical.Process.CommandOutput

set_option autoImplicit false

/-!
# Secrets in the output of commands

Each group of lines is cleaned up alone, so a secret of several lines can go through in two groups.
-/

namespace Umbilical.Process

open Python Lines Logs Replacing

namespace UsedSecrets

variable {used : UsedSecrets}

theorem Hidden.of_part {text part : Text} (hidden : used.Hidden text) (inside : part <:+: text) : used.Hidden part :=
  fun secret member found => hidden secret member (found.trans inside)

theorem Recorded.hidden_nil (recorded : used.Recorded) : used.Hidden [] := fun _ member inside =>
  recorded.ne_nil member (List.infix_nil.mp inside)

/-- Wherever a secret goes on after a newline, another one is in what comes before or after. -/
def Covered (used : UsedSecrets) : Prop :=
  ∀ secret ∈ used, ∀ before after, secret.1 = before ++ '\n' :: after → after ≠ [] →
    (∃ other ∈ used, other.1 <:+: before ++ ['\n']) ∨ ∃ other ∈ used, other.1 <:+: after

/-- A text to which more can be added. -/
structure Safe (used : UsedSecrets) (text : Text) : Prop where
  hidden : used.Hidden text
  closing : text = [] ∨ used.Closing text

/-- No secret goes on from a text that ends a line to the next one. -/
theorem Safe.append_hidden (covered : used.Covered) (separate : used.Separate) {front back : Text} (safe : used.Safe front)
    (hidden : used.Hidden back) : used.Hidden (front ++ back) := by
  intro secret member inside
  rcases infix_append_cases inside with here | there | ⟨left, right, something, others, same, ends, starts⟩
  · exact safe.hidden secret member here
  · exact hidden secret member there
  have last : left.getLast? = front.getLast? := by
    obtain ⟨before, rfl⟩ := ends
    rw [List.getLast?_append_of_ne_nil _ something]
  rcases safe.closing with rfl | newline | ⟨other, also, before, rfl⟩
  · exact something (List.suffix_nil.mp ends)
  · obtain ⟨before, rfl⟩ := List.getLast?_eq_some_iff.mp (last.trans newline)
    rcases covered secret member before right (by simp [same]) others with ⟨other, also, first⟩ | ⟨other, also, second⟩
    · exact safe.hidden other also (first.trans ends.isInfix)
    · exact hidden other also (second.trans starts.isInfix)
  · exact (separate secret member other also).not_from same something ends

theorem Safe.append (covered : used.Covered) (separate : used.Separate) {front back : Text} (safe : used.Safe front)
    (next : used.Safe back) : used.Safe (front ++ back) := by
  refine ⟨safe.append_hidden covered separate next.hidden, ?_⟩
  rcases next.closing with rfl | closing
  · rw [List.append_nil]
    exact safe.closing
  · right
    rcases closing with newline | ⟨secret, member, suffix⟩
    · left
      rw [List.getLast?_append, newline]
      rfl
    · exact .inr ⟨secret, member, suffix.trans (List.suffix_append front back)⟩

/-- What whole lines are cleaned up to. -/
theorem Recorded.safe (recorded : used.Recorded) (separate : used.Separate) {line : Text} (whole : Whole '\n' line)
    (something : line ≠ []) : used.Safe (used.cleanupTextFromSecrets line) :=
  ⟨separate.hidden recorded line, .inr (separate.closing recorded (.inl (getLast_eq_newline.mpr ⟨whole, something⟩)))⟩

end UsedSecrets

/-- The text of the lines of some streams in what a log contains, without their marks. -/
def storedText (marks : Char → Bool) (content : Text) : Text :=
  ((readLines '\n' content).filter fun line => line.head?.any marks).flatMap List.tail

theorem storedText_append (marks : Char → Bool) {content : Text} (whole : Whole '\n' content) {mark : Char}
    (other : mark ≠ '\n') {lines : Text} (added : Whole '\n' lines) :
    storedText marks (content ++ annotate mark lines) =
      storedText marks content ++ if marks mark then lines else [] := by
  unfold storedText
  rw [readLines_whole whole, readLines_annotate other added, List.filter_append, List.flatMap_append]
  congr 1
  cases shown : marks mark with
  | true =>
    rw [List.filter_eq_self.mpr, List.flatMap_map]
    · rw [if_pos rfl]
      exact List.flatMap_id.trans (readLines_flatten '\n' lines)
    · intro line member
      obtain ⟨inside, _, rfl⟩ := List.mem_map.mp member
      exact shown
  | false =>
    rw [List.filter_eq_nil_iff.mpr]
    · rfl
    · intro line member
      obtain ⟨inside, _, rfl⟩ := List.mem_map.mp member
      simp [shown]

namespace RemoteCommand

variable {used : UsedSecrets} {command : RemoteCommand}

/-- What the logs contain is safe to add to. -/
def LogsSafe (used : UsedSecrets) (command : RemoteCommand) : Prop :=
  ∀ name content, command.logs name = some content →
    Whole '\n' content ∧ ∀ marks, used.Safe (storedText marks content)

/-- Adding lines leaves the logs as they are or adds whole lines to one. -/
theorem addLines_logs (command : RemoteCommand) (name : String) (mark : Char) (other : mark ≠ '\n') (data : Text) :
    (command.addLines name mark data).1.logs = command.logs ∨ ∃ content, command.logs name = some content ∧
      Whole '\n' data ∧ data ≠ [] ∧
      (command.addLines name mark data).1.logs =
        Function.update command.logs name (some (content ++ annotate mark data)) := by
  unfold addLines
  split
  · exact .inl rfl
  rename_i content found
  by_cases ends : data.getLast? = some '\n'
  · obtain ⟨whole, something⟩ := getLast_eq_newline.mp ends
    rw [onWholeLines_whole mark whole something]
    exact .inr ⟨content, found, whole, something, rfl⟩
  · rw [onWholeLines_open other ends]
    exact .inl rfl

theorem addLines_collected (command : RemoteCommand) (name : String) (mark : Char) (data : Text) :
    (command.addLines name mark data).1.collected = command.collected := by
  unfold addLines
  split
  · rfl
  split
  · rfl
  · rfl

theorem addStdioLines_collected (command : RemoteCommand) (mark : Char) (data : Text) :
    (command.addStdioLines mark data).1.collected = command.collected := by
  unfold addStdioLines
  split
  · rfl
  · exact addLines_collected command _ mark data

theorem LogsSafe.addLines (covered : used.Covered) (separate : used.Separate) (safe : LogsSafe used command) {data : Text}
    (hidden : used.Hidden data) (name : String) {mark : Char} (other : mark ≠ '\n') :
    LogsSafe used (command.addLines name mark data).1 := by
  rcases command.addLines_logs name mark other data with same | ⟨content, found, whole, something, same⟩
  · unfold LogsSafe
    rwa [same]
  · intro log text shown
    rw [same] at shown
    by_cases here : log = name
    · subst here
      rw [Function.update_self] at shown
      obtain rfl := Option.some.inj shown
      obtain ⟨before, kept⟩ := safe log content found
      refine ⟨before.append (annotate_is_whole mark whole), fun marks => ?_⟩
      rw [storedText_append marks before other whole]
      split
      · exact (kept marks).append covered separate ⟨hidden, .inr (.inl (getLast_eq_newline.mpr ⟨whole, something⟩))⟩
      · rw [List.append_nil]
        exact kept marks
    · rw [Function.update_of_ne here] at shown
      exact safe log text shown

theorem LogsSafe.addStdioLines (covered : used.Covered) (separate : used.Separate) (safe : LogsSafe used command) {data : Text}
    (hidden : used.Hidden data) {mark : Char} (other : mark ≠ '\n') :
    LogsSafe used (command.addStdioLines mark data).1 := by
  unfold RemoteCommand.addStdioLines
  split
  · exact safe
  · exact safe.addLines covered separate hidden _ other

theorem LogsSafe.remoteUpdate (covered : used.Covered) (separate : used.Separate) (recorded : used.Recorded)
    (safe : LogsSafe used command) (origin : Origin) (data : Text) (isFlushed : Bool) :
    LogsSafe used (command.remoteUpdate used origin data isFlushed).1 := by
  have hidden := separate.hidden recorded data
  cases origin with
  | log name => exact safe.addLines covered separate hidden name (Logged.mark_ne .stdout)
  | stream stream =>
    rw [remoteUpdate_stream]
    have kept : LogsSafe used (command.collect stream (command.added (.stream stream)
        (used.cleanupTextFromSecrets data) isFlushed)) := by
      unfold LogsSafe
      rwa [collect_logs]
    refine kept.addStdioLines covered separate ?_ (Logged.mark_ne stream)
    unfold RemoteCommand.added
    split
    · exact hidden.of_part (List.dropLast_prefix _).isInfix
    · exact hidden

/-- What an update adds to what is collected. -/
theorem remoteUpdate_collected (origin : Origin) (data : Text) (isFlushed : Bool) {other : Stream}
    (flag : command.collects (.stream other)) : (command.remoteUpdate used origin data isFlushed).1.collected other =
      if origin = .stream other then
        command.collected other ++ command.added origin (used.cleanupTextFromSecrets data) isFlushed
      else command.collected other := by
  cases origin with
  | log name =>
    rw [if_neg nofun]
    exact congrFun (addLines_collected command name _ _) other
  | stream stream =>
    rw [remoteUpdate_stream, addStdioLines_collected, collect_collected command flag]
    by_cases same : other = stream
    · rw [if_pos same, if_pos (congrArg _ same.symm)]
    · have apart : Origin.stream stream ≠ .stream other := fun origins => same (Origin.stream.inj origins).symm
      rw [if_neg same, if_neg apart]

/-- Nothing that was stored gives a secret away. -/
structure Discreet (used : UsedSecrets) (command : RemoteCommand) : Prop where
  logs : ∀ name content, command.logs name = some content → ∀ marks, used.Hidden (storedText marks content)
  collected : ∀ stream, command.collects (.stream stream) → used.Hidden (command.collected stream)

/-- After updates: what is stored can be added to, and there is one finder for each name. -/
structure Guarded (used : UsedSecrets) (command : RemoteCommand) : Prop where
  logs : LogsSafe used command
  collected : ∀ stream, command.collects (.stream stream) → used.Safe (command.collected stream)
  distinct : Keyed.Distinct Prod.fst command.lineBoundaryFinders

theorem Guarded.discreet (guarded : Guarded used command) : Discreet used command :=
  ⟨fun name content shown marks => ((guarded.logs name content shown).2 marks).hidden,
    fun stream flag => (guarded.collected stream flag).hidden⟩

theorem distinct_setFinder (distinct : Keyed.Distinct Prod.fst command.lineBoundaryFinders) (name : String)
    (finder : LineBoundaryFinder) : Keyed.Distinct Prod.fst (command.setFinder name finder).lineBoundaryFinders := by
  unfold setFinder
  cases found : Keyed.lookup Prod.fst command.lineBoundaryFinders name with
  | some entry =>
    have keeps (entry : String × LineBoundaryFinder) : Prod.fst (entry.1, finder) = Prod.fst entry := rfl
    exact (Keyed.distinct_revise _ keeps).mpr distinct
  | none => exact Keyed.distinct_append.mpr ⟨distinct, found⟩

theorem Guarded.update (covered : used.Covered) (separate : used.Separate) (recorded : used.Recorded)
    (guarded : Guarded used command) (update : Update) : Guarded used (command.update used update) := by
  have set (finder : LineBoundaryFinder) : Guarded used (command.setFinder update.origin.name finder) :=
    ⟨guarded.logs, guarded.collected, distinct_setFinder guarded.distinct _ finder⟩
  unfold RemoteCommand.update
  cases out : ((command.finder update.origin.name).append update.data).2 with
  | none =>
    simp only [out]
    exact set _
  | some line =>
    simp only [out]
    obtain ⟨whole, something⟩ := LineBoundaryFinder.append_whole out
    have before := set ((command.finder update.origin.name).append update.data).1
    generalize command.setFinder update.origin.name ((command.finder update.origin.name).append update.data).1 = next
      at before
    obtain ⟨finders, flags⟩ := remoteUpdate_frame used next update.origin line false
    refine ⟨before.logs.remoteUpdate covered separate recorded _ _ _, fun stream flag => ?_, finders ▸ before.distinct⟩
    rw [flags] at flag
    rw [remoteUpdate_collected _ _ _ flag]
    split
    · have all : next.added update.origin (used.cleanupTextFromSecrets line) false = used.cleanupTextFromSecrets line := rfl
      rw [all]
      exact (before.collected stream flag).append covered separate (recorded.safe separate whole something)
    · exact before.collected stream flag

/-- The loop at the end gets to each stream once, so it does not matter how its last line ends. -/
theorem Discreet.flushAll (covered : used.Covered) (separate : used.Separate) (recorded : used.Recorded)
    (logs : LogsSafe used command) (collected : ∀ stream, command.collects (.stream stream) →
      used.Hidden (command.collected stream)) {entries : List (String × LineBoundaryFinder)}
    (distinct : Keyed.Distinct Prod.fst entries)
    (ahead : ∀ stream : Stream, command.collects (.stream stream) → stream.key ∈ entries.map Prod.fst →
      used.Safe (command.collected stream)) :
    Discreet used (RemoteCommand.flushAll used command entries).1 := by
  induction entries generalizing command with
  | nil => exact ⟨fun name content shown marks => ((logs name content shown).2 marks).hidden, collected⟩
  | cons entry rest ih =>
    obtain ⟨name, finder⟩ := entry
    obtain ⟨fresh, later⟩ := List.nodup_cons.mp distinct
    rw [RemoteCommand.flushAll]
    cases out : finder.flush.2 with
    | none => exact ih logs collected later fun stream flag member => ahead stream flag (List.mem_cons_of_mem _ member)
    | some line =>
      obtain ⟨whole, something⟩ := LineBoundaryFinder.flush_whole out
      have nextLogs := logs.remoteUpdate covered separate recorded (Origin.ofName name) line true
      obtain ⟨_, flags⟩ := remoteUpdate_frame used command (Origin.ofName name) line true
      have nextHidden (stream : Stream) (flag : command.collects (.stream stream)) :
          used.Hidden ((command.remoteUpdate used (Origin.ofName name) line true).1.collected stream) := by
        rw [remoteUpdate_collected _ _ _ flag]
        split
        · rename_i same
          have key : stream.key = name := by
            rw [← Origin.name_ofName name, same]
            rfl
          have safe := ahead stream flag (key ▸ List.mem_cons_self)
          have all := safe.append_hidden covered separate (separate.hidden recorded line)
          unfold RemoteCommand.added
          split
          · exact all.of_part ((List.prefix_append_right_inj _).mpr (List.dropLast_prefix _)).isInfix
          · exact all
        · exact collected stream flag
      have nextAhead (stream : Stream) (flag : command.collects (.stream stream))
          (member : stream.key ∈ rest.map Prod.fst) :
          used.Safe ((command.remoteUpdate used (Origin.ofName name) line true).1.collected stream) := by
        rw [remoteUpdate_collected _ _ _ flag, if_neg]
        · exact ahead stream flag (List.mem_cons_of_mem _ member)
        · intro same
          have key : stream.key = name := by
            rw [← Origin.name_ofName name, same]
            rfl
          exact fresh (key ▸ member)
      rw [← flags] at nextHidden nextAhead
      dsimp only
      cases result : command.remoteUpdate used (Origin.ofName name) line true with
      | mk next raised =>
        rw [result] at nextLogs nextHidden nextAhead
        cases raised with
        | true => exact ⟨fun log content shown marks => ((nextLogs log content shown).2 marks).hidden, nextHidden⟩
        | false => exact ih nextLogs nextHidden later nextAhead

theorem start_guarded (recorded : used.Recorded) (collectStdout collectStderr : Bool) (stdioLogName : Option String)
    (lognames : List String) : Guarded used (start collectStdout collectStderr stdioLogName lognames) := by
  have empty : used.Safe [] := ⟨recorded.hidden_nil, .inl rfl⟩
  refine ⟨fun name content shown => ?_, fun stream _ => ?_, List.nodup_nil⟩
  · have nothing : content = [] := by
      revert shown
      unfold start
      dsimp only
      split
      · exact fun same => (Option.some.inj same).symm
      · exact nofun
    rw [nothing]
    exact ⟨.inl rfl, fun marks => empty⟩
  · cases stream
    all_goals exact empty

theorem Guarded.updates (covered : used.Covered) (separate : used.Separate) (recorded : used.Recorded)
    (guarded : Guarded used command) (all : List Update) : Guarded used (command.updates used all) := by
  induction all generalizing command with
  | nil => exact guarded
  | cons update rest ih => exact ih (guarded.update covered separate recorded update)

theorem storedText_single (mark : Char) (content : Text) :
    storedText (fun other => other = mark) content = (linesOf mark content).flatten := by
  unfold storedText linesOf
  rw [List.flatMap_def]
  congr 2
  apply List.filter_congr
  intro line _
  cases line with
  | nil => rfl
  | cons char line => simp

/-- A group of lines without a secret is stored as it is. -/
theorem update_line {stdio : String} {lognames : List String} {text : Origin → Text}
    (passed : Passed stdio lognames command text) (finders : Finders stdio command) {origin : Origin}
    (proper : origin.Proper stdio) (empty : (command.finder origin.name).pending = []) {line : Text}
    (inert : ∀ char ∈ line, Inert char) (whole : Whole '\n' line) (something : line ≠ []) (hidden : used.Hidden line) :
    Passed stdio lognames (command.update used ⟨origin, line⟩) (Function.update text origin (text origin ++ line)) ∧
      Finders stdio (command.update used ⟨origin, line⟩) ∧
      ((command.update used ⟨origin, line⟩).finder origin.name).pending = [] := by
  obtain ⟨out, kept⟩ := LineBoundaryFinder.append_line empty inert whole something
  have clean (other : Text) (shown : ((command.finder origin.name).append line).2 = some other) :
      used.cleanupTextFromSecrets other = other := by
    rw [← Option.some.inj (out.symm.trans shown)]
    exact UsedSecrets.cleanup_of_absent hidden
  obtain ⟨next, sets, _, found⟩ := @Passed.update used command stdio lognames text passed finders ⟨origin, line⟩ proper clean
  rw [out] at next
  refine ⟨next, sets, ?_⟩
  rw [found, if_pos rfl]
  exact kept

/-- Two such groups are stored one after the other. -/
theorem two_groups_stored (first second : Text) (inert : ∀ char ∈ first ++ second, Inert char)
    (whole : Whole '\n' first ∧ first ≠ []) (ends : Whole '\n' second ∧ second ≠ []) (hidden : used.Hidden first)
    (absent : used.Hidden second) :
    ∃ content, ((start false false (some "stdio") ["stdio"]).updates used
        [⟨.stream .stdout, first⟩, ⟨.stream .stdout, second⟩]).logs "stdio" = some content ∧
      storedText (fun other => other = 'o') content = first ++ second := by
  have proper : (Origin.stream .stdout).Proper "stdio" := Origin.proper_stream .stdout
  obtain ⟨one, sets, kept⟩ := update_line (start_passed false false (List.mem_cons_self : "stdio" ∈ ["stdio"]))
    (start_finders false false) proper rfl (fun char member => inert char (List.mem_append_left _ member)) whole.1
    whole.2 hidden
  obtain ⟨two, _, _⟩ := update_line one sets proper kept (fun char member => inert char (List.mem_append_right _ member))
    ends.1 ends.2 absent
  obtain ⟨content, shown, _, lines⟩ := two.logged.streams
  refine ⟨content, shown, ?_⟩
  have stored := storedText_single Stream.stdout.mark content
  rw [lines .stdout, readLines_flatten, Function.update_self, Function.update_self] at stored
  exact stored

/-- For every output, however it is cut, what is stored has no used secret. -/
theorem secrets_hidden (recorded : used.Recorded) (separate : used.Separate) (covered : used.Covered)
    (collectStdout collectStderr : Bool) (stdioLogName : Option String) (lognames : List String) (all : List Update) :
    Discreet used ((start collectStdout collectStderr stdioLogName lognames).updates used all) ∧
      Discreet used (((start collectStdout collectStderr stdioLogName lognames).updates used all).remoteComplete
        used).1 := by
  have guarded := (start_guarded recorded collectStdout collectStderr stdioLogName lognames).updates covered separate
    recorded all
  refine ⟨guarded.discreet, ?_⟩
  exact Discreet.flushAll covered separate recorded guarded.logs guarded.discreet.collected guarded.distinct
    fun stream flag _ => guarded.collected stream flag

/-- A secret of several lines is stored in two groups, unless a shorter one is in one of them. -/
theorem covered_of_hidden (recorded : used.Recorded) (separate : used.Separate)
    (inert : ∀ secret ∈ used, ∀ char ∈ secret.1 ++ secret.2, Inert char)
    (discreet : ∀ all, Discreet used ((start false false (some "stdio") ["stdio"]).updates used all)) :
    used.Covered := by
  intro secret member before after same something
  by_contra neither
  obtain ⟨first, second⟩ := not_or.mp neither
  -- The second group ends with what stands for the secret, so that it has a visible last line.
  have absent : used.Hidden (after ++ (secret.2 ++ ['\n'])) := by
    intro other also found
    rcases (separate other also secret member).infix_cases found with here | last
    · exact second ⟨other, also, here⟩
    · apply recorded.visible other also
      rw [List.all_eq_true]
      intro char listed
      rw [List.mem_singleton.mp (last.subset listed)]
      decide
  have inside (char : Char) (listed : char ∈ before ++ ['\n'] ++ (after ++ (secret.2 ++ ['\n']))) : Inert char := by
    apply inert secret member
    rw [same]
    simp only [List.mem_append, List.mem_cons, List.not_mem_nil, or_false] at listed ⊢
    tauto
  obtain ⟨content, shown, stored⟩ := two_groups_stored (before ++ ['\n']) (after ++ (secret.2 ++ ['\n'])) inside
    ⟨.inr ⟨before, rfl⟩, by simp⟩ ⟨.inr ⟨after ++ secret.2, by simp⟩, by simp⟩
    (fun other also found => first ⟨other, also, found⟩) absent
  apply (discreet _).logs "stdio" content shown (fun other => other = 'o') secret member
  rw [stored, same]
  exact ⟨[], secret.2 ++ ['\n'], by simp⟩

end RemoteCommand

end Umbilical.Process
