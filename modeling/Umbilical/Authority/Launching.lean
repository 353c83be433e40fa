import Umbilical.Authority.Serving

set_option autoImplicit false

/-!
# At most one physical launch

Whoever enters the launcher has marked the launch of its key before, and a
launch is marked once.
-/

namespace Umbilical.Authority

open Python Execution Interleaving

variable {isabs : Str → Bool} {sha256 : List UInt8 → Text} {π : Type} [DecidableEq π]

namespace LocalExecution

/-- The execution key of an execution, if the store takes it for one. -/
def key (execution : LocalExecution isabs sha256) : Option Text :=
  (named? (validateExecutionKey execution.executionKey)).map Subtype.val

/-- The launch of its key was claimed for its command, and is marked. -/
def Marked (execution : LocalExecution isabs sha256) (ledger : Ledger) : Prop :=
  ∃ key launch, execution.key = some key ∧ ledger.launch key = some launch ∧ launch.state ≠ .intent ∧
    execution.frozenHash = Str.ofText launch.commandSpecHash

end LocalExecution

/-- The launcher is entered for a key. -/
def Observation.enters (key : Text) : Observation isabs sha256 π → Bool
  | .entered _ execution => execution.key = some key
  | _ => false

/-- A caller reports a terminal result for a key on its own account. -/
def Event.Records (key : Text) : Event isabs → Prop
  | .call (.recordExecutionTerminalResult value _ _) _ => (named? (validateExecutionKey value)).map Subtype.val = some key
  | _ => False

omit [DecidableEq π] in
theorem Observation.Silent.enters {observed : Observation isabs sha256 π} (silent : observed.Silent) (key : Text) :
    observed.enters key = false := by
  cases observed with
  | returned | entered => cases silent
  | _ => rfl

omit [DecidableEq π] in
theorem countP_enters_silent {seen : List (Observation isabs sha256 π)} (silent : ∀ observed ∈ seen, observed.Silent)
    (key : Text) : seen.countP (Observation.enters key) = 0 :=
  List.countP_eq_zero.mpr fun observed member => by simp [(silent observed member).enters key]

/-- The mark of an execution finds a claimed launch of its key and command. -/
theorem Served.marks {before after : Ledger} {execution : LocalExecution isabs sha256} {response : Response}
    (served : Served before execution.mark response after) : ∃ key launch, execution.key = some key ∧
      before.launch key = some launch ∧ launch.state = .intent ∧ after = before.markUnknown key ∧
        execution.frozenHash = Str.ofText launch.commandSpecHash := by
  rcases served with ⟨⟨_, _, other⟩, _⟩ | served
  · cases other
  · obtain ⟨key, names, served⟩ := Option.bind_eq_some_iff.mp served
    obtain ⟨hash, namesHash, served⟩ := Option.bind_eq_some_iff.mp served
    obtain ⟨launch, intended, same⟩ := Option.map_eq_some_iff.mp served
    obtain ⟨found, hashed, state⟩ := Ledger.launchIn_eq_some.mp intended
    cases same
    refine ⟨key.val, launch, by simp [LocalExecution.key, names], found, state, rfl, ?_⟩
    obtain ⟨_, _, _, given⟩ := validateCommandSpecHash_ok (named?_eq_some.mp namesHash)
    rw [hashed]
    exact PyValue.str.inj given

section Transitions

variable {stage next : Stage isabs sha256} {before after : Ledger} {process : π} {event : Event isabs}
  {seen : List (Observation isabs sha256 π)} {execution : LocalExecution isabs sha256}

/-- Stages behind the entry of the launcher. -/
def Stage.Begun (execution : LocalExecution isabs sha256) : Stage isabs sha256 → Prop
  | .launched other | .recording other _ => other = execution
  | _ => False

omit [DecidableEq π] in
theorem Transition.launching (transition : Transition stage before process event (.launching execution) after seen) :
    (stage = .launching execution ∧ after = before ∨
      stage = .marking execution ∧ ∃ response, Served before execution.mark response after) ∧
    ∀ key, seen.countP (Observation.enters key) = 0 := by
  cases transition with
  | answered asks served =>
    cases asks with
    | mark => exact ⟨.inr ⟨rfl, _, served⟩, fun _ => rfl⟩
  | aside turns silent =>
    cases turns with
    | still => exact ⟨.inl ⟨rfl, rfl⟩, countP_enters_silent silent⟩

omit [DecidableEq π] in
theorem Transition.begun (transition : Transition stage before process event next after seen) (begun : next.Begun execution) :
    stage.Begun execution ∨ seen = [.entered process execution] := by
  cases transition with
  | answered asks served =>
    rcases asks.next_cases with rfl | ⟨_, rfl⟩ | ⟨_, rfl⟩ <;> cases begun
  | failed => cases begun
  | entered launching =>
    obtain rfl := begun
    exact .inr rfl
  | aside turns silent =>
    cases turns with
    | still => exact .inl begun
    | exited other exitCode =>
      obtain rfl := begun
      exact .inl rfl
    | stops | execute | opening | initializing | migrating => cases begun

omit [DecidableEq π] in
theorem Transition.of_entry (transition : Transition stage before process event next after seen) {who : π}
    (shown : .entered who execution ∈ seen) : stage = .launching execution := by
  cases transition with
  | answered => cases List.mem_singleton.mp shown
  | failed _ _ silent => exact (silent _ shown).elim
  | entered launching =>
    cases List.mem_singleton.mp shown
    exact launching
  | aside _ silent => exact (silent _ shown).elim

omit [DecidableEq π] in
/-- A step enters the launcher at most once, from where its process was about to. -/
theorem Transition.enters (transition : Transition stage before process event next after seen) :
    (∀ key, seen.countP (Observation.enters key) = 0) ∨
      ∃ execution, stage = .launching execution ∧ next = .launched execution ∧ after = before ∧
        seen = [.entered process execution] := by
  cases transition with
  | answered => exact .inl fun _ => rfl
  | failed _ _ silent => exact .inl (countP_enters_silent silent)
  | @entered execution launching => exact .inr ⟨execution, launching, rfl, rfl, rfl⟩
  | aside _ silent => exact .inl (countP_enters_silent silent)

end Transitions

theorem LocalExecution.Marked.appends {before after : Ledger} {execution : LocalExecution isabs sha256}
    (marked : execution.Marked before) (appends : before.Appends after) : execution.Marked after := by
  obtain ⟨key, launch, named, found, begun, hashed⟩ := marked
  obtain ⟨later, found', moves⟩ := appends.launches key launch found
  refine ⟨key, later, named, found', ?_, ?_⟩
  · cases moves with
    | still => exact begun
    | marked | ended => nofun
  · cases moves with
    | still | marked | ended => exact hashed

omit [DecidableEq π] in
theorem countP_entered (process : π) (execution : LocalExecution isabs sha256) (key : Text) :
    [Observation.entered process execution].countP (Observation.enters key) = if execution.key = some key then 1 else 0 := by
  simp [Observation.enters, List.countP_cons]

theorem LocalExecution.Marked.spent {ledger : Ledger} {execution : LocalExecution isabs sha256}
    (marked : execution.Marked ledger) {key : Text} (named : execution.key = some key) : (Fact.marked key).In ledger := by
  obtain ⟨other, launch, own, found, begun, _⟩ := marked
  obtain rfl : other = key := Option.some.inj (own.symm.trans named)
  exact ⟨launch, found, begun⟩

theorem Ledger.not_marked_of_intent {ledger : Ledger} {key : Text} {launch : ExecutionLaunch}
    (found : ledger.launch key = some launch) (intent : launch.state = .intent) : ¬ (Fact.marked key).In ledger := by
  rintro ⟨other, among, begun⟩
  obtain rfl : launch = other := Option.some.inj (found.symm.trans among)
  exact begun intent

theorem Ledger.launch_markUnknown {ledger : Ledger} {key : Text} {launch : ExecutionLaunch}
    (found : ledger.launch key = some launch) :
    (ledger.markUnknown key).launch key = some (launch.settled .unknown none) := by
  rw [markUnknown, launch_settle, if_pos rfl, found]
  rfl

/-- Only a terminal result for its key moves an unknown launch on. -/
theorem Effect.leaves_unknown {before after : Ledger} {request : Request} {response : Response} {key : Text}
    {launch later : ExecutionLaunch} (effect : Effect before request response after)
    (found : before.launch key = some launch) (found' : after.launch key = some later) (unknown : launch.state = .unknown) :
    later.state = .unknown ∨ ∃ value hash code, request = .recordExecutionTerminalResult value hash code ∧
      (named? (validateExecutionKey value)).map Subtype.val = some key := by
  have same {launch' : ExecutionLaunch} (found' : before.launch key = some launch') : launch'.state = .unknown :=
    Option.some.inj (found.symm.trans found') ▸ unknown
  cases effect with
  | @claimed _ _ _ _ name scope hash generation names namesScope expects namesHash admitted bound fresh current =>
    rw [Ledger.launch_claim] at found'
    split_ifs at found' with own
    · rw [own] at found
      cases found.symm.trans fresh
    · exact .inl (same found')
  | @marked value _ name hash launch' names namesHash among hashed intent =>
    rw [Ledger.markUnknown, Ledger.launch_settle] at found'
    split_ifs at found' with own
    · rw [among] at found'
      cases found'
      exact .inl rfl
    · exact .inl (same found')
  | @recorded value _ code name hash exitCode launch' names namesHash reports among hashed state =>
    rw [Ledger.recordTerminal, Ledger.launch_settle] at found'
    split_ifs at found' with own
    · exact .inr ⟨value, _, code, rfl, by rw [names, own]; rfl⟩
    · exact .inl (same found')
  | _ => exact .inl (same found')

namespace World

/-- What the processes have done and are about to do about the launch of one key. -/
structure Launches (key : Text) (world : World isabs sha256 π) (past : List (Observation isabs sha256 π)) : Prop where
  sound : world.Sound world.ledger
  marked : ∀ process execution, (world.processes process).stage = .launching execution → execution.Marked world.ledger
  alone : ∀ process process' execution execution', (world.processes process).stage = .launching execution →
    (world.processes process').stage = .launching execution' → execution.key = some key → execution'.key = some key →
      process = process'
  fresh : ∀ process execution, (world.processes process).stage = .launching execution → execution.key = some key →
    past.countP (Observation.enters key) = 0
  spent : 0 < past.countP (Observation.enters key) → (Fact.marked key).In world.ledger
  begun : ∀ process execution, (world.processes process).stage.Begun execution → execution.key = some key →
    0 < past.countP (Observation.enters key)
  once : past.countP (Observation.enters key) ≤ 1

variable {key : Text} {world : World isabs sha256 π} {past : List (Observation isabs sha256 π)}

omit [DecidableEq π] in
theorem start_launches (key : Text) (store : Option Database) :
    (start store : World isabs sha256 π).Launches key [] where
  sound := start_sound_any store
  marked _ _ launching := by cases launching
  alone _ _ _ _ launching := by cases launching
  fresh _ _ _ _ := rfl
  spent positive := absurd positive (lt_irrefl 0)
  begun _ _ begun := begun.elim
  once := Nat.zero_le 1

omit [DecidableEq π] in
/-- As long as the launch of the key is not marked, nobody launches it or has done so. -/
theorem Launches.unmarked (launches : world.Launches key past) (unmarked : ¬ (Fact.marked key).In world.ledger) :
    past.countP (Observation.enters key) = 0 ∧
      ∀ process execution, (world.processes process).stage = .launching execution → execution.key ≠ some key :=
  ⟨Nat.eq_zero_of_not_pos fun some_ => unmarked (launches.spent some_),
    fun process execution launching named => unmarked ((launches.marked process execution launching).spent named)⟩

/-- A process that is about to launch was so before the step, or has just marked the launch. -/
theorem Launches.launching_cases (launches : world.Launches key past) (event : π × Event isabs) {process : π}
    {execution : LocalExecution isabs sha256}
    (launching : ((world.step event).1.processes process).stage = .launching execution) :
    (world.processes process).stage = .launching execution ∨
      process = event.1 ∧ ∃ key launch, execution.key = some key ∧ world.ledger.launch key = some launch ∧
        launch.state = .intent ∧ (world.step event).1.ledger = world.ledger.markUnknown key ∧
          execution.frozenHash = Str.ofText launch.commandSpecHash := by
  have follows := launches.sound.follows event
  by_cases same : process = event.1
  · subst same
    have transition := follows.transition
    rw [launching] at transition
    rcases transition.launching.1 with ⟨before, _⟩ | ⟨_, response, served⟩
    · exact .inl before
    · exact .inr ⟨rfl, served.marks⟩
  · exact .inl ((follows.others process same).symm.trans launching)

theorem Launches.step_launches (launches : world.Launches key past) (event : π × Event isabs) :
    (world.step event).1.Launches key (past ++ (world.step event).2) := by
  have follows := launches.sound.follows event
  have appends := follows.transition.wins.1
  have just {process : π} {execution : LocalExecution isabs sha256}
      (new : process = event.1 ∧ ∃ key launch, execution.key = some key ∧ world.ledger.launch key = some launch ∧
        launch.state = .intent ∧ (world.step event).1.ledger = world.ledger.markUnknown key ∧
          execution.frozenHash = Str.ofText launch.commandSpecHash) (named : execution.key = some key) :
      past.countP (Observation.enters key) = 0 ∧
        ∀ process execution, (world.processes process).stage = .launching execution → execution.key ≠ some key := by
    obtain ⟨_, other, launch, own, found, intent, _⟩ := new
    obtain rfl : other = key := Option.some.inj (own.symm.trans named)
    exact launches.unmarked (Ledger.not_marked_of_intent found intent)
  have marked (process : π) (execution : LocalExecution isabs sha256)
      (launching : ((world.step event).1.processes process).stage = .launching execution) :
      execution.Marked (world.step event).1.ledger := by
    rcases launches.launching_cases event launching with before | ⟨_, key, launch, named, found, intent, after, hashed⟩
    · exact (launches.marked process execution before).appends appends
    · rw [after]
      exact ⟨key, _, named, Ledger.launch_markUnknown found, nofun, hashed⟩
  have alone (process process' : π) (execution execution' : LocalExecution isabs sha256)
      (launching : ((world.step event).1.processes process).stage = .launching execution)
      (launching' : ((world.step event).1.processes process').stage = .launching execution')
      (named : execution.key = some key) (named' : execution'.key = some key) : process = process' := by
    rcases launches.launching_cases event launching with before | new
    · rcases launches.launching_cases event launching' with before' | new'
      · exact launches.alone process process' execution execution' before before' named named'
      · exact absurd named ((just new' named').2 process execution before)
    · rcases launches.launching_cases event launching' with before' | new'
      · exact absurd named' ((just new named).2 process' execution' before')
      · exact new.1.trans new'.1.symm
  rcases follows.transition.enters with silent | ⟨entered, launching, launched, kept, shown⟩
  · -- nobody enters the launcher
    have counted : (past ++ (world.step event).2).countP (Observation.enters key) = past.countP (Observation.enters key) := by
      rw [List.countP_append, silent key, Nat.add_zero]
    refine ⟨follows.sound, marked, alone, fun process execution launching named => ?_, ?_, fun process execution begun named => ?_, ?_⟩
    · rw [counted]
      rcases launches.launching_cases event launching with before | new
      · exact launches.fresh process execution before named
      · exact (just new named).1
    · rw [counted]
      exact fun some_ => appends.keeps (launches.spent some_)
    · rw [counted]
      by_cases same : process = event.1
      · subst same
        rcases follows.transition.begun begun with before | shown
        · exact launches.begun event.1 execution before named
        · have none_ := silent key
          rw [shown, countP_entered, if_pos named] at none_
          cases none_
      · rw [follows.others process same] at begun
        exact launches.begun process execution begun named
    · rw [counted]
      exact launches.once
  · -- the process enters the launcher, with the launch of its key marked
    have counted : (past ++ (world.step event).2).countP (Observation.enters key) =
        past.countP (Observation.enters key) + if entered.key = some key then 1 else 0 := by
      rw [shown, List.countP_append, countP_entered]
    refine ⟨follows.sound, marked, alone, fun process execution launching' named => ?_, fun _ => ?_,
      fun process execution begun named => ?_, ?_⟩
    · have before : (world.processes process).stage = .launching execution := by
        rcases launches.launching_cases event launching' with before | ⟨same, _⟩
        · exact before
        · subst same
          cases launched.symm.trans launching'
      have another : entered.key ≠ some key := by
        intro own
        obtain rfl := launches.alone event.1 process entered execution launching before own named
        cases launched.symm.trans launching'
      rw [counted, if_neg another, Nat.add_zero]
      exact launches.fresh process execution before named
    · rename_i some_
      rw [kept]
      by_cases own : entered.key = some key
      · exact (launches.marked event.1 entered launching).spent own
      · rw [counted, if_neg own, Nat.add_zero] at some_
        exact launches.spent some_
    · rw [counted]
      by_cases same : process = event.1
      · subst same
        rw [launched] at begun
        obtain rfl : entered = execution := begun
        rw [if_pos named]
        exact Nat.succ_pos _
      · rw [follows.others process same] at begun
        exact Nat.add_pos_left (launches.begun process execution begun named) _
    · rw [counted]
      split_ifs with own
      · rw [launches.fresh event.1 entered launching own]
      · exact launches.once

/-- The launch of the key is unknown to whoever is about to launch it. -/
structure Unrecorded (key : Text) (world : World isabs sha256 π) (past : List (Observation isabs sha256 π)) : Prop where
  launches : world.Launches key past
  unknown : ∀ process execution launch, (world.processes process).stage = .launching execution →
    execution.key = some key → world.ledger.launch key = some launch → launch.state = .unknown

/-- As long as nobody else reports a terminal result for the key, only who has entered the launcher does. -/
theorem Unrecorded.step_unrecorded (unrecorded : world.Unrecorded key past) (event : π × Event isabs)
    (nobody : ¬ event.2.Records key) : (world.step event).1.Unrecorded key (past ++ (world.step event).2) where
  launches := unrecorded.launches.step_launches event
  unknown process execution later launching named found := by
    have launches := unrecorded.launches
    have transition := (launches.sound.follows event).transition
    rcases launches.launching_cases event launching with before | ⟨_, other, launch, own, among, _, after, _⟩
    · obtain ⟨other, launch, own, among, _⟩ := launches.marked process execution before
      obtain rfl : other = key := Option.some.inj (own.symm.trans named)
      have unknown := unrecorded.unknown process execution launch before named among
      have still {request : Request} {response : Response} {next : Stage isabs sha256}
          (asks : (world.processes event.1).stage.Asks event.2 request next)
          (effect : Effect world.ledger request response (world.step event).1.ledger) : later.state = .unknown := by
        rcases effect.leaves_unknown among found unknown with same | ⟨value, hash, code, rfl, names⟩
        · exact same
        · -- the process is reporting the result of a launch that it has entered
          generalize stage : (world.processes event.1).stage = current at asks
          generalize event.2 = happened at asks nobody
          cases asks with
          | call => exact absurd names nobody
          | record reporting exitCode =>
            have positive := launches.begun event.1 reporting (by rw [stage]; rfl) names
            have none_ := launches.fresh process execution before named
            omega
      generalize (world.step event).1.ledger = reached at transition still found
      generalize (world.step event).2 = shown at transition
      generalize ((world.step event).1.processes event.1).stage = next at transition
      cases transition with
      | answered asks served => exact still asks served.effect
      | failed asks uncertain silent =>
        rcases uncertain with rfl | ⟨response, served⟩
        · exact Option.some.inj (among.symm.trans found) ▸ unknown
        · exact still asks served.effect
      | entered | aside => exact Option.some.inj (among.symm.trans found) ▸ unknown
    · obtain rfl : other = key := Option.some.inj (own.symm.trans named)
      rw [after, Ledger.launch_markUnknown among] at found
      cases found
      rfl

omit [DecidableEq π] in
theorem start_unrecorded (key : Text) (store : Option Database) : (start store : World isabs sha256 π).Unrecorded key [] where
  launches := start_launches key store
  unknown _ _ _ launching := by cases launching

theorem reachable_launches (key : Text) (store : Option Database) (events : List (π × Event isabs)) :
    (final step (start store : World isabs sha256 π) events).Launches key
      (seen step (start store : World isabs sha256 π) events) :=
  @history_of_step _ _ _ step (fun world past => world.Launches key past)
    (fun _ _ event launches => launches.step_launches event) _ _ (start_launches key store) events

theorem reachable_unrecorded (key : Text) (store : Option Database) {events : List (π × Event isabs)}
    (nobody : ∀ event ∈ events, ¬ event.2.Records key) :
    (final step (start store : World isabs sha256 π) events).Unrecorded key
      (seen step (start store : World isabs sha256 π) events) :=
  @history_of_always _ _ _ step (fun _ event => ¬ event.2.Records key) (fun world past => world.Unrecorded key past)
    (fun _ _ event unrecorded => unrecorded.step_unrecorded event) _ _ (start_unrecorded key store) _
    (always_of_forall _ nobody)

/-- What is durable about the execution that enters the launcher. -/
theorem entered_marked (store : Option Database) (events : List (π × Event isabs)) {event : π × Event isabs} {who : π}
    {execution : LocalExecution isabs sha256}
    (shown : .entered who execution ∈ (step (final step (start store : World isabs sha256 π) events) event).2) :
    ((final step (start store : World isabs sha256 π) events).processes event.1).stage = .launching execution ∧
      execution.Marked (final step (start store : World isabs sha256 π) events).ledger := by
  have launches : (final step (start store : World isabs sha256 π) events).Launches [] _ := reachable_launches [] store events
  have launching := (launches.sound.follows event).transition.of_entry shown
  exact ⟨launching, launches.marked event.1 execution launching⟩

/-- The launcher is entered at most once for each key, with the launch of the key marked for the very
command and admission. The launch is still unknown, unless somebody else has reported its result. -/
theorem launched_at_most_once (store : Option Database) (events : List (π × Event isabs)) :
    (∀ key, (seen step (start store : World isabs sha256 π) events).countP (Observation.enters key) ≤ 1) ∧
    ∀ (event : π × Event isabs) who execution,
      .entered who execution ∈ (step (final step (start store : World isabs sha256 π) events) event).2 →
        ∃ key launch, execution.key = some key ∧
          (final step (start store : World isabs sha256 π) events).ledger.launch key = some launch ∧
          (launch.state = .unknown ∨ launch.state = .terminal ∧ ∃ earlier ∈ events, earlier.2.Records key) ∧
          commandSpecHash sha256 execution.commandSpec.fields = .ok (Str.ofText launch.commandSpecHash) ∧
          (final step (start store : World isabs sha256 π) events).ledger.binding key = some launch.binding ∧
          (final step (start store : World isabs sha256 π) events).ledger.admission key = some launch.admission := by
  refine ⟨fun key => (reachable_launches key store events).once, fun event who execution shown => ?_⟩
  obtain ⟨launching, key, launch, named, found, begun, hashed⟩ := entered_marked store events shown
  refine ⟨key, launch, named, found, ?_, hashed ▸ execution.hashed, Ledger.binding_of_launch _ found,
    Ledger.admission_of_launch _ found⟩
  by_cases recorded : ∃ earlier ∈ events, earlier.2.Records key
  · cases state : launch.state with
    | intent => exact absurd state begun
    | unknown => exact .inl rfl
    | terminal => exact .inr ⟨rfl, recorded⟩
  · have unrecorded : (final step (start store : World isabs sha256 π) events).Unrecorded key _ :=
      reachable_unrecorded key store fun earlier member records => recorded ⟨earlier, member, records⟩
    exact .inl (unrecorded.unknown event.1 execution launch launching named found)

end World

end Umbilical.Authority
