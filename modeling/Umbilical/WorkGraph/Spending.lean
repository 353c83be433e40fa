import Umbilical.WorkGraph.Checks
import Umbilical.WorkGraph.Client

set_option autoImplicit false

/-!
# What a client spends

A client changes the store only after every check, for the key of what it has checked
and the command that it has prepared.
-/

namespace Umbilical.WorkGraph

open Python Authority Execution Program

variable {isabs : Str → Bool}

/-- A request that changes nothing. -/
def AsksOnly : Request → Prop
  | .readGeneration _ | .isCurrentGeneration _ _ | .executionKeyExists _ | .readCommandSpecHash _ | .readExecutionAdmission _ |
    .readExecutionLaunch _ => True
  | _ => False

/-- An action that leaves the store as it is. -/
def Action.Spares : Action isabs → Prop
  | .request asked => AsksOnly asked
  | .execute _ _ _ _ | .initializeNew _ => False
  | _ => True

theorem spares_of_asks {α : Type} {program : Client isabs α} {returns : α → Prop} (asks : program.Within Action.Asks returns) :
    program.Within Action.Spares fun _ => True := by
  refine (asks.imp fun action asks => ?_).any
  cases action with
  | ask => trivial
  | _ => exact asks.elim

theorem spares_request (asked : Request) (only : AsksOnly asked) : (request asked : Client isabs _).Within Action.Spares fun _ => True :=
  Within.bind (Within.act only) fun _ _ => (Within.lift _).any

theorem spares_bind {α β : Type} {first : Client isabs α} {next : α → Client isabs β} (spares : first.Within Action.Spares fun _ => True)
    (rest : ∀ value, (next value).Within Action.Spares fun _ => True) : (first >>= next).Within Action.Spares fun _ => True :=
  Within.bind spares fun value _ => rest value

/-- A request is what is done next, or has been answered. -/
theorem request_behind {α : Type} {history : ClientHistory isabs} {asked : Request} {next : Response → Client isabs α}
    {action : Action isabs} {rest : action.Answer → Client isabs α}
    (told : (request asked >>= next).Told history (perform action rest)) :
    action = .request asked ∨
      ∃ response later, history = ⟨.request asked, .ok response⟩ :: later ∧ (next response).Told later (perform action rest) := by
  cases told with
  | still => exact .inl rfl
  | @answered _ _ reply later _ told =>
    cases reply with
    | ok response => exact .inr ⟨response, later, rfl, told⟩
    | error => cases told

/-- What a run does to the store, by what it has been told before. -/
inductive Spends (history : ClientHistory isabs) (key : Str) (command : LocalCommandSpec isabs × Str) : Action isabs → Prop
  | registers : Spends history key command (.request (.registerExecutionKey (.str key)))
  | binds : Spends history key command (.request (.bindCommandSpecHash (.str key) (.str command.2)))
  | admits {generation : Int} {response : Response}
      (bound : Replied history (.bindCommandSpecHash (.str key) (.str command.2)) response)
      (current : Replied history (.readGeneration (textValue authorityScope)) (.generation (some generation))) :
      Spends history key command (.request (.admitExecution (.str key) (textValue authorityScope) (.int generation)))
  | executes {generation : Int} {response : Response}
      (bound : Replied history (.bindCommandSpecHash (.str key) (.str command.2)) response)
      (current : Replied history (.readGeneration (textValue authorityScope)) (.generation (some generation)))
      (admitted : (∃ response, Replied history (.admitExecution (.str key) (textValue authorityScope) (.int generation)) response) ∨
        ∃ admission, Replied history (.readExecutionAdmission (.str key)) (.admitted (some admission)) ∧
          admission.controllerGeneration = generation) :
      Spends history key command (.execute (.str key) (textValue authorityScope) (.int generation) command.1)

theorem Replied.mono {history more : ClientHistory isabs} {asked : Request} {response : Response}
    (replied : Replied history asked response) (grows : history ⊆ more) : Replied more asked response := grows replied

theorem Spends.mono {history more : ClientHistory isabs} {key : Str} {command : LocalCommandSpec isabs × Str} {action : Action isabs}
    (spends : Spends history key command action) (grows : history ⊆ more) : Spends more key command action := by
  cases spends with
  | registers => exact .registers
  | binds => exact .binds
  | admits bound current => exact .admits (bound.mono grows) (current.mono grows)
  | executes bound current admitted =>
    refine .executes (bound.mono grows) (current.mono grows) ?_
    rcases admitted with ⟨response, replied⟩ | ⟨admission, replied, same⟩
    · exact .inl ⟨response, replied.mono grows⟩
    · exact .inr ⟨admission, replied.mono grows, same⟩

section Steps

variable {history : ClientHistory isabs} {action : Action isabs} {key : Str}

theorem register_behind {α : Type} {exists_ : Bool} {next : Unit → Client isabs α} {rest : action.Answer → Client isabs α}
    (told : (register (.str key) exists_ >>= next).Told history (perform action rest)) :
    action = .request (.registerExecutionKey (.str key)) ∨
      ∃ first later, history = first ++ later ∧ (next ()).Told later (perform action rest) := by
  unfold register at told
  split at told
  · rw [bind_eq, bind_eq, bind_assoc] at told
    rcases request_behind told with now | ⟨response, later, rfl, goesOn⟩
    · exact .inl now
    · exact .inr ⟨[_], later, rfl, goesOn⟩
  · exact .inr ⟨[], history, rfl, told⟩

/-- An execution is what is done next, or has ended. -/
theorem execute_behind {α : Type} {scope generation : PyValue} {commandSpec : LocalCommandSpec isabs}
    {next : LocalExecutionResult → Client isabs α} {rest : action.Answer → Client isabs α}
    (told : (executeLocalCommand (.str key) scope generation commandSpec >>= next).Told history (perform action rest)) :
    action = .execute (.str key) scope generation commandSpec ∨
      ∃ result later, (Program.bind (Program.lift result) next).Told later (perform action rest) := by
  cases told with
  | still => exact .inl rfl
  | @answered _ _ reply later _ told => exact .inr ⟨reply, later, told⟩

theorem spares_publishTerminalStatus (target : VerifiedWorkGraphTarget) (exitCode : Int) (token : Text) :
    (publishTerminalStatus target exitCode token : Client isabs _).Within Action.Spares fun _ => True := by
  unfold publishTerminalStatus
  refine spares_bind (spares_of_asks (verifyWorkgraphTarget_authentic _ _)) fun current => ?_
  split
  · trivial
  · refine spares_bind (Within.handle ?_ fun error => ?_) fun status => ?_
    · exact Within.bind (Within.act trivial) fun _ _ => (Within.lift _).any
    · split <;> trivial
    · split <;> trivial

theorem spares_observe (target : VerifiedWorkGraphTarget) (token : Text) (prior : ExecutionLaunch) :
    (observe target key token prior : Client isabs _).Within Action.Spares fun _ => True := by
  unfold observe
  dsimp only
  split
  · trivial
  · split
    · trivial
    · exact spares_bind (spares_publishTerminalStatus target _ token) fun _ => trivial

theorem spares_readExecutionAdmission (key : Str) :
    (readExecutionAdmission (.str key) : Client isabs _).Within Action.Spares fun _ => True := by
  unfold readExecutionAdmission
  refine spares_bind (spares_request _ trivial) fun response => ?_
  split <;> trivial

theorem readExecutionAdmission_done {admission : ExecutionAdmission}
    (told : (readExecutionAdmission (.str key)).Told history (done (some admission))) :
    Replied history (.readExecutionAdmission (.str key)) (.admitted (some admission)) := by
  obtain ⟨first, later, response, rfl, asked, told⟩ := told.bind_done
  split at told
  · obtain ⟨rfl, rfl⟩ := told.done_done
    exact (request_done asked).mono (List.subset_append_left _ _)
  · cases told.done_done.2

theorem spares_readGeneration (scope : PyValue) :
    (readGeneration scope : Client isabs _).Within Action.Spares fun _ => True := by
  unfold readGeneration
  refine spares_bind (spares_request _ trivial) fun response => ?_
  split <;> trivial

theorem readGeneration_done {scope : PyValue} {generation : Int}
    (told : (readGeneration scope).Told history (done (some generation))) :
    Replied history (.readGeneration scope) (.generation (some generation)) := by
  obtain ⟨first, later, response, rfl, asked, told⟩ := told.bind_done
  split at told
  · obtain ⟨rfl, rfl⟩ := told.done_done
    exact (request_done asked).mono (List.subset_append_left _ _)
  · cases told.done_done.2

theorem ensureAdmission_behind {α : Type} {generation : Int} {next : Unit → Client isabs α} {rest : action.Answer → Client isabs α}
    (told : (ensureAdmission (.str key) generation >>= next).Told history (perform action rest)) (changes : ¬ action.Spares) :
    action = .request (.admitExecution (.str key) (textValue authorityScope) (.int generation)) ∨
      ∃ first later, history = first ++ later ∧ (next ()).Told later (perform action rest) ∧
        ((∃ response, Replied first (.admitExecution (.str key) (textValue authorityScope) (.int generation)) response) ∨
          ∃ admission, Replied first (.readExecutionAdmission (.str key)) (.admitted (some admission)) ∧
            admission.controllerGeneration = generation) := by
  unfold ensureAdmission at told
  rw [bind_eq, bind_eq, bind_assoc] at told
  obtain ⟨first, later, found, rfl, read, told⟩ := (spares_readExecutionAdmission key).behind changes told
  cases found with
  | none =>
    rw [bind_eq, bind_assoc] at told
    rcases request_behind told with now | ⟨response, later, rfl, goesOn⟩
    · exact .inl now
    · refine .inr ⟨first ++ [_], later, List.append_cons _ _ _, goesOn, .inl ⟨response, ?_⟩⟩
      exact List.mem_append_right _ (List.mem_singleton_self _)
  | some admission =>
    dsimp only at told
    split at told
    · cases told
    · next current => exact .inr ⟨first, later, rfl, told, .inr ⟨admission, readExecutionAdmission_done read, not_not.mp current⟩⟩

theorem launch_spends {target : VerifiedWorkGraphTarget} {token : Text} {exists_ : Bool} {command : LocalCommandSpec isabs × Str}
    {rest : action.Answer → Client isabs WorkGraphClientResult}
    (told : (launch target key token exists_ command).Told history (perform action rest)) (changes : ¬ action.Spares) :
    Spends history key command action := by
  unfold launch at told
  rcases register_behind told with rfl | ⟨first, behind, rfl, bindNext⟩
  · exact .registers
  · rcases request_behind bindNext with rfl | ⟨response, _, rfl, readNext⟩
    · exact .binds
    · obtain ⟨second, _, generation, rfl, read, admitNext⟩ := (spares_readGeneration _).behind changes readNext
      cases generation with
      | none => cases admitNext
      | some generation =>
        have current := readGeneration_done read
        have bound {more : ClientHistory isabs} : Replied (first ++ ⟨.request (.bindCommandSpecHash (.str key) (.str command.2)),
            .ok response⟩ :: more) (.bindCommandSpecHash (.str key) (.str command.2)) response :=
          List.mem_append_right _ (List.mem_cons_self)
        rcases ensureAdmission_behind admitNext changes with rfl | ⟨third, last, rfl, executes, admitted⟩
        · exact .admits bound (current.mono fun _ member => by simp [member])
        · rcases execute_behind executes with rfl | ⟨result, after, behind⟩
          · refine .executes bound (current.mono fun _ member => by simp [member]) ?_
            · rcases admitted with ⟨reply, replied⟩ | ⟨admission, replied, same⟩
              · exact .inl ⟨reply, replied.mono fun _ member => by simp [member]⟩
              · exact .inr ⟨admission, replied.mono fun _ member => by simp [member], same⟩
          · -- what comes after an execution changes nothing
            have spares : (Program.bind (Program.lift result) fun execution : LocalExecutionResult =>
                (publishTerminalStatus target execution.exitCode token).bind fun _ =>
                  pure ⟨key, some execution.commandSpecHash, some execution.exitCode, some .terminal, true⟩ :
                Client isabs WorkGraphClientResult).Within Action.Spares fun _ => True :=
              spares_bind (Within.lift result).any fun execution =>
                spares_bind (spares_publishTerminalStatus target execution.exitCode token) fun _ => trivial
            exact absurd (spares.told behind).1 changes

/-- The store has not told of a launch of the key. -/
def Unlaunched (history : ClientHistory isabs) (key : Str) : Prop :=
  (∃ response, Replied history (.executionKeyExists (.str key)) response ∧ response ≠ .present true) ∨
    ∃ response, Replied history (.readExecutionLaunch (.str key)) response ∧ ∀ prior, response ≠ .launch (some prior)

theorem Unlaunched.mono {more : ClientHistory isabs} (unlaunched : Unlaunched history key) (grows : history ⊆ more) : Unlaunched more key := by
  rcases unlaunched with ⟨response, replied, other⟩ | ⟨response, replied, other⟩
  · exact .inl ⟨response, replied.mono grows, other⟩
  · exact .inr ⟨response, replied.mono grows, other⟩

theorem spares_executionKeyExists (value : PyValue) :
    (executionKeyExists value : Client isabs _).Within Action.Spares fun _ => True := by
  unfold executionKeyExists
  refine spares_bind (spares_request _ trivial) fun response => ?_
  split <;> trivial

theorem executionKeyExists_done (told : (executionKeyExists (.str key)).Told history (done false)) : Unlaunched history key := by
  obtain ⟨first, later, response, rfl, asked, told⟩ := told.bind_done
  refine .inl ⟨response, (request_done asked).mono (List.subset_append_left _ _), fun same => ?_⟩
  subst same
  cases told.done_done.2

theorem spares_readPrior (value : PyValue) (exists_ : Bool) :
    (readPrior value exists_ : Client isabs _).Within Action.Spares fun _ => True := by
  unfold readPrior readExecutionLaunch
  split
  · refine spares_bind (spares_request _ trivial) fun response => ?_
    split <;> trivial
  · trivial

theorem readPrior_done {exists_ : Bool} (told : (readPrior (.str key) exists_).Told history (done none)) :
    exists_ = false ∨ Unlaunched history key := by
  cases exists_ with
  | false => exact .inl rfl
  | true =>
    obtain ⟨first, later, response, rfl, asked, told⟩ := told.bind_done
    refine .inr (.inr ⟨response, (request_done asked).mono (List.subset_append_left _ _), fun prior same => ?_⟩)
    subst same
    cases told.done_done.2

end Steps

/-- The store is changed for an authenticated target under a committed contract, without a launch of its key, with a
command that has been prepared for them. -/
def Justified (db : CharacterDatabase) (sha256 : List UInt8 → Text) (asked : WorkGraphRequest) (history : ClientHistory isabs)
    (action : Action isabs) : Prop :=
  ∃ token target contract key checkout command, target.Authentic asked.revision ∧ Attested history token target ∧
    ContractCommitted db history contract ∧ executionKey target contract = .ok key ∧ Unlaunched history key ∧
      Prepared db sha256 history target contract checkout asked.timeoutSeconds command ∧ Spends history key command action

section Runs

variable {pathlib : Pathlib} {db : CharacterDatabase} {sha256 : List UInt8 → Text} {history : ClientHistory isabs}
  {action : Action isabs} {asked : WorkGraphRequest} {rest : action.Answer → Client isabs WorkGraphClientResult}

theorem useStore_spends {target : VerifiedWorkGraphTarget} {contract token : Text} {key : Str}
    (told : (useStore pathlib db sha256 asked target contract token key).Told history (perform action rest)) (changes : ¬ action.Spares) :
    Unlaunched history key ∧ ∃ checkout command,
      Prepared db sha256 history target contract checkout asked.timeoutSeconds command ∧ Spends history key command action := by
  unfold useStore at told
  obtain ⟨first, _, exists_, rfl, existing, readNext⟩ := (spares_executionKeyExists _).behind changes told
  obtain ⟨second, _, prior, rfl, read, prepareNext⟩ := (spares_readPrior _ exists_).behind changes readNext
  cases prior with
  | some prior => exact absurd ((spares_observe target token prior).told prepareNext).1 changes
  | none =>
    obtain ⟨third, last, command, rfl, prepares, launches⟩ :=
      (spares_of_asks (asks_prepareCommand pathlib db sha256 asked target contract key)).behind changes prepareNext
    obtain ⟨checkout, prepared⟩ := prepareCommand_done prepares
    refine ⟨?_, checkout, command, by simpa using prepared.append (first ++ second) last,
      (launch_spends launches changes).mono fun _ member => by simp [member]⟩
    rcases readPrior_done read with rfl | unlaunched
    · exact (executionKeyExists_done existing).mono fun _ member => by simp [member]
    · exact unlaunched.mono fun _ member => by simp [member]

/-- Whatever a run is told, it changes the store only with every reason to. -/
theorem runWorkgraphClient_justified
    (told : (runWorkgraphClient pathlib db sha256 asked).Told history (perform action rest)) (changes : ¬ action.Spares) :
    Justified db sha256 asked history action := by
  unfold runWorkgraphClient at told
  obtain ⟨h1, _, _, rfl, _, told1⟩ := (spares_of_asks (asks_inside _)).behind changes told
  obtain ⟨h2, _, _, rfl, _, told2⟩ := (spares_of_asks asks_requireWindows).behind changes told1
  obtain ⟨h3, _, token, rfl, _, told3⟩ := (spares_of_asks asks_requireToken).behind changes told2
  obtain ⟨h4, _, target, rfl, verified, told4⟩ := (spares_of_asks (verifyWorkgraphTarget_authentic _ token)).behind changes told3
  obtain ⟨h5, _, contract, rfl, committed, told5⟩ := (spares_of_asks (asks_contractTree pathlib db)).behind changes told4
  obtain ⟨h6, _, key, rfl, derived, told6⟩ := (spares_of_asks (asks_inside _)).behind changes told5
  unfold withStore at told6
  obtain ⟨h7, _, path, rfl, _, told7⟩ := (spares_of_asks (asks_authorityStorePath pathlib)).behind changes told6
  obtain ⟨h8, _, _, rfl, _, told8⟩ := (spares_of_asks (asks_assertAuthorityStoreOutsideCheckouts pathlib path)).behind changes told7
  have opens : (openStore path : Client isabs _).Within Action.Spares fun _ => True :=
    Within.bind (Within.act trivial) fun _ _ => (spares_of_asks (asks_inside _)).any
  obtain ⟨h9, last, _, rfl, _, told9⟩ := opens.behind changes told8
  have closes : (Program.act (Action.close) : Client isabs Unit).Within Action.Spares fun _ => True := Within.act trivial
  obtain ⟨_, block⟩ := closes.before changes told9
  obtain ⟨attested, authentic⟩ := verifyWorkgraphTarget_done verified
  obtain ⟨unlaunched, checkout, command, prepared, spends⟩ := useStore_spends block changes
  refine ⟨token, target, contract, key, checkout, command, authentic, attested.mono fun _ member => by simp [member],
    (contractTree_done committed).mono fun _ member => by simp [member], (inside_done derived).2,
    unlaunched.mono fun _ member => by simp [member], ?_, spends.mono fun _ member => by simp [member]⟩
  simpa using prepared.append (h1 ++ (h2 ++ (h3 ++ (h4 ++ (h5 ++ (h6 ++ (h7 ++ (h8 ++ h9)))))))) []

end Runs

end Umbilical.WorkGraph
