import Umbilical.WorkGraph.Checks
import Umbilical.WorkGraph.Client

set_option autoImplicit false

/-!
# The validation of a checkout

What the launched command does: both trees are verified, and then the stages are run in
the checkout, one after the other.
-/

namespace Umbilical.WorkGraph

open Python Authority Execution Program

variable {isabs : Str → Bool}

section Validation

variable (pathlib : Pathlib) (db : CharacterDatabase)

/-- `_checkout_is_exact_and_clean`. -/
def checkoutIsExactAndClean (checkoutRoot : Path) (expectedRevision expectedTree : Text) : Client isabs Bool := do
  if (← gitOutput db checkoutRoot headArguments) ≠ some expectedRevision then return false
  else if (← gitOutput db checkoutRoot treeArguments) ≠ some expectedTree then return false
  else return (← gitOutput db checkoutRoot statusArguments) = some []

/-- A stage could not be started, or has ended. -/
def stageEnded (goesOn : Client isabs Int) : Option Int → Client isabs Int
  | none => return 127
  | some returncode => if returncode ≠ 0 then return returncode else goesOn

def runStage (checkoutRoot : Path) (command : List Text) : Client isabs (Option Int) := do
  try some <$> ask (.runIn checkoutRoot command) catch
    | .fault .osError => pure none
    | error => throw error

/-- The loop over the stages. -/
def runStages (checkoutRoot : Path) : List (List Text) → Client isabs Int
  | [] => return 0
  | command :: rest => do stageEnded (runStages checkoutRoot rest) (← runStage checkoutRoot command)

def validationStages (executable : Text) : List (List Text) :=
  [[executable, "tools/validate.py".toList],
    [executable, "-m".toList, "unittest".toList, "discover".toList, "-s".toList, "tests".toList, "-v".toList]]

def runValidation (checkoutRoot : Path) (expectedRevision expectedTree expectedContractTree : Text) (integrityOnly : Bool) :
    Client isabs Int := do
  let contractRoot ← contractRoot pathlib
  if (← committedCleanTree pathlib db contractRoot) ≠ some expectedContractTree then return 2
  else if (← checkoutIsExactAndClean db checkoutRoot expectedRevision expectedTree) = false then return 2
  else if integrityOnly then return 0
  else
    let executable : Text ← ask .executable
    runStages checkoutRoot (validationStages executable)

/-- `main`. An error of the parser exits with 2. -/
def validationMain (checkoutRoot : Text) (expectedRevision expectedTree expectedContractTree : Text) (integrityOnly : Bool) :
    Client isabs Int := do
  let checkoutRoot ← resolve (pathlib.path checkoutRoot)
  if ← isDir checkoutRoot then
    runValidation pathlib db checkoutRoot expectedRevision expectedTree expectedContractTree integrityOnly
  else return 2

end Validation

/-! ## What its exit code says -/

def ranOne : Sigma (Action.Answer isabs) → Option (Path × List Text × Except Fault Int)
  | ⟨.ask (.runIn directory command), ended⟩ => some (directory, command, ended)
  | _ => none

/-- The commands that were run in a directory, with how they have ended. -/
def ranIn (history : ClientHistory isabs) : List (Path × List Text × Except Fault Int) := history.filterMap ranOne

theorem ranIn_append (history more : ClientHistory isabs) : ranIn (history ++ more) = ranIn history ++ ranIn more :=
  List.filterMap_append

theorem ranIn_asks {α : Type} {program rest : Client isabs α} {history : ClientHistory isabs} {returns : α → Prop}
    (asks : program.Within Action.Asks returns) (told : program.Told history rest) : ranIn history = [] := by
  induction told with
  | still => rfl
  | @answered action _ reply history _ _ ih =>
    have later : ranIn history = [] := ih (asks.2 reply)
    cases action with
    | ask question =>
      cases question with
      | runIn => exact asks.1.elim
      | _ => exact later
    | _ => exact later

section Ended

variable {pathlib : Pathlib} {db : CharacterDatabase} {history : ClientHistory isabs} {root : Path}

/-- The stages have all ended with 0, or the code is that of the first one that has not. -/
def StagesEnded (root : Path) (stages : List (List Text)) (ran : List (Path × List Text × Except Fault Int)) (exitCode : Int) : Prop :=
  exitCode = 0 ∧ ran = stages.map (fun stage => (root, stage, .ok 0)) ∨
    ∃ passed failed rest ended, stages = passed ++ failed :: rest ∧
      ran = passed.map (fun stage => (root, stage, .ok 0)) ++ [(root, failed, ended)] ∧
        (ended = .ok exitCode ∧ exitCode ≠ 0 ∨ ended = .error .osError ∧ exitCode = 127)

theorem runStage_done {stage : List Text} {completed : Option Int} (told : (runStage root stage).Told history (done completed)) :
    (∃ returncode, completed = some returncode ∧ ranIn history = [(root, stage, .ok returncode)]) ∨
      completed = none ∧ ranIn history = [(root, stage, .error .osError)] := by
  rcases told.handle_done with ran | ⟨raising, caught, error, rfl, raised, handled⟩
  · obtain ⟨asking, _, returncode, rfl, asked, mapped⟩ := ran.bind_done
    obtain ⟨rfl, rfl⟩ := mapped.done_done
    obtain rfl := ask_exact asked
    exact .inl ⟨returncode, rfl, rfl⟩
  · rcases raised.bind_raise with asked | ⟨_, _, _, _, _, mapped⟩
    · obtain ⟨fault, rfl, rfl⟩ := ask_raised asked
      cases fault with
      | osError =>
        obtain ⟨rfl, rfl⟩ := handled.done_done
        exact .inr ⟨rfl, rfl⟩
      | valueError | other => exact handled.raise_done.elim
    · cases mapped

theorem runStages_done {stages : List (List Text)} {exitCode : Int}
    (told : (runStages root stages).Told history (done exitCode)) : StagesEnded root stages (ranIn history) exitCode := by
  induction stages generalizing history with
  | nil =>
    obtain ⟨rfl, rfl⟩ := told.done_done
    exact .inl ⟨rfl, rfl⟩
  | cons stage stages ih =>
    obtain ⟨first, later, completed, rfl, ran, goesOn⟩ := told.bind_done
    rw [ranIn_append]
    rcases runStage_done ran with ⟨returncode, rfl, shown⟩ | ⟨rfl, shown⟩
    · rw [shown]
      by_cases succeeded : returncode = 0
      · subst succeeded
        rcases ih goesOn with ⟨rfl, all⟩ | ⟨passed, failed, rest, ended, rfl, all, code⟩
        · exact .inl ⟨rfl, by rw [all]; rfl⟩
        · exact .inr ⟨stage :: passed, failed, rest, ended, rfl, by rw [all]; rfl, code⟩
      · rw [stageEnded, if_pos succeeded] at goesOn
        obtain ⟨rfl, rfl⟩ := goesOn.done_done
        exact .inr ⟨[], stage, stages, .ok exitCode, rfl, rfl, .inl ⟨rfl, succeeded⟩⟩
    · obtain ⟨rfl, rfl⟩ := goesOn.done_done
      rw [shown]
      exact .inr ⟨[], stage, stages, .error .osError, rfl, rfl, .inr ⟨rfl, rfl⟩⟩

/-- Both trees are as they should be. -/
structure Intact (db : CharacterDatabase) (history : ClientHistory isabs) (root : Path) (revision tree contract : Text) : Prop where
  contract : ContractCommitted db history contract
  head : GitSaid db history root headArguments revision
  tree : GitSaid db history root treeArguments tree
  status : GitSaid db history root statusArguments []

theorem checkoutIsExactAndClean_done {revision tree : Text} (told : (checkoutIsExactAndClean db root revision tree).Told history (done true)) :
    GitSaid db history root headArguments revision ∧ GitSaid db history root treeArguments tree ∧
      GitSaid db history root statusArguments [] := by
  obtain ⟨first, _, head, rfl, headed, told1⟩ := told.bind_done
  split at told1
  · cases told1.done_done.2
  · next sameHead =>
    obtain ⟨second, _, actual, rfl, treed, told2⟩ := told1.bind_done
    split at told2
    · cases told2.done_done.2
    · next sameTree =>
      obtain ⟨third, _, status, rfl, listed, told3⟩ := told2.bind_done
      obtain ⟨rfl, empty⟩ := told3.done_done
      rw [not_not.mp sameHead] at headed
      rw [not_not.mp sameTree] at treed
      rw [of_decide_eq_true empty.symm] at listed
      exact ⟨(gitOutput_done headed).mono fun _ member => by simp [member], (gitOutput_done treed).mono fun _ member => by simp [member],
        (gitOutput_done listed).mono fun _ member => by simp [member]⟩

theorem asks_checkoutIsExactAndClean (revision tree : Text) :
    (checkoutIsExactAndClean db root revision tree : Client isabs _).Within Action.Asks fun _ => True := by
  unfold checkoutIsExactAndClean
  refine asks_bind (asks_gitOutput db root _) fun head => ?_
  split
  · trivial
  · refine asks_bind (asks_gitOutput db root _) fun actual => ?_
    split
    · trivial
    · exact asks_bind (asks_gitOutput db root _) fun _ => trivial

theorem asks_contractRoot : (contractRoot pathlib : Client isabs _).Within Action.Asks fun _ => True :=
  asks_bind (asks_ask .moduleFile trivial) fun _ => asks_bind (asks_ask (.resolve _) trivial) fun _ => trivial

/-- What an exit code says: what was wrong with the trees, or how the stages have ended. -/
def Reveals (db : CharacterDatabase) (revision tree contract : Text) (integrityOnly : Bool) (history : ClientHistory isabs) (root : Path)
    (exitCode : Int) : Prop :=
  exitCode = 2 ∧ ranIn history = [] ∨ Intact db history root revision tree contract ∧
    (integrityOnly = true ∧ exitCode = 0 ∧ ranIn history = [] ∨
      integrityOnly = false ∧ ∃ executable, StagesEnded root (validationStages executable) (ranIn history) exitCode)

theorem runValidation_done {revision tree contract : Text} {integrityOnly : Bool} {exitCode : Int}
    (told : (runValidation pathlib db root revision tree contract integrityOnly).Told history (done exitCode)) :
    Reveals db revision tree contract integrityOnly history root exitCode := by
  obtain ⟨h1, _, contractRoot, rfl, rooted, told1⟩ := told.bind_done
  obtain ⟨h2, _, actual, rfl, committed, told2⟩ := told1.bind_done
  have none1 := ranIn_asks asks_contractRoot rooted
  have none2 := ranIn_asks (asks_committedCleanTree pathlib db contractRoot) committed
  unfold Reveals
  rw [ranIn_append, ranIn_append, none1, none2, List.nil_append, List.nil_append]
  split at told2
  · obtain ⟨rfl, rfl⟩ := told2.done_done
    exact .inl ⟨rfl, rfl⟩
  · next same =>
    rw [not_not.mp same] at committed
    obtain ⟨h3, h4, exact_, rfl, checked, told3⟩ := told2.bind_done
    have none3 := ranIn_asks (asks_checkoutIsExactAndClean revision tree) checked
    rw [ranIn_append, none3, List.nil_append]
    cases exact_ with
    | false =>
      obtain ⟨rfl, rfl⟩ := told3.done_done
      exact .inl ⟨rfl, rfl⟩
    | true =>
      obtain ⟨head, treed, status⟩ := checkoutIsExactAndClean_done checked
      refine .inr ⟨⟨(committedCleanTree_done committed).mono fun _ member => by simp [member], head.mono fun _ member => by simp [member],
        treed.mono fun _ member => by simp [member], status.mono fun _ member => by simp [member]⟩, ?_⟩
      cases integrityOnly with
      | true =>
        obtain ⟨rfl, rfl⟩ := told3.done_done
        exact .inl ⟨rfl, rfl, rfl⟩
      | false =>
        obtain ⟨h5, h6, executable, rfl, named, ran⟩ := told3.bind_done
        have none5 := ranIn_asks (asks_ask .executable trivial) named
        rw [ranIn_append, none5, List.nil_append]
        exact .inr ⟨rfl, executable, runStages_done ran⟩

end Ended

section Validation

variable (pathlib : Pathlib) (db : CharacterDatabase)

end Validation

end Umbilical.WorkGraph
