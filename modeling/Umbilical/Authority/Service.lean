import Umbilical.Authority.Requests
import Umbilical.Authority.Storage

set_option autoImplicit false

/-!
# What each request is for

The service a request asks of a ledger: its answer and the ledger after it, or
nothing where the store refuses.
-/

namespace Umbilical.Authority

open Python

/-- A text that may name a scope, a key or a command. -/
abbrev Named := {text : Text // text ≠ []}

theorem Named.named (name : Named) : name.val ≠ [] := name.property

/-- A checked argument that can be stored. -/
def named? : Except PyError Str → Option Named
  | .error _ => none
  | .ok str =>
      match Str.text? str with
      | none => none
      | some text => if named : text ≠ [] then some ⟨text, named⟩ else none

abbrev ExitCode := {exitCode : Int // minSqliteInteger ≤ exitCode ∧ exitCode ≤ maxSqliteInteger}

def exitCode? (exitCode : PyValue) : Option ExitCode :=
  match validateProcessExitCode exitCode with
  | .error _ => none
  | .ok exitCode =>
      if inside : minSqliteInteger ≤ exitCode ∧ exitCode ≤ maxSqliteInteger then some ⟨exitCode, inside⟩ else none

namespace Ledger

variable (ledger : Ledger)

def serveGeneration (scope : Named) : Option (Response × Ledger) :=
  match found : ledger.generation scope.val with
  | none => some (.acquired 1, ledger.begin scope.val scope.property found)
  | some generation =>
      if room : generation.generation < maxGeneration then
        some (.acquired (generation.generation + 1),
          ledger.advance generation (by rwa [(Keyed.mem_of_lookup found).2]) room)
      else none

def serveRegistration (key : Named) : Option (Response × Ledger) :=
  match found : ledger.registered key.val with
  | none => some (.registration .new, ledger.register key.val key.property found)
  | some _ => some (.registration .duplicate, ledger)

def serveBinding (key hash : Named) : Option (Response × Ledger) :=
  if registered : ledger.registered key.val = some key.val then
    match found : ledger.binding key.val with
    | none => some (.binding .bound, ledger.bind ⟨key.val, hash.val⟩ hash.property registered found)
    | some binding => if binding.commandSpecHash = hash.val then some (.binding .alreadyBound, ledger) else none
  else none

def serveAdmission (key scope : Named) (generation : Int) : Option (Response × Ledger) :=
  if ready : (ledger.binding key.val).isSome ∧ ledger.generation scope.val = some ⟨scope.val, generation⟩ then
    match found : ledger.admission key.val with
    | none => some (.admission .admitted, ledger.grant ⟨key.val, scope.val, generation⟩ ready.1 ready.2 found)
    | some admission =>
        if admission = ⟨key.val, scope.val, generation⟩ then some (.admission .alreadyAdmitted, ledger) else none
  else none

def serveClaim (key scope : Named) (generation : Int) (hash : Named) : Option (Response × Ledger) :=
  if ready : ledger.admission key.val = some ⟨key.val, scope.val, generation⟩ ∧
      ledger.binding key.val = some ⟨key.val, hash.val⟩ ∧ ledger.launch key.val = none ∧
      ledger.generation scope.val = some ⟨scope.val, generation⟩ then
    some (.claimed (ExecutionAdmission.intent ⟨key.val, scope.val, generation⟩ hash.val),
      ledger.claim ⟨key.val, scope.val, generation⟩ hash.val ready.1 ready.2.1 ready.2.2.1)
  else none

/-- The launch of a key, if it is for this command and in this state. -/
def launchIn (state : ExecutionLaunchState) (key hash : Named) : Option ExecutionLaunch :=
  (ledger.launch key.val).filter fun launch => launch.commandSpecHash = hash.val ∧ launch.state = state

def serveUnknown (key hash : Named) : Option (Response × Ledger) :=
  (ledger.launchIn .intent key hash).map fun launch =>
    (.marked (launch.settled .unknown none), ledger.markUnknown key.val)

def serveTerminal (key hash : Named) (exitCode : ExitCode) : Option (Response × Ledger) :=
  (ledger.launchIn .unknown key hash).map fun launch =>
    (.recorded (launch.settled .terminal (some exitCode.val)),
      ledger.recordTerminal key.val exitCode.val exitCode.property.1 exitCode.property.2)

/-- An answer about a registered key that leaves everything as it is. -/
def serveRead (key : Named) (response : Response) : Option (Response × Ledger) :=
  if ledger.registered key.val = some key.val then some (response, ledger) else none

def serve : Request → Option (Response × Ledger)
  | .acquireGeneration scope => do ledger.serveGeneration (← named? (validateScope scope))
  | .readGeneration scope => do
      let scope ← named? (validateScope scope)
      return (.generation ((ledger.generation scope.val).map Generation.generation), ledger)
  | .isCurrentGeneration scope generation =>
      match exactGeneration generation with
      | none => if (validateScope scope).isOk then some (.current false, ledger) else none
      | some generation => do
          let scope ← named? (validateScope scope)
          return (.current (ledger.generation scope.val = some ⟨scope.val, generation⟩), ledger)
  | .registerExecutionKey executionKey => do
      ledger.serveRegistration (← named? (validateExecutionKey executionKey))
  | .executionKeyExists executionKey => do
      let key ← named? (validateExecutionKey executionKey)
      return (.present (ledger.registered key.val).isSome, ledger)
  | .bindCommandSpecHash executionKey commandSpecHash => do
      let key ← named? (validateExecutionKey executionKey)
      ledger.serveBinding key (← named? (validateCommandSpecHash commandSpecHash))
  | .readCommandSpecHash executionKey => do
      let key ← named? (validateExecutionKey executionKey)
      ledger.serveRead key (.commandSpecHash ((ledger.binding key.val).map CommandBinding.commandSpecHash))
  | .admitExecution executionKey authorityScope expectedGeneration => do
      let key ← named? (validateExecutionKey executionKey)
      let scope ← named? (validateScope authorityScope)
      ledger.serveAdmission key scope (← (validateControllerGeneration expectedGeneration).toOption)
  | .readExecutionAdmission executionKey => do
      let key ← named? (validateExecutionKey executionKey)
      ledger.serveRead key (.admitted (ledger.admission key.val))
  | .claimExecutionLaunch executionKey authorityScope expectedGeneration commandSpecHash => do
      let key ← named? (validateExecutionKey executionKey)
      let scope ← named? (validateScope authorityScope)
      let generation ← (validateControllerGeneration expectedGeneration).toOption
      ledger.serveClaim key scope generation (← named? (validateCommandSpecHash commandSpecHash))
  | .markExecutionLaunchUnknown executionKey commandSpecHash => do
      let key ← named? (validateExecutionKey executionKey)
      ledger.serveUnknown key (← named? (validateCommandSpecHash commandSpecHash))
  | .recordExecutionTerminalResult executionKey commandSpecHash exitCode => do
      let key ← named? (validateExecutionKey executionKey)
      let hash ← named? (validateCommandSpecHash commandSpecHash)
      ledger.serveTerminal key hash (← exitCode? exitCode)
  | .readExecutionLaunch executionKey => do
      let key ← named? (validateExecutionKey executionKey)
      ledger.serveRead key (.launch (ledger.launch key.val))

end Ledger

/-- Answers that hand out or use up something. -/
def Response.spends : Response → Bool
  | .acquired _ | .registration .new | .binding .bound | .admission .admitted => true
  | .claimed _ | .marked _ | .recorded _ => true
  | _ => false

/-- All that a served request can do to a ledger. -/
inductive Effect (before : Ledger) : Request → Response → Ledger → Prop
  | kept {request : Request} {response : Response} (quiet : response.spends = false) :
      Effect before request response before
  | began {value : PyValue} {scope : Named} (names : named? (validateScope value) = some scope)
      (fresh : before.generation scope.val = none) :
      Effect before (.acquireGeneration value) (.acquired 1) (before.begin scope.val scope.property fresh)
  | advanced {value : PyValue} {generation : Generation} (named : generation.scope ≠ [])
      (names : named? (validateScope value) = some ⟨generation.scope, named⟩)
      (found : before.generation generation.scope = some generation)
      (room : generation.generation < maxGeneration) :
      Effect before (.acquireGeneration value) (.acquired (generation.generation + 1))
        (before.advance generation found room)
  | registered {value : PyValue} {key : Named} (names : named? (validateExecutionKey value) = some key)
      (fresh : before.registered key.val = none) :
      Effect before (.registerExecutionKey value) (.registration .new) (before.register key.val key.property fresh)
  | bound {value hashValue : PyValue} {key hash : Named} (names : named? (validateExecutionKey value) = some key)
      (namesHash : named? (validateCommandSpecHash hashValue) = some hash)
      (registered : before.registered key.val = some key.val) (fresh : before.binding key.val = none) :
      Effect before (.bindCommandSpecHash value hashValue) (.binding .bound)
        (before.bind ⟨key.val, hash.val⟩ hash.property registered fresh)
  | admitted {value scopeValue generationValue : PyValue} {key scope : Named} {generation : Int}
      (names : named? (validateExecutionKey value) = some key)
      (namesScope : named? (validateScope scopeValue) = some scope)
      (expects : validateControllerGeneration generationValue = .ok generation)
      (bound : (before.binding key.val).isSome)
      (current : before.generation scope.val = some ⟨scope.val, generation⟩)
      (fresh : before.admission key.val = none) :
      Effect before (.admitExecution value scopeValue generationValue) (.admission .admitted)
        (before.grant ⟨key.val, scope.val, generation⟩ bound current fresh)
  | claimed {value scopeValue generationValue hashValue : PyValue} {key scope hash : Named} {generation : Int}
      (names : named? (validateExecutionKey value) = some key)
      (namesScope : named? (validateScope scopeValue) = some scope)
      (expects : validateControllerGeneration generationValue = .ok generation)
      (namesHash : named? (validateCommandSpecHash hashValue) = some hash)
      (admitted : before.admission key.val = some ⟨key.val, scope.val, generation⟩)
      (bound : before.binding key.val = some ⟨key.val, hash.val⟩) (fresh : before.launch key.val = none)
      (current : before.generation scope.val = some ⟨scope.val, generation⟩) :
      Effect before (.claimExecutionLaunch value scopeValue generationValue hashValue)
        (.claimed (ExecutionAdmission.intent ⟨key.val, scope.val, generation⟩ hash.val))
        (before.claim ⟨key.val, scope.val, generation⟩ hash.val admitted bound fresh)
  | marked {value hashValue : PyValue} {key hash : Named} {launch : ExecutionLaunch}
      (names : named? (validateExecutionKey value) = some key)
      (namesHash : named? (validateCommandSpecHash hashValue) = some hash)
      (found : before.launch key.val = some launch) (same : launch.commandSpecHash = hash.val)
      (state : launch.state = .intent) :
      Effect before (.markExecutionLaunchUnknown value hashValue) (.marked (launch.settled .unknown none))
        (before.markUnknown key.val)
  | recorded {value hashValue codeValue : PyValue} {key hash : Named} {exitCode : ExitCode}
      {launch : ExecutionLaunch} (names : named? (validateExecutionKey value) = some key)
      (namesHash : named? (validateCommandSpecHash hashValue) = some hash)
      (reports : exitCode? codeValue = some exitCode)
      (found : before.launch key.val = some launch) (same : launch.commandSpecHash = hash.val)
      (state : launch.state = .unknown) :
      Effect before (.recordExecutionTerminalResult value hashValue codeValue)
        (.recorded (launch.settled .terminal (some exitCode.val)))
        (before.recordTerminal key.val exitCode.val exitCode.property.1 exitCode.property.2)

namespace Ledger

variable {ledger after : Ledger} {response : Response}

theorem launchIn_eq_some {state : ExecutionLaunchState} {key hash : Named} {launch : ExecutionLaunch} :
    ledger.launchIn state key hash = some launch ↔
      ledger.launch key.val = some launch ∧ launch.commandSpecHash = hash.val ∧ launch.state = state := by
  simp [launchIn, Option.filter_eq_some_iff]

theorem serveRead_eq_some {key : Named} {answer : Response} :
    ledger.serveRead key answer = some (response, after) ↔
      ledger.registered key.val = some key.val ∧ response = answer ∧ after = ledger := by
  unfold serveRead
  split_ifs with registered <;> simp [registered, eq_comm]

theorem effect_of_serve {request : Request} (served : ledger.serve request = some (response, after)) :
    Effect ledger request response after := by
  cases request with
  | acquireGeneration value =>
    obtain ⟨scope, names, served⟩ := Option.bind_eq_some_iff.mp served
    unfold serveGeneration at served
    split at served
    · cases served
      exact .began names ‹_›
    · rename_i generation found
      split_ifs at served with room
      cases served
      obtain ⟨scope, named⟩ := scope
      obtain rfl : generation.scope = scope := (Keyed.mem_of_lookup found).2
      exact .advanced named names found room
  | registerExecutionKey value =>
    obtain ⟨key, names, served⟩ := Option.bind_eq_some_iff.mp served
    unfold serveRegistration at served
    split at served
    · cases served
      exact .registered names ‹_›
    · cases served
      exact .kept rfl
  | bindCommandSpecHash value hashValue =>
    obtain ⟨key, names, served⟩ := Option.bind_eq_some_iff.mp served
    obtain ⟨hash, namesHash, served⟩ := Option.bind_eq_some_iff.mp served
    unfold serveBinding at served
    split_ifs at served with registered
    split at served
    · cases served
      exact .bound names namesHash registered ‹_›
    · split_ifs at served
      cases served
      exact .kept rfl
  | admitExecution value scopeValue generationValue =>
    obtain ⟨key, names, served⟩ := Option.bind_eq_some_iff.mp served
    obtain ⟨scope, namesScope, served⟩ := Option.bind_eq_some_iff.mp served
    obtain ⟨generation, expects, served⟩ := Option.bind_eq_some_iff.mp served
    unfold serveAdmission at served
    split_ifs at served with ready
    split at served
    · cases served
      exact .admitted names namesScope (toOption_eq_some.mp expects) ready.1 ready.2 ‹_›
    · split_ifs at served
      cases served
      exact .kept rfl
  | claimExecutionLaunch value scopeValue generationValue hashValue =>
    obtain ⟨key, names, served⟩ := Option.bind_eq_some_iff.mp served
    obtain ⟨scope, namesScope, served⟩ := Option.bind_eq_some_iff.mp served
    obtain ⟨generation, expects, served⟩ := Option.bind_eq_some_iff.mp served
    obtain ⟨hash, namesHash, served⟩ := Option.bind_eq_some_iff.mp served
    unfold serveClaim at served
    split_ifs at served with ready
    cases served
    exact .claimed names namesScope (toOption_eq_some.mp expects) namesHash ready.1 ready.2.1 ready.2.2.1
      ready.2.2.2
  | markExecutionLaunchUnknown value hashValue =>
    obtain ⟨key, names, served⟩ := Option.bind_eq_some_iff.mp served
    obtain ⟨hash, namesHash, served⟩ := Option.bind_eq_some_iff.mp served
    obtain ⟨launch, intended, same⟩ := Option.map_eq_some_iff.mp served
    cases same
    obtain ⟨found, same, state⟩ := launchIn_eq_some.mp intended
    exact .marked names namesHash found same state
  | recordExecutionTerminalResult value hashValue codeValue =>
    obtain ⟨key, names, served⟩ := Option.bind_eq_some_iff.mp served
    obtain ⟨hash, namesHash, served⟩ := Option.bind_eq_some_iff.mp served
    obtain ⟨exitCode, reports, served⟩ := Option.bind_eq_some_iff.mp served
    obtain ⟨launch, unknown, same⟩ := Option.map_eq_some_iff.mp served
    cases same
    obtain ⟨found, same, state⟩ := launchIn_eq_some.mp unknown
    exact .recorded names namesHash reports found same state
  | readGeneration value | executionKeyExists value =>
    obtain ⟨name, _, served⟩ := Option.bind_eq_some_iff.mp served
    cases served
    exact .kept rfl
  | isCurrentGeneration value generation =>
    simp only [serve] at served
    split at served
    · split_ifs at served
      cases served
      exact .kept rfl
    · obtain ⟨scope, _, served⟩ := Option.bind_eq_some_iff.mp served
      cases served
      exact .kept rfl
  | readCommandSpecHash value | readExecutionAdmission value | readExecutionLaunch value =>
    obtain ⟨key, _, served⟩ := Option.bind_eq_some_iff.mp served
    obtain ⟨_, rfl, rfl⟩ := serveRead_eq_some.mp served
    exact .kept rfl

end Ledger

end Umbilical.Authority
