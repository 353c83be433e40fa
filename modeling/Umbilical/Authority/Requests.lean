import Umbilical.Authority.Surfacing

set_option autoImplicit false

/-!
# Calls of public operations

The operations as requests and responses, so that what holds of every operation
can be said once.
-/

namespace Umbilical.Authority

open Python

inductive Request where
  | acquireGeneration (scope : PyValue)
  | readGeneration (scope : PyValue)
  | isCurrentGeneration (scope generation : PyValue)
  | registerExecutionKey (executionKey : PyValue)
  | executionKeyExists (executionKey : PyValue)
  | bindCommandSpecHash (executionKey commandSpecHash : PyValue)
  | readCommandSpecHash (executionKey : PyValue)
  | admitExecution (executionKey authorityScope expectedGeneration : PyValue)
  | readExecutionAdmission (executionKey : PyValue)
  | claimExecutionLaunch (executionKey authorityScope expectedGeneration commandSpecHash : PyValue)
  | markExecutionLaunchUnknown (executionKey commandSpecHash : PyValue)
  | recordExecutionTerminalResult (executionKey commandSpecHash exitCode : PyValue)
  | readExecutionLaunch (executionKey : PyValue)
  deriving DecidableEq

inductive Response where
  | acquired (generation : Int)
  | generation (value : Option Int)
  | current (value : Bool)
  | registration (result : ExecutionKeyRegistration)
  | present (value : Bool)
  | binding (result : CommandSpecBindingResult)
  | commandSpecHash (value : Option Text)
  | admission (result : ExecutionAdmissionResult)
  | admitted (value : Option ExecutionAdmission)
  | claimed (launch : ExecutionLaunch)
  | marked (launch : ExecutionLaunch)
  | recorded (launch : ExecutionLaunch)
  | launch (value : Option ExecutionLaunch)
  deriving DecidableEq

namespace Request

def run : Request → Operation Response
  | acquireGeneration scope => .acquired <$> Authority.acquireGeneration scope
  | readGeneration scope => .generation <$> Authority.readGeneration scope
  | isCurrentGeneration scope generation => .current <$> Authority.isCurrentGeneration scope generation
  | registerExecutionKey executionKey => .registration <$> Authority.registerExecutionKey executionKey
  | executionKeyExists executionKey => .present <$> Authority.executionKeyExists executionKey
  | bindCommandSpecHash executionKey commandSpecHash =>
      .binding <$> Authority.bindCommandSpecHash executionKey commandSpecHash
  | readCommandSpecHash executionKey => .commandSpecHash <$> Authority.readCommandSpecHash executionKey
  | admitExecution executionKey authorityScope expectedGeneration =>
      .admission <$> Authority.admitExecution executionKey authorityScope expectedGeneration
  | readExecutionAdmission executionKey => .admitted <$> Authority.readExecutionAdmission executionKey
  | claimExecutionLaunch executionKey authorityScope expectedGeneration commandSpecHash =>
      .claimed <$> Authority.claimExecutionLaunch executionKey authorityScope expectedGeneration commandSpecHash
  | markExecutionLaunchUnknown executionKey commandSpecHash =>
      .marked <$> Authority.markExecutionLaunchUnknown executionKey commandSpecHash
  | recordExecutionTerminalResult executionKey commandSpecHash exitCode =>
      .recorded <$> Authority.recordExecutionTerminalResult executionKey commandSpecHash exitCode
  | readExecutionLaunch executionKey => .launch <$> Authority.readExecutionLaunch executionKey

def isCurrentGenerationBody (scope : Str) (generation : PyValue) : Statements Bool :=
  match exactGeneration generation with
  | none => return false
  | some generation => (fun current => decide (current = some generation)) <$> readGenerationBody scope

/-- What the call comes to on the durable state when no statement fails: its argument checks and then
its statements. -/
def body : Request → Statements Response
  | acquireGeneration scope => do
      let scope ← Script.lift (validateScope scope)
      .acquired <$> acquireGenerationBody scope
  | readGeneration scope => do
      let scope ← Script.lift (validateScope scope)
      .generation <$> readGenerationBody scope
  | isCurrentGeneration scope generation => do
      let scope ← Script.lift (validateScope scope)
      .current <$> isCurrentGenerationBody scope generation
  | registerExecutionKey executionKey => do
      let executionKey ← Script.lift (validateExecutionKey executionKey)
      .registration <$> registerExecutionKeyBody executionKey
  | executionKeyExists executionKey => do
      let executionKey ← Script.lift (validateExecutionKey executionKey)
      .present <$> executionKeyExistsBody executionKey
  | bindCommandSpecHash executionKey commandSpecHash => do
      let key ← Script.lift (validateKeyAndHash executionKey commandSpecHash)
      .binding <$> bindCommandSpecHashBody key.1 key.2
  | readCommandSpecHash executionKey => do
      let executionKey ← Script.lift (validateExecutionKey executionKey)
      .commandSpecHash <$> readCommandSpecHashBody executionKey
  | admitExecution executionKey authorityScope expectedGeneration => do
      let admission ← Script.lift (validateAdmission executionKey authorityScope expectedGeneration)
      .admission <$> admitExecutionBody admission.1 admission.2.1 admission.2.2
  | readExecutionAdmission executionKey => do
      let executionKey ← Script.lift (validateExecutionKey executionKey)
      .admitted <$> readExecutionAdmissionBody executionKey
  | claimExecutionLaunch executionKey authorityScope expectedGeneration commandSpecHash => do
      let claim ← Script.lift (validateClaim executionKey authorityScope expectedGeneration commandSpecHash)
      .claimed <$> claimExecutionLaunchBody claim.1.1 claim.1.2.1 claim.1.2.2 claim.2
  | markExecutionLaunchUnknown executionKey commandSpecHash => do
      let key ← Script.lift (validateKeyAndHash executionKey commandSpecHash)
      .marked <$> markExecutionLaunchUnknownBody key.1 key.2
  | recordExecutionTerminalResult executionKey commandSpecHash exitCode => do
      let result ← Script.lift (validateTerminalResult executionKey commandSpecHash exitCode)
      .recorded <$> recordExecutionTerminalResultBody result.1.1 result.1.2 result.2
  | readExecutionLaunch executionKey => do
      let executionKey ← Script.lift (validateExecutionKey executionKey)
      .launch <$> readExecutionLaunchBody executionKey

end Request

/-- What the end of a transaction has to do with its statements. -/
abbrev Conclusion := {α : Type} → Statements α → EStateM.Result PyError Call α → Prop

/-- A conclusion that every transaction comes to whose code raises nothing worse than `raised`. -/
structure Concludes (raised : PyError → Prop) (call : Call) (conclusion : Conclusion) : Prop where
  map : ∀ {α β : Type} (f : α → β) {body : Statements α} {run : Operation α}, conclusion body (run call) →
    conclusion (f <$> body) ((f <$> run) call)
  ordinary : ∀ {α : Type} {body : Statements α} (immediate : Bool) (message : String),
    body.RaisesOnly raised Caught → call.handle.Usable →
      conclusion body (Authority.ordinary immediate message body call)
  consequential : ∀ {α : Type} {body : Statements α} (operation : String),
    body.RaisesOnly raised Caught → call.handle.Usable →
      conclusion body (Authority.consequential operation body call)

/-- Every way a public operation can end. -/
inductive Answered (before : Call) (conclusion : Conclusion) {α : Type} (body : Statements α) :
    EStateM.Result PyError Call α → Prop
  | concluded {result : EStateM.Result PyError Call α} (usable : before.handle.Usable)
      (concluded : conclusion body result) : Answered before conclusion body result
  | unusable {message : String} (unusable : ¬ before.handle.Usable) :
      Answered before conclusion body (.error (authorityError message) before)
  /-- An argument check failed. -/
  | rejected {error : PyError} (usable : before.handle.Usable) (invalid : error.Invalid)
      (evaluated : body.eval before.durable = .error error before.durable) :
      Answered before conclusion body (.error error before)
  /-- Answered from the arguments alone. -/
  | immediate {value : α} (usable : before.handle.Usable)
      (evaluated : body.eval before.durable = .ok value before.durable) :
      Answered before conclusion body (.ok value before)

section Answers

variable {α β : Type} {call : Call}

theorem map_run (f : α → β) (run : Operation α) (call : Call) : (f <$> run) call =
    match run call with
    | .ok value after => .ok (f value) after
    | .error error after => .error error after := by
  simp only [Functor.map, EStateM.map]
  cases run call <;> rfl

theorem requireUsableConnection_of_usable (usable : call.handle.Usable) :
    requireUsableConnection call = .ok () call := by
  obtain ⟨transaction, same⟩ := usable
  simp [requireUsableConnection, same]

theorem requireUsableConnection_of_unusable (unusable : ¬ call.handle.Usable) :
    ∃ message, requireUsableConnection call = .error (authorityError message) call := by
  unfold requireUsableConnection
  split_ifs with poisoned closed
  · exact ⟨_, rfl⟩
  · exact ⟨_, rfl⟩
  · refine absurd ?_ unusable
    obtain ⟨⟨transaction⟩, found⟩ := Option.isSome_iff_exists.mp (by simpa [Option.isSome_iff_ne_none] using closed)
    generalize call.handle = handle at poisoned found
    obtain ⟨flag, connection⟩ := handle
    cases found
    exact ⟨transaction, by simp at poisoned; simp [poisoned]⟩

theorem operation_of_usable (usable : call.handle.Usable) (arguments : Except PyError β)
    (transaction : β → Operation α) : operation arguments transaction call = match arguments with
      | .error error => .error error call
      | .ok accepted => transaction accepted call := by
  simp only [operation, bind, EStateM.bind, requireUsableConnection_of_usable usable]
  cases arguments <;> rfl

variable {conclusion : Conclusion}

theorem operation_answered {arguments : Except PyError β} {transaction : β → Operation α} {body : β → Statements α}
    (invalid : FailsOnly PyError.Invalid arguments) (answered : ∀ accepted, arguments = .ok accepted → call.handle.Usable →
      Answered call conclusion (body accepted) (transaction accepted call)) :
    Answered call conclusion (Script.lift arguments >>= body) (operation arguments transaction call) := by
  by_cases usable : call.handle.Usable
  · rw [operation_of_usable usable]
    cases arguments with
    | error error => exact .rejected usable (invalid error rfl) rfl
    | ok accepted => exact answered accepted rfl usable
  · obtain ⟨message, refused⟩ := requireUsableConnection_of_unusable usable
    simp only [operation, bind, EStateM.bind, refused]
    exact .unusable usable

variable {raised : PyError → Prop} (concludes : Concludes raised call @conclusion)
include concludes

theorem Answered.map (f : α → β) {body : Statements α} {run : Operation α}
    (answered : Answered call conclusion body (run call)) :
    Answered call conclusion (f <$> body) ((f <$> run) call) := by
  generalize same : run call = result at answered
  cases answered with
  | concluded usable concluded => exact .concluded usable (concludes.map f (same ▸ concluded))
  | unusable unusable =>
    rw [map_run, same]
    exact .unusable unusable
  | rejected usable invalid evaluated =>
    rw [map_run, same]
    exact .rejected usable invalid (by rw [Script.eval_map, evaluated])
  | immediate usable evaluated =>
    rw [map_run, same]
    exact .immediate usable (by rw [Script.eval_map, evaluated])

/-- An operation as a request: its arguments checked, then its answer wrapped as a response. -/
theorem answered_request (f : α → β) {π : Type} {arguments : Except PyError π} {transaction : π → Operation α}
    {body : π → Statements α} (invalid : FailsOnly PyError.Invalid arguments) (answered : ∀ accepted, arguments = .ok accepted → call.handle.Usable →
      Answered call conclusion (body accepted) (transaction accepted call)) :
    Answered call conclusion (Script.lift arguments >>= fun accepted => f <$> body accepted)
      ((f <$> operation arguments transaction) call) := by
  have whole := (operation_answered invalid answered).map concludes f
  cases arguments <;> exact whole

theorem ordinary_answered {body : Statements α} {immediate : Bool} {message : String}
    (surfaced : body.RaisesOnly raised Caught) (usable : call.handle.Usable) :
    Answered call conclusion body (ordinary immediate message body call) :=
  .concluded usable (concludes.ordinary immediate message surfaced usable)

theorem consequential_answered {body : Statements α} {operation : String}
    (surfaced : body.RaisesOnly raised Caught) (usable : call.handle.Usable) :
    Answered call conclusion body (consequential operation body call) :=
  .concluded usable (concludes.consequential operation surfaced usable)

end Answers

/-! What accepted arguments are. -/

theorem validateKeyAndHash_invalid (executionKey commandSpecHash : PyValue) :
    FailsOnly PyError.Invalid (validateKeyAndHash executionKey commandSpecHash) :=
  .bind (validateExecutionKey_invalid _) fun _ => .bind (validateCommandSpecHash_invalid _) fun _ => .pure _

theorem validateAdmission_invalid (executionKey authorityScope expectedGeneration : PyValue) :
    FailsOnly PyError.Invalid (validateAdmission executionKey authorityScope expectedGeneration) :=
  .bind (validateExecutionKey_invalid _) fun _ => .bind (validateScope_invalid _) fun _ =>
    .bind (validateControllerGeneration_invalid _) fun _ => .pure _

theorem validateClaim_invalid (executionKey authorityScope expectedGeneration commandSpecHash : PyValue) :
    FailsOnly PyError.Invalid (validateClaim executionKey authorityScope expectedGeneration commandSpecHash) :=
  .bind (validateAdmission_invalid _ _ _) fun _ => .bind (validateCommandSpecHash_invalid _) fun _ => .pure _

theorem validateTerminalResult_invalid (executionKey commandSpecHash exitCode : PyValue) :
    FailsOnly PyError.Invalid (validateTerminalResult executionKey commandSpecHash exitCode) :=
  .bind (validateKeyAndHash_invalid _ _) fun _ => .bind (validateProcessExitCode_invalid _) fun _ => .pure _

theorem validateKeyAndHash_ok {executionKey commandSpecHash : PyValue} {accepted : Str × Str}
    (valid : validateKeyAndHash executionKey commandSpecHash = .ok accepted) :
    validateExecutionKey executionKey = .ok accepted.1 ∧ validateCommandSpecHash commandSpecHash = .ok accepted.2 := by
  simp only [validateKeyAndHash, bind_eq_ok] at valid
  obtain ⟨key, keyValid, hash, hashValid, ⟨rfl⟩⟩ := valid
  exact ⟨keyValid, hashValid⟩

theorem validateAdmission_ok {executionKey authorityScope expectedGeneration : PyValue} {accepted : Str × Str × Int}
    (valid : validateAdmission executionKey authorityScope expectedGeneration = .ok accepted) :
    validateExecutionKey executionKey = .ok accepted.1 ∧ validateScope authorityScope = .ok accepted.2.1 ∧
      validateControllerGeneration expectedGeneration = .ok accepted.2.2 := by
  simp only [validateAdmission, bind_eq_ok] at valid
  obtain ⟨key, keyValid, scope, scopeValid, generation, generationValid, ⟨rfl⟩⟩ := valid
  exact ⟨keyValid, scopeValid, generationValid⟩

theorem validateClaim_ok {executionKey authorityScope expectedGeneration commandSpecHash : PyValue}
    {accepted : (Str × Str × Int) × Str}
    (valid : validateClaim executionKey authorityScope expectedGeneration commandSpecHash = .ok accepted) :
    validateAdmission executionKey authorityScope expectedGeneration = .ok accepted.1 ∧
      validateCommandSpecHash commandSpecHash = .ok accepted.2 := by
  simp only [validateClaim, bind_eq_ok] at valid
  obtain ⟨admission, admissionValid, hash, hashValid, ⟨rfl⟩⟩ := valid
  exact ⟨admissionValid, hashValid⟩

theorem validateTerminalResult_ok {executionKey commandSpecHash exitCode : PyValue} {accepted : (Str × Str) × Int}
    (valid : validateTerminalResult executionKey commandSpecHash exitCode = .ok accepted) :
    validateKeyAndHash executionKey commandSpecHash = .ok accepted.1 ∧
      validateProcessExitCode exitCode = .ok accepted.2 := by
  simp only [validateTerminalResult, bind_eq_ok] at valid
  obtain ⟨key, keyValid, code, codeValid, ⟨rfl⟩⟩ := valid
  exact ⟨keyValid, codeValid⟩

theorem validateCommandSpecHash_encodable {value : PyValue} {commandSpecHash : Str}
    (valid : validateCommandSpecHash value = .ok commandSpecHash) : commandSpecHash.Encodable := by
  obtain ⟨text, rfl, _⟩ := validateCommandSpecHash_ok valid
  exact Str.encodable_iff.mpr ⟨text, rfl⟩

/-- Every string that the statements of an accepted request bind without having checked its encoding is
`allowed`. A claim binds its scope only where a row has it. -/
def Request.Binds (allowed : Str → Prop) : Request → Prop
  | acquireGeneration scope | readGeneration scope => ∀ accepted, validateScope scope = .ok accepted → allowed accepted
  | isCurrentGeneration scope generation =>
      (exactGeneration generation).isSome → ∀ accepted, validateScope scope = .ok accepted → allowed accepted
  | registerExecutionKey key | executionKeyExists key | readCommandSpecHash key | readExecutionAdmission key
  | readExecutionLaunch key => ∀ accepted, validateExecutionKey key = .ok accepted → allowed accepted
  | bindCommandSpecHash key hash | markExecutionLaunchUnknown key hash =>
      ∀ accepted, validateKeyAndHash key hash = .ok accepted → allowed accepted.1
  | admitExecution key scope generation =>
      ∀ accepted, validateAdmission key scope generation = .ok accepted → allowed accepted.1 ∧ allowed accepted.2.1
  | claimExecutionLaunch key scope generation hash =>
      ∀ accepted, validateClaim key scope generation hash = .ok accepted → allowed accepted.1.1
  | recordExecutionTerminalResult key hash exitCode =>
      ∀ accepted, validateTerminalResult key hash exitCode = .ok accepted → allowed accepted.1.1

theorem Request.Binds.of_forall {allowed : Str → Prop} (all : ∀ str, allowed str) (request : Request) :
    request.Binds allowed := by
  cases request <;> simp [Request.Binds, all]

theorem Request.Binds.mono {allowed allowed' : Str → Prop} (more : ∀ str, allowed str → allowed' str)
    {request : Request} (binds : request.Binds allowed) : request.Binds allowed' := by
  cases request with
  | isCurrentGeneration => exact fun exact accepted valid => more _ (binds exact accepted valid)
  | admitExecution => exact fun accepted valid => ⟨more _ (binds accepted valid).1, more _ (binds accepted valid).2⟩
  | _ => exact fun accepted valid => more _ (binds accepted valid)

/-- Every operation checks its arguments and then concludes its transaction. -/
theorem Request.run_answered (request : Request) {raised : PyError → Prop} {call : Call} {conclusion : Conclusion}
    (catches : ∀ error, Caught error → raised error) (binds : request.Binds (Authority.Binds raised))
    (concludes : Concludes raised call @conclusion) : Answered call conclusion request.body (request.run call) := by
  cases request with
  | acquireGeneration scope =>
    exact answered_request concludes _ (validateScope_invalid _) fun _ valid =>
      ordinary_answered concludes (acquireGenerationBody_raises catches (binds _ valid))
  | readGeneration scope =>
    exact answered_request concludes _ (validateScope_invalid _) fun _ valid =>
      ordinary_answered concludes (readGenerationBody_raises catches (binds _ valid))
  | isCurrentGeneration scope generation =>
    refine answered_request concludes _ (validateScope_invalid _) fun accepted valid usable => ?_
    unfold isCurrentGenerationBody
    simp only [Request.Binds] at binds
    generalize exactGeneration generation = exact at binds
    cases exact with
    | none => exact .immediate usable rfl
    | some generation =>
      have read : Answered call conclusion (readGenerationBody accepted) (Authority.readGeneration scope call) := by
        rw [Authority.readGeneration, operation_of_usable usable, valid]
        exact ordinary_answered concludes (readGenerationBody_raises catches (binds rfl _ valid)) usable
      exact read.map concludes fun current => decide (current = some generation)
  | registerExecutionKey executionKey =>
    exact answered_request concludes _ (validateExecutionKey_invalid _) fun _ valid =>
      ordinary_answered concludes (registerExecutionKeyBody_raises catches (binds _ valid))
  | executionKeyExists executionKey =>
    exact answered_request concludes _ (validateExecutionKey_invalid _) fun _ valid =>
      ordinary_answered concludes (executionKeyExistsBody_raises catches (binds _ valid))
  | bindCommandSpecHash executionKey commandSpecHash =>
    exact answered_request concludes _ (validateKeyAndHash_invalid _ _) fun _ valid =>
      ordinary_answered concludes (bindCommandSpecHashBody_raises catches (binds _ valid)
        (validateCommandSpecHash_encodable (validateKeyAndHash_ok valid).2))
  | readCommandSpecHash executionKey =>
    exact answered_request concludes _ (validateExecutionKey_invalid _) fun _ valid =>
      ordinary_answered concludes (readCommandSpecHashBody_raises catches (binds _ valid))
  | admitExecution executionKey authorityScope expectedGeneration =>
    exact answered_request concludes _ (validateAdmission_invalid _ _ _) fun _ valid =>
      ordinary_answered concludes (admitExecutionBody_raises catches (binds _ valid).1 (binds _ valid).2
        (validateControllerGeneration_ok (validateAdmission_ok valid).2.2).2)
  | readExecutionAdmission executionKey =>
    exact answered_request concludes _ (validateExecutionKey_invalid _) fun _ valid =>
      ordinary_answered concludes (readExecutionAdmissionBody_raises catches (binds _ valid))
  | claimExecutionLaunch executionKey authorityScope expectedGeneration commandSpecHash =>
    exact answered_request concludes _ (validateClaim_invalid _ _ _ _) fun _ valid =>
      consequential_answered concludes (claimExecutionLaunchBody_raises catches (binds _ valid)
        (validateCommandSpecHash_encodable (validateClaim_ok valid).2)
        (validateControllerGeneration_ok (validateAdmission_ok (validateClaim_ok valid).1).2.2).2)
  | markExecutionLaunchUnknown executionKey commandSpecHash =>
    exact answered_request concludes _ (validateKeyAndHash_invalid _ _) fun _ valid =>
      consequential_answered concludes (markExecutionLaunchUnknownBody_raises catches (binds _ valid)
        (validateCommandSpecHash_encodable (validateKeyAndHash_ok valid).2))
  | recordExecutionTerminalResult executionKey commandSpecHash exitCode =>
    refine answered_request concludes _ (validateTerminalResult_invalid _ _ _) fun _ valid => ?_
    have key := validateKeyAndHash_ok (validateTerminalResult_ok valid).1
    have code := validateProcessExitCode_ok (validateTerminalResult_ok valid).2
    exact consequential_answered concludes (recordExecutionTerminalResultBody_raises catches (binds _ valid)
      (validateCommandSpecHash_encodable key.2) code.2.1 code.2.2)
  | readExecutionLaunch executionKey =>
    exact answered_request concludes _ (validateExecutionKey_invalid _) fun _ valid =>
      ordinary_answered concludes (readExecutionLaunchBody_raises catches (binds _ valid))

/-- The same for a conclusion that does not depend on what the code raises. -/
theorem Request.run_answered_any (request : Request) {call : Call} {conclusion : Conclusion}
    (concludes : Concludes (fun _ => True) call @conclusion) :
    Answered call conclusion request.body (request.run call) :=
  request.run_answered (fun _ _ => trivial) (.of_forall (fun _ _ _ => trivial) request) concludes

theorem concluded_concludes (call : Call) : Concludes (fun _ => True) call fun body result => Concluded body call result where
  map f body run concluded := by
    rw [map_run]
    generalize run call = result at concluded
    cases concluded with
    | committed evaluated ready => exact .committed (by rw [Script.eval_map, evaluated]) ready
    | uncertain evaluated started settled => exact .uncertain (by rw [Script.eval_map, evaluated]) started settled
    | refused kept settled => exact .refused kept settled
    | abandoned kept evaluated uncaught usable =>
      exact .abandoned kept (by rw [Script.eval_map, evaluated]) uncaught usable
  ordinary immediate message surfaced usable := ordinary_concluded surfaced usable immediate message
  consequential operation surfaced usable := consequential_concluded surfaced usable operation

/-- How any call of a public operation can end, on any handle, with any outcomes of its statements. -/
theorem Request.run_concluded (request : Request) (call : Call) :
    Answered call (fun body result => Concluded body call result) request.body (request.run call) :=
  request.run_answered_any (concluded_concludes call)

end Umbilical.Authority
