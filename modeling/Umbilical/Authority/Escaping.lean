import Umbilical.Authority.Requests

set_option autoImplicit false

/-!
# Errors of the database that get out

Every operation turns what SQLite raises into its own errors, but the three on launches raise it
again when it comes before the `COMMIT`.
-/

namespace Umbilical.Authority

open Python

/-- An authority error, or one that has nothing to do with SQLite. -/
def Foreseen : PyError → Prop
  | .store _ _ | .invalid _ _ | .unicodeEncodeError | .processDied => True
  | _ => False

/-- What the statements of an operation can end with. -/
def Raisable (error : PyError) : Prop := Foreseen error ∨ error = .databaseError

theorem raisable_of_caught {error : PyError} (caught : Caught error) : Raisable error := by
  cases error with
  | store => exact .inl trivial
  | databaseError => exact .inr rfl
  | _ => cases caught

theorem binds_raisable (str : Str) : Binds Raisable str := by
  intro error failed
  unfold bindText at failed
  split at failed
  · cases failed
    exact .inl trivial
  · cases failed

section Transactions

variable {α β : Type} {body : Statements α} {call : Call}

/-- A statement before the `COMMIT` fails, and the transaction is rolled back after that. -/
def RaisesEarly (body : Statements α) (call : Call) : Prop := ∃ after rolled,
  (do begin true; perform body : Operation α) call = .error .databaseError after ∧
    rollbackAfterFailure after = .ok () rolled

/-- An end of a call that the callers of the store count on. -/
def Surfaced (result : EStateM.Result PyError Call α) : Prop := ∀ error after, result = .error error after → Foreseen error

theorem begin_raises {immediate : Bool} {error : PyError} {after : Call}
    (failed : begin immediate call = .error error after) :
    Raisable error ∧ after.commitStarted = call.commitStarted := by
  unfold begin at failed
  split at failed
  · split at failed
    · cases failed
      exact ⟨.inr rfl, rfl⟩
    · cases failed
  · cases failed
    exact ⟨.inl trivial, rfl⟩
  · cases failed
    exact ⟨.inr rfl, rfl⟩

theorem begin_keeps {immediate : Bool} {nothing : Unit} {after : Call}
    (opened : begin immediate call = .ok nothing after) : after.commitStarted = call.commitStarted := by
  unfold begin at opened
  split at opened
  · split at opened
    · cases opened
    · cases opened
      rfl
  · cases opened
  · cases opened

theorem perform_raises (raises : body.RaisesOnly Raisable Caught) {error : PyError} {after : Call}
    (failed : perform body call = .error error after) :
    Raisable error ∧ after.commitStarted = call.commitStarted := by
  unfold perform at failed
  cases open_ : call.transaction with
  | none =>
    rw [open_] at failed
    cases failed
    exact ⟨.inr rfl, rfl⟩
  | some transaction =>
    rw [open_] at failed
    dsimp only at failed
    generalize ran : body.run call.outcomes transaction.contents = ending at failed
    obtain ⟨ending, outcomes⟩ := ending
    have ended : (body.run call.outcomes transaction.contents).1 = ending := by rw [ran]
    cases ending with
    | returned => cases failed
    | raised other contents =>
      cases failed
      rcases body.run_cases call.outcomes transaction.contents with ⟨_, _, _, _, cut⟩ | finished
      · rw [ended] at cut
        cases cut
      · rw [ended] at finished
        cases evaluated : body.eval transaction.contents <;> rw [evaluated] at finished <;> cases finished
        exact ⟨(raises.eval evaluated).elim id raisable_of_caught, rfl⟩
    | failed other outcome contents =>
      have caught : Caught other := raises.run ended
      cases outcome with
      | died =>
        cases failed
        exact ⟨.inl trivial, rfl⟩
      | rolledBack | done | failed | applied | ignored =>
        cases failed
        exact ⟨raisable_of_caught caught, rfl⟩

theorem perform_keeps {value : α} {after : Call} (performed : perform body call = .ok value after) :
    after.commitStarted = call.commitStarted := by
  unfold perform at performed
  cases open_ : call.transaction with
  | none =>
    rw [open_] at performed
    cases performed
  | some transaction =>
    rw [open_] at performed
    dsimp only at performed
    generalize body.run call.outcomes transaction.contents = ending at performed
    obtain ⟨ending, outcomes⟩ := ending
    cases ending with
    | returned =>
      cases performed
      rfl
    | raised => cases performed
    | failed other outcome => cases outcome <;> cases performed

theorem commit_raises {error : PyError} {after : Call} (failed : commit call = .error error after) :
    Raisable error ∧ after.commitStarted = true := by
  unfold commit at failed
  split at failed <;> cases failed
  · exact ⟨.inr rfl, rfl⟩
  · exact ⟨.inl trivial, rfl⟩
  · exact ⟨.inl trivial, rfl⟩
  · exact ⟨.inr rfl, rfl⟩
  · exact ⟨.inr rfl, rfl⟩

/-- How the `try` block raises: before the `COMMIT` is started, or with it. -/
theorem attempt_raises (raises : body.RaisesOnly Raisable Caught) {immediate : Bool} {error : PyError} {after : Call}
    (failed : attempt immediate body call = .error error after) : Raisable error ∧
      ((do begin immediate; perform body : Operation α) call = .error error after ∧
        after.commitStarted = call.commitStarted ∨
      after.commitStarted = true ∧ ∀ other between,
        (do begin immediate; perform body : Operation α) call ≠ .error other between) := by
  unfold attempt at failed
  simp only [bind, EStateM.bind] at failed ⊢
  cases opened : begin immediate call with
  | error other between =>
    rw [opened] at failed
    cases failed
    obtain ⟨raisable, same⟩ := begin_raises opened
    exact ⟨raisable, .inl ⟨rfl, same⟩⟩
  | ok nothing between =>
    rw [opened] at failed
    dsimp only at failed ⊢
    have before := begin_keeps opened
    cases performed : perform body between with
    | error other later =>
      rw [performed] at failed
      cases failed
      obtain ⟨raisable, same⟩ := perform_raises raises performed
      exact ⟨raisable, .inl ⟨rfl, same.trans before⟩⟩
    | ok value later =>
      rw [performed] at failed
      dsimp only at failed
      cases committed : commit later with
      | ok =>
        rw [committed] at failed
        cases failed
      | error other last =>
        rw [committed] at failed
        cases failed
        obtain ⟨raisable, started⟩ := commit_raises committed
        exact ⟨raisable, .inr ⟨started, fun _ _ failed => by cases failed⟩⟩

theorem attempt_of_raised {immediate : Bool} {error : PyError} {after : Call}
    (failed : (do begin immediate; perform body : Operation α) call = .error error after) :
    attempt immediate body call = .error error after := by
  unfold attempt
  simp only [bind, EStateM.bind] at failed ⊢
  cases opened : begin immediate call with
  | error =>
    rw [opened] at failed
    exact failed
  | ok nothing between =>
    rw [opened] at failed
    dsimp only at failed ⊢
    cases performed : perform body between with
    | error =>
      rw [performed] at failed
      exact failed
    | ok =>
      rw [performed] at failed
      cases failed

/-- What a `ROLLBACK` raises is an authority error. -/
theorem rollback_surfaced (surfaced : PyError) (foreseen : Foreseen surfaced) (call : Call) :
    Surfaced ((do rollbackAfterFailure; throw surfaced : Operation α) call) := by
  intro error after failed
  simp only [bind, EStateM.bind] at failed
  cases rolled : rollbackAfterFailure call with
  | ok nothing between =>
    rw [rolled] at failed
    cases failed
    exact foreseen
  | error other between =>
    rw [rolled] at failed
    cases failed
    unfold rollbackAfterFailure at rolled
    split at rolled
    · cases rolled
    · split at rolled <;> cases rolled <;> trivial

theorem ordinary_surfaced (raises : body.RaisesOnly Raisable Caught) (immediate : Bool) (message : String) (call : Call) :
    Surfaced (ordinary immediate message body call) := by
  intro error after failed
  change EStateM.tryCatch (attempt immediate body) _ call = _ at failed
  unfold EStateM.tryCatch at failed
  cases attempted : attempt immediate body call with
  | ok value between =>
    rw [attempted] at failed
    cases failed
  | error cause between =>
    rw [attempted] at failed
    change _ = EStateM.Result.error error after at failed
    obtain ⟨raisable, _⟩ := attempt_raises raises attempted
    cases cause with
    | store kind text => exact rollback_surfaced (.store kind text) trivial between error after failed
    | databaseError => exact rollback_surfaced (authorityError message) trivial between error after failed
    | _ =>
      cases failed
      rcases raisable with foreseen | same
      · exact foreseen
      · cases same

theorem handleConsequentialFailure_started (operation : String) (cause : PyError) (started : call.commitStarted = true) :
    Surfaced ((handleConsequentialFailure operation cause : Operation α) call) := by
  intro error after failed
  unfold handleConsequentialFailure at failed
  rw [Operation.get_bind, started, if_pos rfl] at failed
  cases failed
  trivial

theorem handleConsequentialFailure_unstarted (operation : String) (cause : PyError) (unstarted : call.commitStarted = false) :
    (handleConsequentialFailure operation cause : Operation α) call =
      (do rollbackAfterFailure; throw cause : Operation α) call := by
  unfold handleConsequentialFailure
  rw [Operation.get_bind, unstarted, if_neg Bool.false_ne_true]

/-- The three operations on launches raise what SQLite raised early, once it is rolled back. -/
theorem consequential_surfaced_iff (raises : body.RaisesOnly Raisable Caught) (operation : String)
    (unstarted : call.commitStarted = false) :
    Surfaced (consequential operation body call) ↔ ¬ RaisesEarly body call := by
  change Surfaced (EStateM.tryCatch (attempt true body) _ call) ↔ _
  unfold EStateM.tryCatch
  -- An early error is the end of the `try` block.
  have early {error : PyError} {after : Call} (attempted : attempt true body call = .error error after)
      (raisesEarly : RaisesEarly body call) : error = .databaseError := by
    obtain ⟨between, _, failed, _⟩ := raisesEarly
    cases attempted.symm.trans (attempt_of_raised failed)
    rfl
  cases attempted : attempt true body call with
  | ok value between =>
    refine iff_of_true (fun _ _ failed => nomatch failed) ?_
    rintro ⟨after, _, failed, _⟩
    cases attempted.symm.trans (attempt_of_raised failed)
  | error cause between =>
    obtain ⟨raisable, when⟩ := attempt_raises raises attempted
    cases cause with
    | store kind text =>
      refine iff_of_true ?_ fun raisesEarly => nomatch early attempted raisesEarly
      cases started : between.commitStarted with
      | true => exact handleConsequentialFailure_started operation _ started
      | false =>
        change Surfaced (handleConsequentialFailure operation (.store kind text) between)
        rw [handleConsequentialFailure_unstarted operation _ started]
        exact rollback_surfaced (.store kind text) trivial between
    | databaseError =>
      change Surfaced (handleConsequentialFailure operation .databaseError between) ↔ _
      rcases when with ⟨failed, same⟩ | ⟨started, later⟩
      · rw [handleConsequentialFailure_unstarted operation _ (same.trans unstarted)]
        constructor
        · rintro surfaced ⟨after, rolled, again, rolls⟩
          cases failed.symm.trans again
          refine surfaced .databaseError rolled ?_
          simp only [bind, EStateM.bind, rolls]
          rfl
        · intro late error after raised
          simp only [bind, EStateM.bind] at raised
          cases rolled : rollbackAfterFailure between with
          | ok nothing rolledBack => exact absurd ⟨between, rolledBack, failed, rolled⟩ late
          | error other rolledBack =>
            refine @rollback_surfaced α (.store .authorityStoreError "") trivial between error after ?_
            simp only [bind, EStateM.bind, rolled] at raised ⊢
            exact raised
      · refine iff_of_true (handleConsequentialFailure_started operation _ started) ?_
        rintro ⟨after, _, failed, _⟩
        exact later _ _ failed
    | _ =>
      refine iff_of_true ?_ fun raisesEarly => nomatch early attempted raisesEarly
      intro error after failed
      cases failed
      rcases raisable with foreseen | same
      · exact foreseen
      · cases same

/-! ## Calls of the operations -/

theorem operation_surfaced {arguments : Except PyError β} {transaction : β → Operation α} {condition : β → Prop} {γ : Type}
    (f : α → γ) (invalid : FailsOnly PyError.Invalid arguments)
    (answered : ∀ accepted, arguments = .ok accepted → call.handle.Usable →
      (Surfaced (transaction accepted call) ↔ condition accepted)) :
    Surfaced ((f <$> operation arguments transaction) call) ↔
      (call.handle.Usable → ∀ accepted, arguments = .ok accepted → condition accepted) := by
  have mapped : Surfaced ((f <$> operation arguments transaction) call) ↔
      Surfaced (operation arguments transaction call) := by
    rw [map_run]
    cases operation arguments transaction call with
    | ok => simp [Surfaced]
    | error error after => simp [Surfaced]
  refine mapped.trans ?_
  by_cases usable : call.handle.Usable
  · rw [operation_of_usable usable]
    cases arguments with
    | error error =>
      refine iff_of_true ?_ (by simp)
      rintro _ _ ⟨⟩
      have same := invalid error rfl
      cases error with
      | invalid => trivial
      | _ => exact same.elim
    | ok accepted =>
      refine (answered accepted rfl usable).trans ⟨fun holds _ => ?_, fun all => all usable accepted rfl⟩
      rintro _ ⟨⟩
      exact holds
  · refine iff_of_true ?_ fun able => absurd able usable
    obtain ⟨message, refused⟩ := requireUsableConnection_of_unusable usable
    simp only [operation, bind, EStateM.bind, refused]
    rintro _ _ ⟨⟩
    trivial

end Transactions

/-- A request for one of the three operations on launches whose statements raise early. -/
def Request.RaisesEarly (call : Call) : Request → Prop
  | .claimExecutionLaunch key scope generation hash => ∃ claim, validateClaim key scope generation hash = .ok claim ∧
      Authority.RaisesEarly (claimExecutionLaunchBody claim.1.1 claim.1.2.1 claim.1.2.2 claim.2) call
  | .markExecutionLaunchUnknown key hash => ∃ accepted, validateKeyAndHash key hash = .ok accepted ∧
      Authority.RaisesEarly (markExecutionLaunchUnknownBody accepted.1 accepted.2) call
  | .recordExecutionTerminalResult key hash exitCode => ∃ accepted, validateTerminalResult key hash exitCode = .ok accepted ∧
      Authority.RaisesEarly (recordExecutionTerminalResultBody accepted.1.1 accepted.1.2 accepted.2) call
  | _ => False

section Requests

variable {α β γ : Type} {call : Call} {arguments : Except PyError β} {body : β → Statements α}

theorem ordinary_operation_surfaced (f : α → γ) (invalid : FailsOnly PyError.Invalid arguments) {immediate : Bool}
    {message : String} (raises : ∀ accepted, arguments = .ok accepted → (body accepted).RaisesOnly Raisable Caught) :
    Surfaced ((f <$> operation arguments fun accepted => ordinary immediate message (body accepted)) call) :=
  (operation_surfaced f invalid fun accepted valid _ =>
    iff_of_true (ordinary_surfaced (raises accepted valid) immediate message call) trivial).mpr fun _ _ _ => trivial

theorem consequential_operation_surfaced (f : α → γ) (invalid : FailsOnly PyError.Invalid arguments) {operation : String}
    (unstarted : call.commitStarted = false)
    (raises : ∀ accepted, arguments = .ok accepted → (body accepted).RaisesOnly Raisable Caught) :
    Surfaced ((f <$> Authority.operation arguments fun accepted => consequential operation (body accepted)) call) ↔
      ¬ (call.handle.Usable ∧ ∃ accepted, arguments = .ok accepted ∧ RaisesEarly (body accepted) call) := by
  refine (operation_surfaced f invalid fun accepted valid _ =>
    consequential_surfaced_iff (raises accepted valid) operation unstarted).trans ?_
  push Not
  rfl

end Requests

/-- No error of SQLite gets out of a call, unless it is one of the three operations on launches and raises early. -/
theorem Request.surfaced_iff (request : Request) (durable : Database) (locked : Bool) (handle : Handle)
    (outcomes : List Outcome) :
    Surfaced (request.run ⟨durable, locked, handle, outcomes, false⟩) ↔
      ¬ (handle.Usable ∧ request.RaisesEarly ⟨durable, locked, handle, outcomes, false⟩) := by
  have catches (error : PyError) (caught : Caught error) : Raisable error := raisable_of_caught caught
  have plain {P : Prop} (surfaced : P) : P ↔ ¬ (handle.Usable ∧ False) := iff_of_true surfaced fun both => both.2
  cases request with
  | acquireGeneration scope =>
    exact plain (ordinary_operation_surfaced _ (validateScope_invalid _) fun _ _ =>
      acquireGenerationBody_raises catches (binds_raisable _))
  | readGeneration scope =>
    exact plain (ordinary_operation_surfaced _ (validateScope_invalid _) fun _ _ =>
      readGenerationBody_raises catches (binds_raisable _))
  | isCurrentGeneration scope generation =>
    refine plain ((operation_surfaced _ (validateScope_invalid _) fun _ _ _ => ?_).mpr fun _ _ _ => trivial)
    refine iff_of_true ?_ trivial
    cases exactGeneration generation with
    | none => exact fun _ _ failed => nomatch failed
    | some generation =>
      exact ordinary_operation_surfaced (fun current => decide (current = some generation)) (validateScope_invalid _)
        fun _ _ => readGenerationBody_raises catches (binds_raisable _)
  | registerExecutionKey executionKey =>
    exact plain (ordinary_operation_surfaced _ (validateExecutionKey_invalid _) fun _ _ =>
      registerExecutionKeyBody_raises catches (binds_raisable _))
  | executionKeyExists executionKey =>
    exact plain (ordinary_operation_surfaced _ (validateExecutionKey_invalid _) fun _ _ =>
      executionKeyExistsBody_raises catches (binds_raisable _))
  | bindCommandSpecHash executionKey commandSpecHash =>
    exact plain (ordinary_operation_surfaced _ (validateKeyAndHash_invalid _ _) fun _ valid =>
      bindCommandSpecHashBody_raises catches (binds_raisable _)
        (validateCommandSpecHash_encodable (validateKeyAndHash_ok valid).2))
  | readCommandSpecHash executionKey =>
    exact plain (ordinary_operation_surfaced _ (validateExecutionKey_invalid _) fun _ _ =>
      readCommandSpecHashBody_raises catches (binds_raisable _))
  | admitExecution executionKey authorityScope expectedGeneration =>
    exact plain (ordinary_operation_surfaced _ (validateAdmission_invalid _ _ _) fun _ valid =>
      admitExecutionBody_raises catches (binds_raisable _) (binds_raisable _)
        (validateControllerGeneration_ok (validateAdmission_ok valid).2.2).2)
  | readExecutionAdmission executionKey =>
    exact plain (ordinary_operation_surfaced _ (validateExecutionKey_invalid _) fun _ _ =>
      readExecutionAdmissionBody_raises catches (binds_raisable _))
  | claimExecutionLaunch executionKey authorityScope expectedGeneration commandSpecHash =>
    exact consequential_operation_surfaced _ (validateClaim_invalid _ _ _ _) rfl fun _ valid =>
      claimExecutionLaunchBody_raises catches (binds_raisable _)
        (validateCommandSpecHash_encodable (validateClaim_ok valid).2)
        (validateControllerGeneration_ok (validateAdmission_ok (validateClaim_ok valid).1).2.2).2
  | markExecutionLaunchUnknown executionKey commandSpecHash =>
    exact consequential_operation_surfaced _ (validateKeyAndHash_invalid _ _) rfl fun _ valid =>
      markExecutionLaunchUnknownBody_raises catches (binds_raisable _)
        (validateCommandSpecHash_encodable (validateKeyAndHash_ok valid).2)
  | recordExecutionTerminalResult executionKey commandSpecHash exitCode =>
    refine consequential_operation_surfaced _ (validateTerminalResult_invalid _ _ _) rfl fun _ valid => ?_
    have key := validateKeyAndHash_ok (validateTerminalResult_ok valid).1
    have code := validateProcessExitCode_ok (validateTerminalResult_ok valid).2
    exact recordExecutionTerminalResultBody_raises catches (binds_raisable _)
      (validateCommandSpecHash_encodable key.2) code.2.1 code.2.2
  | readExecutionLaunch executionKey =>
    exact plain (ordinary_operation_surfaced _ (validateExecutionKey_invalid _) fun _ _ =>
      readExecutionLaunchBody_raises catches (binds_raisable _))

/-- `BEGIN IMMEDIATE` finds the store locked by another client. -/
theorem claim_of_locked_escapes :
    ¬ Surfaced ((Request.claimExecutionLaunch (.str (Str.literal "key")) (.str (Str.literal "scope")) (.int 1)
      (.str (List.replicate 64 (.scalar 'a')))).run ⟨Ledger.empty.database, true, .ready, [], false⟩) := by
  intro surfaced
  exact surfaced .databaseError _ rfl

end Umbilical.Authority
