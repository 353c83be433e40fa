import Umbilical.Authority.Exactness
import Umbilical.Authority.Operations

set_option autoImplicit false

/-!
# What the statements of an operation can raise

Every error is one the `except` clauses catch, except that a string argument may
have no encoding.
-/

namespace Umbilical.Authority

open Python

section Validators

theorem validatePersistedScope_caught (cell : SqlValue) : FailsOnly Caught (validatePersistedScope cell) := by
  cases cell with
  | text => exact .ite (.error trivial) (.pure _)
  | _ => exact .error trivial

theorem validatePersistedExecutionKey_caught (cell : SqlValue) :
    FailsOnly Caught (validatePersistedExecutionKey cell) := by
  cases cell with
  | text => exact .ite (.error trivial) (.pure _)
  | _ => exact .error trivial

theorem validatePersistedCommandSpecHash_caught (cell : SqlValue) :
    FailsOnly Caught (validatePersistedCommandSpecHash cell) := by
  cases cell with
  | text =>
    simp only [validatePersistedCommandSpecHash, Str.encode_ofText]
    exact .ite (.error trivial) (.pure _)
  | _ => exact .error trivial

theorem validatePersistedGeneration_caught (cell : SqlValue) : FailsOnly Caught (validatePersistedGeneration cell) := by
  cases cell with
  | integer => exact .ite (.error trivial) (.ite (.error trivial) (.pure _))
  | _ => exact .error trivial

theorem validatePersistedLaunchState_caught (cell : SqlValue) :
    FailsOnly Caught (validatePersistedLaunchState cell) := by
  cases cell with
  | text => exact .ite (.pure _) (.ite (.pure _) (.ite (.pure _) (.error trivial)))
  | _ => exact .error trivial

theorem validatePersistedExitCode_caught (cell : SqlValue) (state : ExecutionLaunchState) :
    FailsOnly Caught (validatePersistedExitCode cell state) := by
  cases state with
  | intent | unknown =>
    cases cell with
    | null => exact .pure _
    | _ => exact .error trivial
  | terminal =>
    cases cell with
    | integer => exact .ite (.error trivial) (.pure _)
    | _ => exact .error trivial

theorem checkControllerGeneration_caught (row : Row) (found : List (Option Row)) :
    FailsOnly Caught (checkControllerGeneration row found) :=
  .bind (validatePersistedScope_caught _) fun _ => .bind (validatePersistedGeneration_caught _) fun _ => .pure _

theorem checkExecutionKey_caught (row : Row) (found : List (Option Row)) :
    FailsOnly Caught (checkExecutionKey row found) :=
  .bind (validatePersistedExecutionKey_caught _) fun _ => .pure _

theorem checkExecutionCommandBinding_caught (row : Row) (found : List (Option Row)) :
    FailsOnly Caught (checkExecutionCommandBinding row found) :=
  .bind (validatePersistedExecutionKey_caught _) fun _ =>
    .bind (validatePersistedCommandSpecHash_caught _) fun _ => raiseIf_failsOnly trivial

theorem checkExecutionAdmission_caught (row : Row) (found : List (Option Row)) :
    FailsOnly Caught (checkExecutionAdmission row found) :=
  .bind (validatePersistedExecutionKey_caught _) fun _ => .bind (validatePersistedScope_caught _) fun _ =>
    .bind (validatePersistedGeneration_caught _) fun _ => .bind (raiseIf_failsOnly trivial) fun _ =>
      .bind (raiseIf_failsOnly trivial) fun _ => .bind (raiseIf_failsOnly trivial) fun _ =>
        .bind (validatePersistedGeneration_caught _) fun _ => raiseIf_failsOnly trivial

theorem checkExecutionLaunch_caught (row : Row) (found : List (Option Row)) :
    FailsOnly Caught (checkExecutionLaunch row found) :=
  .bind (validatePersistedExecutionKey_caught _) fun _ => .bind (validatePersistedCommandSpecHash_caught _) fun _ =>
    .bind (validatePersistedScope_caught _) fun _ => .bind (validatePersistedGeneration_caught _) fun _ =>
      .bind (validatePersistedLaunchState_caught _) fun _ => .bind (validatePersistedExitCode_caught _ _) fun _ =>
        .bind (raiseIf_failsOnly trivial) fun _ => .bind (raiseIf_failsOnly trivial) fun _ => .bind (raiseIf_failsOnly trivial) fun _ =>
          .bind (raiseIf_failsOnly trivial) fun _ => .bind (raiseIf_failsOnly trivial) fun _ =>
            .bind (validatePersistedGeneration_caught _) fun _ => .bind (raiseIf_failsOnly trivial) fun _ => raiseIf_failsOnly trivial

theorem forM_caught {α : Type} {check : α → Except PyError Unit} (each : ∀ item, FailsOnly Caught (check item))
    (items : List α) : FailsOnly Caught (items.forM check) := by
  induction items with
  | nil => exact .pure ()
  | cons item rest ih => exact .bind (each item) fun _ => ih

theorem checkSchemaRows_caught (expected : List Table) (seen : List SqlValue) (rows : List SchemaRow) :
    FailsOnly Caught (checkSchemaRows expected seen rows) := by
  induction rows generalizing seen with
  | nil => exact .pure _
  | cons row rest ih =>
    refine .bind ?_ fun _ => ih _
    unfold checkSchemaRow
    split
    · intro error failed
      cases failed
      trivial
    · exact .bind (raiseIf_failsOnly trivial) fun _ => raiseIf_failsOnly trivial

theorem checkSchema_caught (expected : List Table) (rows : List SchemaRow) :
    FailsOnly Caught (checkSchema expected rows) :=
  .bind (raiseIf_failsOnly trivial) fun _ => .bind (checkSchemaRows_caught _ _ _) fun _ => raiseIf_failsOnly trivial

theorem databaseErrorAs_caught {replacement : PyError} (caught : Caught replacement) (error : PyError)
    (also : Caught error) : Caught (databaseErrorAs replacement error) := by
  cases error <;> first | exact caught | exact also

theorem Statements.query_caught {α : Type} (answer : Database → Option α) :
    (Statements.query answer).RaisesOnly Caught Caught := Script.RaisesOnly.query trivial

theorem readSchemaVersion_caught : readSchemaVersion.RaisesOnly Caught Caught :=
  .translate <| .mono (Statements.query_caught _) (databaseErrorAs_caught trivial) (databaseErrorAs_caught trivial)

theorem validateTable_caught {table : Table} {message : String} {joins : List (Table × Nat)}
    {check : Row → List (Option Row) → Except PyError Unit} (each : ∀ row found, FailsOnly Caught (check row found)) :
    (validateTable table message joins check).RaisesOnly Caught Caught :=
  .bind (.bind (Statements.query_caught _) fun _ => .lift (raiseIf_failsOnly trivial)) fun _ =>
    .bind (Statements.query_caught _) fun _ => .lift (forM_caught (fun _ => each _ _) _)

theorem runIf_caught {flag : Bool} {script : Statements Unit} (caught : script.RaisesOnly Caught Caught) :
    (runIf flag script).RaisesOnly Caught Caught := by
  cases flag with
  | true => exact caught
  | false => exact .pure ()

theorem validateExactStore_caught (version : Int) (expected : List Table) (keys bindings admissions launches : Bool) :
    (validateExactStore version expected keys bindings admissions launches).RaisesOnly Caught Caught := by
  refine .translate (.mono ?_ (databaseErrorAs_caught trivial) (databaseErrorAs_caught trivial))
  refine .bind (Statements.query_caught _) fun _ => .bind (.lift (raiseIf_failsOnly trivial)) fun _ =>
    .bind readSchemaVersion_caught fun _ => .bind (.lift (raiseIf_failsOnly trivial)) fun _ =>
    .bind (Statements.query_caught _) fun _ => .bind (.lift (checkSchema_caught _ _)) fun _ =>
    .bind (validateTable_caught checkControllerGeneration_caught) fun _ => ?_
  exact .bind (runIf_caught (validateTable_caught checkExecutionKey_caught)) fun _ =>
    .bind (runIf_caught (validateTable_caught checkExecutionCommandBinding_caught)) fun _ =>
    .bind (runIf_caught (validateTable_caught checkExecutionAdmission_caught)) fun _ =>
    runIf_caught (validateTable_caught checkExecutionLaunch_caught)

theorem validateStore_caught : validateStore.RaisesOnly Caught Caught := by
  refine .bind readSchemaVersion_caught fun version => ?_
  split_ifs
  · exact .bind (validateExactStore_caught ..) fun _ => trivial
  · exact .bind (validateExactStore_caught ..) fun _ => trivial
  · exact .bind (validateExactStore_caught ..) fun _ => trivial
  · exact .bind (validateExactStore_caught ..) fun _ => trivial
  · exact validateExactStore_caught ..

end Validators

section Bodies

variable {raised : PyError → Prop} (catches : ∀ error, Caught error → raised error)

/-- Binding the string raises nothing worse than `raised`. -/
def Binds (raised : PyError → Prop) (str : Str) : Prop := FailsOnly raised (bindText str)

theorem Binds.of_encodable {str : Str} (encodable : str.Encodable) : Binds raised str := by
  obtain ⟨text, rfl⟩ := Str.encodable_iff.mp encodable
  intro error failed
  rw [bindText_ofText] at failed
  cases failed

theorem bindInteger_raises {value : Int} (low : minSqliteInteger ≤ value) (high : value ≤ maxSqliteInteger) :
    FailsOnly raised (bindInteger value) := by
  intro error failed
  rw [bindInteger_of_le low high] at failed
  cases failed

theorem bindGeneration_raises {generation : Int} (inRange : 0 < generation ∧ generation ≤ maxGeneration) :
    FailsOnly raised (bindInteger generation) :=
  bindInteger_raises (by simp only [minSqliteInteger]; omega) (by simp only [maxSqliteInteger, maxGeneration] at *; omega)

theorem select_raises {table : Table} {key : Str} (binds : Binds raised key) :
    (Statements.select table key).RaisesOnly raised Caught :=
  .bind (.lift binds) fun _ => .query trivial

theorem insert_raises {table : Table} {row : Except PyError Row} (binds : FailsOnly raised row) :
    (Statements.insert table row).RaisesOnly raised Caught :=
  .bind (.lift binds) fun _ => .execute trivial

theorem update_raises {π : Type} {table : Table} {parameters : Except PyError π} {condition : π → Row → Bool}
    {change : π → Row → Row} (binds : FailsOnly raised parameters) :
    (Statements.update table parameters condition change).RaisesOnly raised Caught :=
  .bind (.lift binds) fun _ => .execute trivial

include catches

theorem validateStore_raises : validateStore.RaisesOnly raised Caught :=
  validateStore_caught.mono catches fun _ => id

theorem checkPersistedKey_raises (executionKey : Str) (row : Row) :
    (checkPersistedKey executionKey row).RaisesOnly raised Caught :=
  .lift (.mono (.bind (validatePersistedExecutionKey_caught _) fun _ => raiseIf_failsOnly trivial) catches)

theorem requireRegistered_raises {executionKey : Str} (binds : Binds raised executionKey) (message : String) :
    (requireRegistered executionKey message).RaisesOnly raised Caught := by
  refine .bind (select_raises binds) fun row => ?_
  cases row with
  | none => exact catches _ trivial
  | some row => exact checkPersistedKey_raises catches _ _

theorem requireBinding_raises {executionKey : Str} (binds : Binds raised executionKey) (message : String) :
    (requireBinding executionKey message).RaisesOnly raised Caught := by
  refine .bind (select_raises binds) fun row => ?_
  cases row with
  | none => exact catches _ trivial
  | some row => exact .lift ((validatePersistedCommandSpecHash_caught _).mono catches)

theorem requireCurrentGeneration_raises {authorityScope : Str} (binds : Binds raised authorityScope)
    (generation : Int) (message : String) :
    (requireCurrentGeneration authorityScope generation message).RaisesOnly raised Caught := by
  refine .bind (select_raises binds) fun row => ?_
  cases row with
  | none => exact catches _ trivial
  | some row =>
    exact .lift (.mono (.bind (validatePersistedGeneration_caught _) fun _ => raiseIf_failsOnly trivial) catches)

theorem acquireGenerationBody_raises {scope : Str} (binds : Binds raised scope) :
    (acquireGenerationBody scope).RaisesOnly raised Caught := by
  refine .bind (validateStore_raises catches) fun _ => .bind (select_raises binds) fun row => ?_
  cases row with
  | none =>
    refine .bind (insert_raises (.bind binds fun _ => .bind ?_ fun _ => .pure _)) fun _ => .pure _
    exact bindGeneration_raises ⟨by decide, by decide⟩
  | some row =>
    refine .lift_bind ((validatePersistedGeneration_caught _).mono catches) fun current persisted => ?_
    refine .lift_bind (.mono (raiseIf_failsOnly trivial) catches) fun _ below => ?_
    obtain ⟨_, inRange⟩ := validatePersistedGeneration_ok.mp persisted
    have room := raiseIf_ok.mp below
    refine .bind (update_raises (.bind (bindGeneration_raises ?_) fun _ => .bind binds fun _ =>
      .bind (bindGeneration_raises inRange) fun _ => .pure _)) fun _ =>
      .bind (.lift (.mono (raiseIf_failsOnly trivial) catches)) fun _ => .pure _
    obtain ⟨positive, bounded⟩ := inRange
    exact ⟨by omega, by omega⟩

theorem readGenerationBody_raises {scope : Str} (binds : Binds raised scope) :
    (readGenerationBody scope).RaisesOnly raised Caught := by
  refine .bind (validateStore_raises catches) fun _ => .bind (select_raises binds) fun row => ?_
  cases row with
  | none => exact .pure _
  | some row => exact .map _ (.lift ((validatePersistedGeneration_caught _).mono catches))

theorem registerExecutionKeyBody_raises {executionKey : Str} (binds : Binds raised executionKey) :
    (registerExecutionKeyBody executionKey).RaisesOnly raised Caught := by
  refine .bind (validateStore_raises catches) fun _ => .bind (select_raises binds) fun row => ?_
  cases row with
  | none => exact .bind (insert_raises (.bind binds fun _ => .pure _)) fun _ => .pure _
  | some row => exact .bind (checkPersistedKey_raises catches _ _) fun _ => .pure _

theorem executionKeyExistsBody_raises {executionKey : Str} (binds : Binds raised executionKey) :
    (executionKeyExistsBody executionKey).RaisesOnly raised Caught := by
  refine .bind (validateStore_raises catches) fun _ => .bind (select_raises binds) fun row => ?_
  cases row with
  | none => exact .pure _
  | some row => exact .bind (checkPersistedKey_raises catches _ _) fun _ => .pure _

theorem bindCommandSpecHashBody_raises {executionKey commandSpecHash : Str} (binds : Binds raised executionKey)
    (encodable : commandSpecHash.Encodable) :
    (bindCommandSpecHashBody executionKey commandSpecHash).RaisesOnly raised Caught := by
  refine .bind (validateStore_raises catches) fun _ => .bind (requireRegistered_raises catches binds _) fun _ =>
    .bind (select_raises binds) fun row => ?_
  cases row with
  | none =>
    exact .bind (insert_raises (.bind binds fun _ => .bind (Binds.of_encodable encodable) fun _ => .pure _))
      fun _ => .pure _
  | some row =>
    exact .bind (.lift ((validatePersistedCommandSpecHash_caught _).mono catches)) fun _ =>
      .bind (.lift (.mono (raiseIf_failsOnly trivial) catches)) fun _ => .pure _

theorem readCommandSpecHashBody_raises {executionKey : Str} (binds : Binds raised executionKey) :
    (readCommandSpecHashBody executionKey).RaisesOnly raised Caught := by
  refine .bind (validateStore_raises catches) fun _ => .bind (requireRegistered_raises catches binds _) fun _ =>
    .bind (select_raises binds) fun row => ?_
  cases row with
  | none => exact .pure _
  | some row => exact .map _ (.lift ((validatePersistedCommandSpecHash_caught _).mono catches))

theorem executionAdmissionFromRow_raises (row : Row) : FailsOnly raised (executionAdmissionFromRow row) :=
  .mono (.bind (validatePersistedExecutionKey_caught _) fun _ => .bind (validatePersistedScope_caught _) fun _ =>
    .bind (validatePersistedGeneration_caught _) fun _ => .pure _) catches

theorem admitExecutionBody_raises {executionKey authorityScope : Str} {generation : Int}
    (binds : Binds raised executionKey) (bindsScope : Binds raised authorityScope)
    (inRange : 0 < generation ∧ generation ≤ maxGeneration) :
    (admitExecutionBody executionKey authorityScope generation).RaisesOnly raised Caught := by
  refine .bind (validateStore_raises catches) fun _ => .bind (requireRegistered_raises catches binds _) fun _ =>
    .bind (requireBinding_raises catches binds _) fun _ =>
    .bind (requireCurrentGeneration_raises catches bindsScope _ _) fun _ => .bind (select_raises binds) fun row => ?_
  cases row with
  | none =>
    exact .bind (insert_raises (.bind binds fun _ => .bind bindsScope fun _ =>
      .bind (bindGeneration_raises inRange) fun _ => .pure _)) fun _ => .pure _
  | some row =>
    exact .bind (.lift (executionAdmissionFromRow_raises catches _)) fun _ =>
      .bind (.lift (.mono (raiseIf_failsOnly trivial) catches)) fun _ => .pure _

theorem readExecutionAdmissionBody_raises {executionKey : Str} (binds : Binds raised executionKey) :
    (readExecutionAdmissionBody executionKey).RaisesOnly raised Caught := by
  refine .bind (validateStore_raises catches) fun _ => .bind (requireRegistered_raises catches binds _) fun _ =>
    .bind (select_raises binds) fun row => ?_
  cases row with
  | none => exact .pure _
  | some row => exact .map _ (.lift (executionAdmissionFromRow_raises catches _))

theorem executionLaunchFromRow_raises (row : Row) : FailsOnly raised (executionLaunchFromRow row) :=
  .mono (.bind (validatePersistedExecutionKey_caught _) fun _ =>
    .bind (validatePersistedCommandSpecHash_caught _) fun _ => .bind (validatePersistedScope_caught _) fun _ =>
    .bind (validatePersistedGeneration_caught _) fun _ => .bind (validatePersistedLaunchState_caught _) fun _ =>
    .bind (validatePersistedExitCode_caught _ _) fun _ => .pure _) catches

/-- A scope that equals an admitted one has an encoding, so what follows may bind it. -/
theorem requireAdmission_bind_raises {executionKey authorityScope : Str} (binds : Binds raised executionKey)
    (generation : Int) {α : Type} {next : Unit → Statements α}
    (rest : authorityScope.Encodable → ∀ value, (next value).RaisesOnly raised Caught) :
    (requireAdmission executionKey authorityScope generation >>= next).RaisesOnly raised Caught := by
  unfold requireAdmission
  rw [Script.bind_assoc]
  refine .bind (select_raises binds) fun row => ?_
  cases row with
  | none => exact catches _ trivial
  | some row =>
    refine .lift_bind (.mono (.bind (validatePersistedScope_caught _) fun _ =>
      .bind (validatePersistedGeneration_caught _) fun _ => raiseIf_failsOnly trivial) catches) fun _ accepted => ?_
    obtain ⟨scope, _, _, _, same⟩ := by simpa only [bind_eq_ok, raiseIf_ok, not_or, not_not, ne_eq] using accepted
    exact rest (Str.encodable_iff.mpr ⟨scope, same.1.symm⟩) _

theorem claimExecutionLaunchBody_raises {executionKey authorityScope commandSpecHash : Str} {generation : Int}
    (binds : Binds raised executionKey) (encodable : commandSpecHash.Encodable)
    (inRange : 0 < generation ∧ generation ≤ maxGeneration) :
    (claimExecutionLaunchBody executionKey authorityScope generation commandSpecHash).RaisesOnly raised Caught := by
  refine .bind (validateStore_raises catches) fun _ => .bind (requireRegistered_raises catches binds _) fun _ =>
    .bind (requireBinding_raises catches binds _) fun _ => .bind (.lift (.mono (raiseIf_failsOnly trivial) catches))
    fun _ => requireAdmission_bind_raises catches binds _ fun scopeEncodable _ => ?_
  have bindsScope : Binds raised authorityScope := .of_encodable scopeEncodable
  exact .bind (requireCurrentGeneration_raises catches bindsScope _ _) fun _ => .bind (select_raises binds) fun _ =>
    .bind (.lift (.mono (raiseIf_failsOnly trivial) catches)) fun _ =>
    .bind (.lift (.bind binds fun _ => .bind (Binds.of_encodable encodable) fun _ => .bind bindsScope fun _ =>
      .bind (bindGeneration_raises inRange) fun _ => .pure _)) fun _ =>
    .bind (insert_raises nofun) fun _ => .pure _

theorem requireLaunch_raises {executionKey : Str} (binds : Binds raised executionKey) (commandSpecHash : Str)
    (required : ExecutionLaunchState) (missing mismatch illegal : String) :
    (requireLaunch executionKey commandSpecHash required missing mismatch illegal).RaisesOnly raised Caught := by
  refine .bind (select_raises binds) fun row => ?_
  cases row with
  | none => exact catches _ trivial
  | some row =>
    exact .lift (.bind (executionLaunchFromRow_raises catches _) fun _ =>
      .bind (.mono (raiseIf_failsOnly trivial) catches) fun _ =>
      .bind (.mono (raiseIf_failsOnly trivial) catches) fun _ => .pure _)

theorem markExecutionLaunchUnknownBody_raises {executionKey commandSpecHash : Str} (binds : Binds raised executionKey)
    (encodable : commandSpecHash.Encodable) :
    (markExecutionLaunchUnknownBody executionKey commandSpecHash).RaisesOnly raised Caught :=
  .bind (validateStore_raises catches) fun _ => .bind (requireLaunch_raises catches binds _ _ _ _ _) fun _ =>
    .bind (update_raises (.bind binds fun _ => .bind (Binds.of_encodable encodable) fun _ => .pure _)) fun _ =>
    .bind (.lift (.mono (raiseIf_failsOnly trivial) catches)) fun _ => .pure _

theorem recordExecutionTerminalResultBody_raises {executionKey commandSpecHash : Str} {terminalExitCode : Int}
    (binds : Binds raised executionKey) (encodable : commandSpecHash.Encodable)
    (low : minSqliteInteger ≤ terminalExitCode) (high : terminalExitCode ≤ maxSqliteInteger) :
    (recordExecutionTerminalResultBody executionKey commandSpecHash terminalExitCode).RaisesOnly raised Caught :=
  .bind (validateStore_raises catches) fun _ => .bind (requireLaunch_raises catches binds _ _ _ _ _) fun _ =>
    .bind (update_raises (.bind (bindInteger_raises low high) fun _ =>
      .bind (.bind binds fun _ => .bind (Binds.of_encodable encodable) fun _ => .pure _) fun _ => .pure _)) fun _ =>
    .bind (.lift (.mono (raiseIf_failsOnly trivial) catches)) fun _ => .pure _

theorem readExecutionLaunchBody_raises {executionKey : Str} (binds : Binds raised executionKey) :
    (readExecutionLaunchBody executionKey).RaisesOnly raised Caught := by
  refine .bind (validateStore_raises catches) fun _ => .bind (requireRegistered_raises catches binds _) fun _ =>
    .bind (select_raises binds) fun row => ?_
  cases row with
  | none => exact .pure _
  | some row => exact .map _ (.lift (executionLaunchFromRow_raises catches _))

end Bodies

end Umbilical.Authority
