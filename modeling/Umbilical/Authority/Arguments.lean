import Umbilical.Python.Value

set_option autoImplicit false

/-!
The checks every public operation makes on its arguments before it opens a
transaction. An accepted argument is returned in the form the rest of the
operation uses.
-/

namespace Umbilical.Authority

open Python

def maxGeneration : Int := 2 ^ 63 - 1
def minSqliteInteger : Int := -2 ^ 63
def maxSqliteInteger : Int := 2 ^ 63 - 1

/-- Subclasses of `str` are accepted here, and only here. -/
def validateScope : PyValue → Except PyError Str
  | .str scope | .strSubclass scope =>
      if scope = [] then
        .error (.invalid .invalidAuthorityScopeError "AuthorityScope must be a non-empty string")
      else .ok scope
  | _ => .error (.invalid .invalidAuthorityScopeError "AuthorityScope must be a non-empty string")

def validateExecutionKey : PyValue → Except PyError Str
  | .str executionKey =>
      if executionKey = [] then
        .error (.invalid .invalidExecutionKeyError "ExecutionKey must be an exact non-empty string")
      else .ok executionKey
  | _ => .error (.invalid .invalidExecutionKeyError "ExecutionKey must be an exact non-empty string")

def validateCommandSpecHash : PyValue → Except PyError Str
  | .str commandSpecHash =>
      if commandSpecHash = [] then
        .error (.invalid .invalidCommandSpecHashError
          "CommandSpecHash must be an exact non-empty string")
      else match commandSpecHash.encode with
        | .error .unicodeEncodeError =>
            .error (.invalid .invalidCommandSpecHashError
              "CommandSpecHash must be strictly UTF-8 encodable")
        | .error error => .error error
        | .ok _ => .ok commandSpecHash
  | _ => .error (.invalid .invalidCommandSpecHashError
      "CommandSpecHash must be an exact non-empty string")

def validateControllerGeneration : PyValue → Except PyError Int
  | .int generation =>
      if generation ≤ 0 ∨ generation > maxGeneration then
        .error (.invalid .invalidControllerGenerationError
          "ControllerGeneration must be a positive SQLite INTEGER value")
      else .ok generation
  | _ => .error (.invalid .invalidControllerGenerationError
      "ControllerGeneration must be a positive SQLite INTEGER value")

def validateProcessExitCode : PyValue → Except PyError Int
  | .int exitCode =>
      if exitCode < minSqliteInteger ∨ exitCode > maxSqliteInteger then
        .error (.invalid .invalidProcessExitCodeError
          "process exit code must be an exact SQLite INTEGER value")
      else .ok exitCode
  | _ => .error (.invalid .invalidProcessExitCodeError
      "process exit code must be an exact SQLite INTEGER value")

theorem validateScope_invalid (value : PyValue) : FailsOnly PyError.Invalid (validateScope value) := by
  cases value with
  | str | strSubclass => exact .ite (.error trivial) (.pure _)
  | _ => exact .error trivial

theorem validateExecutionKey_invalid (value : PyValue) : FailsOnly PyError.Invalid (validateExecutionKey value) := by
  cases value with
  | str => exact .ite (.error trivial) (.pure _)
  | _ => exact .error trivial

theorem validateCommandSpecHash_invalid (value : PyValue) : FailsOnly PyError.Invalid (validateCommandSpecHash value) := by
  cases value with
  | str str =>
    refine .ite (.error trivial) ?_
    unfold Str.encode
    cases Str.text? str with
    | none => exact .error trivial
    | some text => exact .pure _
  | _ => exact .error trivial

theorem validateControllerGeneration_invalid (value : PyValue) :
    FailsOnly PyError.Invalid (validateControllerGeneration value) := by
  cases value with
  | int => exact .ite (.error trivial) (.pure _)
  | _ => exact .error trivial

theorem validateProcessExitCode_invalid (value : PyValue) : FailsOnly PyError.Invalid (validateProcessExitCode value) := by
  cases value with
  | int => exact .ite (.error trivial) (.pure _)
  | _ => exact .error trivial

theorem validateScope_ok {value : PyValue} {scope : Str} (accepted : validateScope value = .ok scope) :
    (value = .str scope ∨ value = .strSubclass scope) ∧ scope ≠ [] := by
  cases value <;> simp only [validateScope, reduceCtorEq] at accepted
  all_goals split_ifs at accepted with empty
  all_goals cases accepted; exact ⟨by simp, empty⟩

theorem validateExecutionKey_ok {value : PyValue} {executionKey : Str} :
    validateExecutionKey value = .ok executionKey ↔ value = .str executionKey ∧ executionKey ≠ [] := by
  cases value <;> simp [validateExecutionKey]
  split_ifs with empty <;> simp [empty]
  rintro rfl
  exact empty

theorem validateCommandSpecHash_ok {value : PyValue} {commandSpecHash : Str}
    (accepted : validateCommandSpecHash value = .ok commandSpecHash) :
    ∃ text : Text, commandSpecHash = Str.ofText text ∧ text ≠ [] ∧ value = .str commandSpecHash := by
  cases value <;> simp only [validateCommandSpecHash, reduceCtorEq] at accepted
  rename_i str
  split_ifs at accepted with empty
  cases encoded : str.encode with
  | error error => cases error <;> simp [encoded] at accepted
  | ok bytes =>
    simp only [encoded, Except.ok.injEq] at accepted
    obtain ⟨text, rfl, _⟩ := Str.encode_eq_ok.mp encoded
    subst accepted
    exact ⟨text, rfl, fun none => empty (by rw [none]; rfl), rfl⟩

theorem validateControllerGeneration_ok {value : PyValue} {generation : Int}
    (accepted : validateControllerGeneration value = .ok generation) :
    value = .int generation ∧ 0 < generation ∧ generation ≤ maxGeneration := by
  cases value <;> simp only [validateControllerGeneration, reduceCtorEq] at accepted
  split_ifs at accepted with outside
  cases accepted
  exact ⟨rfl, by omega, by omega⟩

theorem validateProcessExitCode_ok {value : PyValue} {exitCode : Int}
    (accepted : validateProcessExitCode value = .ok exitCode) :
    value = .int exitCode ∧ minSqliteInteger ≤ exitCode ∧ exitCode ≤ maxSqliteInteger := by
  cases value <;> simp only [validateProcessExitCode, reduceCtorEq] at accepted
  split_ifs at accepted with outside
  cases accepted
  exact ⟨rfl, by omega, by omega⟩

end Umbilical.Authority
