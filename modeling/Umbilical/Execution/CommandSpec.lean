import Umbilical.Execution.Framing

set_option autoImplicit false

namespace Umbilical.Execution

open Python

def commandSpecDomain : List UInt8 := bytesLiteral "umbilical-local-command-spec-v1\x00"

def maxFramedBytes : Nat := 2 ^ 64 - 1

/-- A `tuple`. Its length is a `Py_ssize_t`. -/
structure PyTuple (α : Type) where
  items : List α
  fits : items.length ≤ maxSize
  deriving DecidableEq

/-- The arguments of the `LocalCommandSpec` constructor. `none` stands for a container, or an
environment item, that is not an exact tuple (for an item: not a pair). -/
structure CommandFields where
  executable : PyValue
  argv : Option (PyTuple PyValue)
  workingDirectory : PyValue
  environment : Option (PyTuple (Option (PyValue × PyValue)))
  timeoutSeconds : PyValue
  deriving DecidableEq

def invalidSpec (message : String) : PyError := .invalid .invalidLocalCommandSpecError message

def validateText (name : String) (value : PyValue) (allowEmpty forbidNul : Bool) :
    Except PyError (List UInt8) :=
  let requirement := if allowEmpty then "string" else "non-empty string"
  match value with
  | .str value =>
      if allowEmpty = false ∧ value = [] then .error (invalidSpec (name ++ " must be an exact " ++ requirement))
      else if forbidNul ∧ CodePoint.scalar '\x00' ∈ value then
        .error (invalidSpec (name ++ " must not contain NUL"))
      else match value.encode with
        | .error .unicodeEncodeError => .error (invalidSpec (name ++ " must be strictly UTF-8 encodable"))
        | .error error => .error error
        | .ok encoded =>
            if encoded.length > maxFramedBytes then
              .error (invalidSpec (name ++ " UTF-8 byte length exceeds unsigned 64-bit framing"))
            else .ok encoded
  | _ => .error (invalidSpec (name ++ " must be an exact " ++ requirement))

/-- The string behind an exact `str`. -/
def strOf : PyValue → Option Str
  | .str value => some value
  | _ => none

section Construction

-- `os.path.isabs` of the host
variable (isabs : Str → Bool)

def validateAbsolute (name message : String) (value : PyValue) : Except PyError Unit := do
  let _ ← validateText name value false true
  raiseIf (∃ path ∈ strOf value, isabs path = false) (invalidSpec message)

def validateArguments : Nat → List PyValue → Except PyError Unit
  | _, [] => .ok ()
  | index, argument :: rest => do
      let _ ← validateText ("argv[" ++ toString index ++ "]") argument true true
      validateArguments (index + 1) rest

def notAfter (nameBytes : List UInt8) (previousKeyBytes : Option (List UInt8)) : Prop :=
  ∃ previous ∈ previousKeyBytes, nameBytes ≤ previous

instance (nameBytes : List UInt8) (previousKeyBytes : Option (List UInt8)) :
    Decidable (notAfter nameBytes previousKeyBytes) := inferInstanceAs (Decidable (∃ _ ∈ _, _))

def validateEnvironment :
    Nat → Option (List UInt8) → List PyValue → List (Option (PyValue × PyValue)) → Except PyError Unit
  | _, _, _, [] => .ok ()
  | index, _, _, none :: _ =>
      .error (invalidSpec ("environment[" ++ toString index ++ "] must be an exact (name, value) tuple"))
  | index, previousKeyBytes, seenKeys, some (name, value) :: rest => do
      let field := "environment[" ++ toString index ++ "]"
      let nameBytes ← validateText (field ++ ".name") name false true
      raiseIf (∃ text ∈ strOf name, CodePoint.scalar '=' ∈ text)
        (invalidSpec "environment variable names must not contain '='")
      let _ ← validateText (field ++ ".value") value true true
      raiseIf (name ∈ seenKeys) (invalidSpec "environment variable names must be unique")
      raiseIf (notAfter nameBytes previousKeyBytes)
        (invalidSpec "environment must be sorted by exact UTF-8 name bytes")
      validateEnvironment (index + 1) (some nameBytes) (name :: seenKeys) rest

def validateTimeout : PyValue → Except PyError Unit
  | .int timeoutSeconds =>
      if timeoutSeconds ≤ 0 then .error (invalidSpec "timeout_seconds must be an exact positive integer")
      else if timeoutSeconds > maxFramedBytes then
        .error (invalidSpec "timeout_seconds exceeds unsigned 64-bit canonical framing")
      else .ok ()
  | _ => .error (invalidSpec "timeout_seconds must be an exact positive integer")

def validateArgv : Option (PyTuple PyValue) → Except PyError Unit
  | none => .error (invalidSpec "argv must be an exact non-empty tuple")
  | some argv => do
      raiseIf (argv.items = []) (invalidSpec "argv must be an exact non-empty tuple")
      validateArguments 0 argv.items

/-- `LocalCommandSpec.__post_init__`. -/
def postInit (fields : CommandFields) : Except PyError Unit := do
  validateAbsolute isabs "executable" "executable must be an absolute native path" fields.executable
  validateArgv fields.argv
  validateAbsolute isabs "working_directory" "working_directory must be an absolute native path"
    fields.workingDirectory
  match fields.environment with
  | none => .error (invalidSpec "environment must be an exact tuple")
  | some environment => do
      validateEnvironment 0 none [] environment.items
      validateTimeout fields.timeoutSeconds

/-- A constructed value: its fields passed `__post_init__`, and the class is frozen. -/
structure LocalCommandSpec where
  fields : CommandFields
  initialized : postInit isabs fields = .ok ()
  deriving DecidableEq

end Construction

def frameBytes (value : List UInt8) : Except PyError (List UInt8) :=
  if value.length > maxFramedBytes then
    .error (invalidSpec "canonical component exceeds unsigned 64-bit framing")
  else do
    let length ← toBytes value.length 8
    return length ++ value

def frameField (name : String) (value : PyValue) : Except PyError (List UInt8) := do
  let tag ← frameBytes (bytesLiteral name)
  let bytes ← validateText name value false true
  let framed ← frameBytes bytes
  return tag ++ framed

def frameArguments : List PyValue → Except PyError (List UInt8)
  | [] => .ok []
  | argument :: rest => do
      let bytes ← validateText "argv" argument true true
      let framed ← frameBytes bytes
      let frames ← frameArguments rest
      return framed ++ frames

def frameEnvironment : List (Option (PyValue × PyValue)) → Except PyError (List UInt8)
  | [] => .ok []
  | none :: _ => .error (.typeError "cannot unpack environment item")
  | some (name, value) :: rest => do
      let nameBytes ← validateText "environment.name" name false true
      let nameFrame ← frameBytes nameBytes
      let valueBytes ← validateText "environment.value" value true true
      let valueFrame ← frameBytes valueBytes
      let frames ← frameEnvironment rest
      return nameFrame ++ valueFrame ++ frames

def timeoutBytes : PyValue → Except PyError (List UInt8)
  | .int timeoutSeconds =>
      if timeoutSeconds < 0 then .error .overflowError else toBytes timeoutSeconds.toNat 8
  | _ => .error (.typeError "timeout_seconds has no to_bytes")

def tupleItems {α : Type} : Option (PyTuple α) → Except PyError (List α)
  | none => .error (.typeError "not a tuple")
  | some tuple => .ok tuple.items

def canonicalCommandSpecBytes (fields : CommandFields) : Except PyError (List UInt8) := do
  let executable ← frameField "executable" fields.executable
  let argvTag ← frameBytes (bytesLiteral "argv")
  let argv ← tupleItems fields.argv
  let argvCount ← toBytes argv.length 8
  let arguments ← frameArguments argv
  let workingDirectory ← frameField "working_directory" fields.workingDirectory
  let environmentTag ← frameBytes (bytesLiteral "environment")
  let environment ← tupleItems fields.environment
  let environmentCount ← toBytes environment.length 8
  let entries ← frameEnvironment environment
  let timeoutTag ← frameBytes (bytesLiteral "timeout_seconds")
  let timeout ← timeoutBytes fields.timeoutSeconds
  return commandSpecDomain ++ executable ++ argvTag ++ argvCount ++ arguments ++ workingDirectory ++
    environmentTag ++ environmentCount ++ entries ++ timeoutTag ++ timeout

/-- `hexdigest` of SHA-256 is the parameter. -/
def commandSpecHash (sha256 : List UInt8 → Text) (fields : CommandFields) : Except PyError Str := do
  let bytes ← canonicalCommandSpecBytes fields
  return Str.literal "ucsh1:sha256:" ++ Str.ofText (sha256 bytes)

end Umbilical.Execution
