import Umbilical.Authority.Requests
import Umbilical.Execution.Snapshot
import Umbilical.Python.Json
import Umbilical.Shared.Programs

set_option autoImplicit false

/-!
# What the WorkGraph client talks to

Everything outside the client is asked one question at a time: the process and
its environment, the file system, git, GitHub, and the authority store.
-/

namespace Umbilical.WorkGraph

open Python Authority Execution

/-- `str(path)`. -/
abbrev Path := Text

/-- What `pathlib` does with Windows paths without looking at the file system. -/
structure Pathlib where
  path : Text → Path
  join : Path → Text → Path
  parent : Path → Path
  withName : Path → Text → Path
  same : Path → Path → Bool
  isAbsolute : Path → Bool
  isRelativeTo : Path → Path → Bool

/-- An exception from outside. `other` is one that no clause of the client names. -/
inductive Fault where
  | osError
  | valueError
  | other
  deriving DecidableEq

structure CompletedProcess where
  returncode : Int
  stdout : Text

/-- The JSON of a commit status. -/
structure StatusPayload where
  state : Text
  context : Text
  description : Text
  deriving DecidableEq

section Actions

variable (isabs : Str → Bool)

inductive Question where
  | osName
  | environ (name : Text)
  | executable
  | moduleFile
  /-- `SHGetKnownFolderPath` for the local application data. -/
  | localAppData
  | which (program : Text)
  | resolve (path : Path)
  | isDir (path : Path)
  | isSymlink (path : Path)
  | exists_ (path : Path)
  | mkdir (path : Path)
  | unlink (path : Path)
  | rmtree (path : Path)
  /-- `subprocess.run` with captured output. -/
  | run (command : List Text)
  /-- `subprocess.run` in a directory, which answers with the exit code. -/
  | runIn (directory : Path) (command : List Text)
  /-- `SubprocessLocalProcessLauncher().launch`, outside of an execution. -/
  | launch (commandSpec : LocalCommandSpec isabs)
  /-- A GET of the GitHub API, parsed. -/
  | urlopen (url token : Text)
  /-- A POST to it, which answers with a status. -/
  | post (url token : Text) (payload : StatusPayload)

def Question.Answer : Question isabs → Type
  | .osName | .executable | .moduleFile => Text
  | .environ _ | .localAppData | .which _ => Option Text
  | .resolve _ => Path
  | .isDir _ | .isSymlink _ | .exists_ _ => Bool
  | .mkdir _ | .unlink _ | .rmtree _ => Unit
  | .run _ => CompletedProcess
  | .runIn _ _ | .launch _ | .post _ _ _ => Int
  | .urlopen _ _ => Json

inductive Action where
  | ask (question : Question isabs)
  /-- `AuthorityStore.initialize_new`. -/
  | initializeNew (path : Path)
  | openExisting (path : Path)
  | request (request : Request)
  | execute (executionKey authorityScope controllerGeneration : PyValue) (commandSpec : LocalCommandSpec isabs)
  | close

inductive ClientError where
  | raised (error : PyError)
  | fault (fault : Fault)

structure LocalExecutionResult where
  executionKey : PyValue
  commandSpecHash : Str
  exitCode : Int

def Action.Answer : Action isabs → Type
  | .ask question => Except Fault (question.Answer isabs)
  | .initializeNew _ | .openExisting _ => Except PyError Unit
  | .request _ => Except PyError Response
  | .execute _ _ _ _ => Except ClientError LocalExecutionResult
  | .close => Unit

abbrev Client := Program (Action isabs) (Action.Answer isabs) ClientError

end Actions

variable {isabs : Str → Bool}

/-- `raise WorkGraphClientError(message)`. -/
def refuse {α : Type} (message : String) : Client isabs α := throw (.raised (.workGraphClientError message))

def ask (question : Question isabs) : Client isabs (question.Answer isabs) := do
  let answer ← Program.act (Action.ask question)
  Program.lift (Except.mapError .fault answer)

def moduleFile : Client isabs Text := ask .moduleFile
def resolve (path : Path) : Client isabs Path := ask (.resolve path)
def isDir (path : Path) : Client isabs Bool := ask (.isDir path)
def isSymlink (path : Path) : Client isabs Bool := ask (.isSymlink path)
def pathExists (path : Path) : Client isabs Bool := ask (.exists_ path)
def mkdir (path : Path) : Client isabs Unit := ask (.mkdir path)
def unlink (path : Path) : Client isabs Unit := ask (.unlink path)
def rmtree (path : Path) : Client isabs Unit := ask (.rmtree path)
def environ (name : String) : Client isabs (Option Text) := ask (.environ name.toList)
def run (command : List Text) : Client isabs CompletedProcess := ask (.run command)

/-- Code that asks nothing. -/
def inside {α : Type} (result : Except PyError α) : Client isabs α := Program.lift (result.mapError .raised)

def request (request : Request) : Client isabs Response := do
  inside (← Program.act (Action.request request))

end Umbilical.WorkGraph
