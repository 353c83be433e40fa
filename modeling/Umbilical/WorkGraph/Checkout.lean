import Umbilical.WorkGraph.Target

set_option autoImplicit false

/-!
# The deployment

Where the store and the checkouts are, how a checkout is made again from the
authenticated target, and the command that is run in it.
-/

namespace Umbilical.WorkGraph

open Python Authority Execution

variable (pathlib : Pathlib) (db : CharacterDatabase) (sha256 : List UInt8 → Text) {isabs : Str → Bool}

def knownLocalAppData : Client isabs Path := do
  match ← ask .localAppData with
  | none => refuse "Windows Local AppData known-folder lookup failed"
  | some path => resolve (pathlib.path path)

def deploymentRoot : Client isabs Path := do
  let known ← knownLocalAppData pathlib
  resolve (pathlib.join (pathlib.join known "Umbilical".toList) "workgraph-first-client-v1".toList)

def authorityStorePath : Client isabs Path := do
  return pathlib.join (← deploymentRoot pathlib) "authority.sqlite".toList

def checkoutRoot : Client isabs Path := do
  return pathlib.join (← deploymentRoot pathlib) "checkouts".toList

def checkoutDirectory (executionKey : Str) : Client isabs Path := do
  let encoded ← inside executionKey.encode
  return pathlib.join (← checkoutRoot pathlib) ((sha256 encoded).take 32)

def assertAuthorityStoreOutsideCheckouts (path : Path) : Client isabs Unit := do
  let checkouts ← resolve (← checkoutRoot pathlib)
  let actual ← resolve path
  if pathlib.isRelativeTo actual checkouts then
    refuse "fixed authority store must remain outside disposable checkouts"

def removeDisposableCheckout (checkout : Path) : Client isabs Unit := do
  let parent ← resolve (pathlib.parent checkout)
  if pathlib.same (pathlib.parent checkout) parent = false then
    refuse "refusing to reconstruct an unexpected checkout path"
  else
    let checkouts ← resolve (← checkoutRoot pathlib)
    if pathlib.same parent checkouts = false then refuse "refusing to reconstruct an unexpected checkout path"
    else if ← isSymlink checkout then unlink checkout
    else if ← isDir checkout then rmtree checkout
    else refuse "existing checkout path is not a disposable directory"

def verifyCleanCheckout (checkout : Path) (target : VerifiedWorkGraphTarget) : Client isabs Unit := do
  if (← runGit db checkout headArguments) ≠ target.revision then
    refuse "checked-out WorkGraph HEAD does not match authenticated revision"
  else if (← runGit db checkout treeArguments) ≠ target.treeSha then
    refuse "checked-out WorkGraph tree does not match authenticated tree"
  else if (← runGit db checkout statusArguments) ≠ [] then
    refuse "checked-out WorkGraph tree is not clean"

/-- `checkout.exists() or checkout.is_symlink()`. -/
def isPresent (path : Path) : Client isabs Bool := do
  if ← pathExists path then return true else isSymlink path

def clearCheckout (checkout : Path) : Client isabs Unit := do
  if ← isPresent checkout then removeDisposableCheckout pathlib checkout

def cloneCheckout (target : VerifiedWorkGraphTarget) (source checkout : Path) : Client isabs Unit := do
  mkdir (pathlib.parent checkout)
  match ← gitArgv (pathlib.parent source) ["clone".toList, "--no-hardlinks".toList, "--no-checkout".toList, "--".toList,
      source, checkout] with
  | none => refuse "an absolute git executable is required"
  | some cloneCommand =>
      let completed ← run cloneCommand
      if completed.returncode ≠ 0 then refuse "fixed git checkout preparation failed"
      else
        let _ ← runGit db checkout ["remote".toList, "remove".toList, "origin".toList]
        let _ ← runGit db checkout ["checkout".toList, "--detach".toList, target.revision]
        verifyCleanCheckout db checkout target

def prepareExactCheckout (target : VerifiedWorkGraphTarget) (source : Path) (executionKey : Str) : Client isabs Path := do
  if (← isDir source) = false then refuse "source must be an existing local WorkGraph clone or mirror"
  else
    let available ← runGit db source
      ["rev-parse".toList, "--verify".toList, target.revision ++ "^\x7bcommit\x7d".toList]
    if available ≠ target.revision then refuse "authenticated WorkGraph revision is not available from source"
    else
      let checkout ← checkoutDirectory pathlib sha256 executionKey
      clearCheckout pathlib checkout
      cloneCheckout pathlib db target source checkout
      return checkout

def currentPythonExecutable : Client isabs Path := do
  let executable : Text ← ask .executable
  resolve (pathlib.path executable)

/-- What `build_command_spec` puts into the environment, in the order of the `dict`. -/
def commandEnvironment (authorityDb pythonExecutable : Path) : Client isabs (List (Text × Text)) := do
  match ← environ "SystemRoot" with
  | none | some [] => refuse "SystemRoot is required on Windows"
  | some systemRoot =>
      let temporary := pathlib.join (pathlib.parent authorityDb) "temporary".toList
      mkdir temporary
      match ← gitArgv (pathlib.parent authorityDb) ["--version".toList] with
      | none | some [] => refuse "an absolute git executable is required"
      | some (git :: _) =>
          return [
            ("PATH".toList, pathlib.parent pythonExecutable ++ [';'] ++ pathlib.parent (pathlib.path git) ++ [';'] ++
              pathlib.join (pathlib.path systemRoot) "System32".toList),
            ("PYTHONUTF8".toList, ['1']),
            ("SYSTEMROOT".toList, systemRoot),
            ("TEMP".toList, temporary),
            ("TMP".toList, temporary)]

def textValue (text : Text) : PyValue := .str (Str.ofText text)

def buildCommandSpec (timeoutSeconds : Int) (target : VerifiedWorkGraphTarget) (checkout : Path) (contractTree : Text)
    (integrityOnly : Bool) : Client isabs (LocalCommandSpec isabs) := do
  let file := pathlib.path (← moduleFile)
  let wrapper ← resolve (pathlib.withName file "umbilical_workgraph_validation.py".toList)
  let authorityDb ← authorityStorePath pathlib
  let pythonExecutable ← currentPythonExecutable pathlib
  let argv := [pythonExecutable, wrapper, "--checkout-root".toList, checkout, "--expected-revision".toList,
    target.revision, "--expected-tree".toList, target.treeSha, "--expected-contract-tree".toList, contractTree] ++
      if integrityOnly then ["--integrity-only".toList] else []
  let environment ← commandEnvironment pathlib authorityDb pythonExecutable
  let argv ← inside (toTuple (argv.map textValue))
  let items ← inside (toTuple (environment.map fun item => some (textValue item.1, textValue item.2)))
  inside (snapshot isabs
    { executable := textValue pythonExecutable
      argv := .sequence argv
      workingDirectory := textValue checkout
      environment := .mapping items
      timeoutSeconds := .int timeoutSeconds })

def runIntegrityPreflight (commandSpec : LocalCommandSpec isabs) : Client isabs Unit := do
  let exitCode : Int ← ask (.launch commandSpec)
  if exitCode ≠ 0 then refuse "WorkGraph integrity preflight failed"

end Umbilical.WorkGraph
