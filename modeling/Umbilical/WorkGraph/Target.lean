import Umbilical.Execution.ExecutionIdentity
import Umbilical.WorkGraph.Surroundings

set_option autoImplicit false

/-!
# The authenticated target

One commit of one fixed repository, as GitHub and the committed validation
contract have it, and the execution key that belongs to both.
-/

namespace Umbilical.WorkGraph

open Python Authority Execution Dictionary

def repository : Text := "4i7/WorkGraph".toList
def repositoryId : Int := 1338331328
def subject : Text := "workgraph/repository-valid".toList
def contractIdPrefix : Text := "umbilical-workgraph-validation-tree:".toList
def authorityScope : Text := "umbilical/workgraph-first-client/v1".toList
def statusContext : Text := "workgraph/umbilical-repository-valid".toList

/-- `_REVISION.fullmatch`. -/
def IsRevision (text : Text) : Prop := text.length = 40 ∧ ∀ char ∈ text, char ∈ "0123456789abcdef".toList

instance (text : Text) : Decidable (IsRevision text) := inferInstanceAs (Decidable (_ ∧ _))

structure VerifiedWorkGraphTarget where
  repositoryFullName : Text
  repositoryId : Int
  revision : Text
  treeSha : Text
  deriving DecidableEq

/-- `type(value) is dict`, with `get`. -/
def getItem (name : String) : Option Json → Option Json
  | some (.dict items) => (Dict.ofItems items).get (Str.literal name)
  | _ => none

def isDict : Json → Bool
  | .dict _ => true
  | _ => false

def equalsText (text : Text) : Option Json → Bool
  | some (.str value) => value = Str.ofText text
  | _ => false

/-- `value == number`, where a truth value or a float may equal a number. -/
def equalsInt (number : Int) : Option Json → Bool
  | some (.int value) => value = number
  | some (.bool value) => (if value then 1 else 0) = number
  | some (.float (.finite value)) => value = number
  | _ => false

/-- An exact `str` that is a revision. -/
def revisionText : Option Json → Option Text
  | some (.str value) => (Str.text? value).filter fun text => IsRevision text
  | _ => none

section Git

variable (pathlib : Pathlib) (db : CharacterDatabase) {isabs : Str → Bool}

def gitArgv (directory : Path) (arguments : List Text) : Client isabs (Option (List Text)) := do
  match ← ask (.which "git".toList) with
  | none => return none
  | some executable =>
      if isabs (Str.ofText executable) then
        return some (executable :: "-c".toList :: "core.longpaths=true".toList :: "-C".toList :: directory :: arguments)
      else return none

def gitOutput (directory : Path) (arguments : List Text) : Client isabs (Option Text) := do
  match ← gitArgv directory arguments with
  | none => return none
  | some command =>
      let completed ← try some <$> run command catch
        | .fault .osError => pure none
        | error => throw error
      match completed with
      | none => return none
      | some completed => return if completed.returncode = 0 then some (db.strip completed.stdout) else none

def headArguments : List Text := ["rev-parse".toList, "HEAD".toList]

-- a brace is 7b and 7d in hexadecimal
def treeArguments : List Text := ["rev-parse".toList, "HEAD^\x7btree\x7d".toList]

def statusArguments : List Text := ["status".toList, "--porcelain".toList, "--untracked-files=all".toList]

def committedCleanTree (repositoryRoot : Path) : Client isabs (Option Text) := do
  let topLevel ← gitOutput db repositoryRoot ["rev-parse".toList, "--show-toplevel".toList]
  let head ← gitOutput db repositoryRoot headArguments
  let tree ← gitOutput db repositoryRoot treeArguments
  let status ← gitOutput db repositoryRoot statusArguments
  match topLevel with
  | none => return none
  | some topLevel =>
      let actual ← resolve (pathlib.path topLevel)
      let expected ← resolve repositoryRoot
      if pathlib.same actual expected = false ∨ (head.filter fun head => IsRevision head).isNone ∨ status ≠ some [] then
        return none
      else return tree.filter fun tree => IsRevision tree

def runGit (directory : Path) (arguments : List Text) : Client isabs Text := do
  match ← gitOutput db directory arguments with
  | none => refuse "fixed git checkout preparation failed"
  | some output => return output

def contractRoot : Client isabs Path := do
  let file ← resolve (pathlib.path (← moduleFile))
  return pathlib.parent (pathlib.parent (pathlib.parent file))

def contractTree : Client isabs Text := do
  match ← committedCleanTree pathlib db (← contractRoot pathlib) with
  | none => refuse "Umbilical validation contract must be committed and clean"
  | some tree => return tree

end Git

section Target

variable {isabs : Str → Bool}

def validationContractId (contractTree : Text) : Except PyError Text := do
  raiseIf (¬ IsRevision contractTree) (.workGraphClientError "contract tree must be an exact lowercase 40-hex SHA")
  return contractIdPrefix ++ contractTree

def githubJson (path token : Text) : Client isabs Json := do
  try ask (.urlopen ("https://api.github.com".toList ++ path) token) catch
    | .fault .osError => refuse "authenticated GitHub target lookup failed"
    | .fault .valueError => refuse "authenticated GitHub target lookup failed"
    | error => throw error

/-- `verify_workgraph_target`: two authenticated reads. -/
def verifyWorkgraphTarget (revision token : Text) : Client isabs VerifiedWorkGraphTarget := do
  if ¬ IsRevision revision then refuse "revision must be an exact lowercase 40-hex SHA"
  else
    let found ← githubJson ("/repos/".toList ++ repository) token
    if isDict found = false then refuse "GitHub repository response is malformed"
    else if equalsText repository (getItem "full_name" (some found)) = false ∨
        equalsInt repositoryId (getItem "id" (some found)) = false then
      refuse "GitHub repository identity does not match fixed WorkGraph authority"
    else
      let commit ← githubJson ("/repos/".toList ++ repository ++ "/commits/".toList ++ revision) token
      if isDict commit = false ∨ equalsText revision (getItem "sha" (some commit)) = false then
        refuse "GitHub exact commit response does not match requested revision"
      else
        match revisionText (getItem "sha" (getItem "tree" (getItem "commit" (some commit)))) with
        | none => refuse "GitHub exact commit response is missing a valid tree SHA"
        | some treeSha => return ⟨repository, repositoryId, revision, treeSha⟩

/-- The execution key of a target under a validation contract. -/
def executionKey (target : VerifiedWorkGraphTarget) (contractTree : Text) : Except PyError Str := do
  let contractId ← validationContractId contractTree
  deriveExecutionKey (.str (Str.ofText ("github-repository-id:".toList ++ (toString target.repositoryId).toList)))
    (.str (Str.ofText subject)) (.str (Str.ofText target.revision)) (.str (Str.ofText contractId))

end Target

end Umbilical.WorkGraph
