import Umbilical.Python.Json
import Umbilical.Shared.Base64
import Umbilical.Shared.Refusals

set_option autoImplicit false

/-!
# Job files of `Try_Jobdir`

`parseJob` reads a file of the job directory, and `handleJobFile` submits what it says. The
netstrings and the JSON in it are read by libraries.
-/

namespace Umbilical.Schedulers

open Umbilical.Python

inductive JobError where
  | badJobfile (message : String)
  | unicodeDecodeError
  | unicodeEncodeError
  | valueError
  | indexError
  | keyError (key : Str)
  | typeError
  | overflowError
  | recursionError
  | attributeError
  deriving DecidableEq

namespace JobError

def IsBadJobfile : JobError → Prop
  | badJobfile _ => True
  | _ => False

/-- `isinstance(error, ValueError)`. -/
def isValueError : JobError → Bool
  | unicodeDecodeError | unicodeEncodeError | valueError => true
  | _ => false

end JobError

/-- What a job has under a key. -/
inductive JobValue where
  | json (value : Json)
  | bytes (value : List UInt8)

namespace JobValue

def truthy : JobValue → Bool
  | json value => value.truthy
  | bytes value => !value.isEmpty

/-- `int(value)`. -/
def int (db : CharacterDatabase) : JobValue → Except JobError Int
  | json (.int value) => .ok value
  | json (.bool value) => .ok (if value then 1 else 0)
  | json (.float (.finite value)) => .ok (value.num.tdiv value.den)
  | json (.float .nan) => .error .valueError
  | json (.float (.infinite _)) => .error .overflowError
  | json (.str value) => ((Str.text? value).bind db.int).elim (.error .valueError) .ok
  | json .null | json (.list _) | json (.dict _) => .error .typeError
  | bytes value =>
    -- of bytes only ASCII is read, and the separators of records are no blanks
    if value.all fun byte => byte.toNat < 128 ∧ ¬ (28 ≤ byte.toNat ∧ byte.toNat ≤ 31) then
      (db.int (value.map fun byte => Char.ofNat byte.toNat)).elim (.error .valueError) .ok
    else .error .valueError

/-- `bytes2unicode`, which returns `None` as it is. -/
def bytes2unicode : JobValue → Except JobError (Option Str)
  | json .null => .ok none
  | json (.str value) => .ok (some value)
  | bytes value =>
    match decodeUtf8 value with
    | some text => .ok (some (Str.ofText text))
    | none => .error .unicodeDecodeError
  | json _ => .error .typeError

def unicode2bytes : JobValue → Except JobError JobValue
  | json (.str value) =>
    match Str.text? value with
    | some text => .ok (bytes (utf8 text))
    | none => .error .unicodeEncodeError
  | value => .ok value

/-- `base64.b64decode`. -/
def b64decode : JobValue → Except JobError JobValue
  | json (.str value) =>
    match Str.text? value with
    | some text =>
      if text.all fun char => char.toNat < 128 then
        (Base64.decode (utf8 text)).elim (.error .valueError) fun decoded => .ok (bytes decoded)
      else .error .valueError
    | none => .error .valueError
  | bytes value => (Base64.decode value).elim (.error .valueError) fun decoded => .ok (bytes decoded)
  | json _ => .error .typeError

/-- What a loop over the value goes through. -/
def elements : JobValue → Except JobError (List Json)
  | json (.list values) => .ok values
  | json (.str value) => .ok (value.map fun point => .str [point])
  | json (.dict items) => .ok (items.map fun item => .str item.1)
  | bytes value => .ok (value.map fun byte => .int byte.toNat)
  | json _ => .error .typeError

end JobValue

inductive JobKey where
  | jobid
  | branch
  | baserev
  | patchLevel
  | patchBody
  | patchBodyBase64
  | repository
  | project
  | who
  | comment
  | builderNames
  | properties
  deriving DecidableEq

def JobKey.name : JobKey → Str
  | jobid => Str.literal "jobid"
  | branch => Str.literal "branch"
  | baserev => Str.literal "baserev"
  | patchLevel => Str.literal "patch_level"
  | patchBody => Str.literal "patch_body"
  | patchBodyBase64 => Str.literal "patch_body_base64"
  | repository => Str.literal "repository"
  | project => Str.literal "project"
  | who => Str.literal "who"
  | comment => Str.literal "comment"
  | builderNames => Str.literal "builderNames"
  | properties => Str.literal "properties"

theorem JobKey.name_injective : Function.Injective JobKey.name := by
  let all : List JobKey := [jobid, branch, baserev, patchLevel, patchBody, patchBodyBase64, repository, project, who,
    comment, builderNames, properties]
  have complete (key : JobKey) : key ∈ all := by cases key <;> decide
  have different : (all.map JobKey.name).Nodup := by decide
  intro left right same
  exact List.inj_on_of_nodup_map different (complete left) (complete right) same

@[simp]
theorem JobKey.name_inj {left right : JobKey} : left.name = right.name ↔ left = right := JobKey.name_injective.eq_iff

abbrev Job := Dict Str JobValue

namespace Job

/-- `parsed_job[key]`. -/
def getItem (parsedJob : Job) (key : JobKey) : Except JobError JobValue :=
  (parsedJob.get key.name).elim (.error (.keyError key.name)) .ok

def ofJson : Json → Except JobError Job
  | .dict items => .ok (.ofItems (items.map fun item => (item.1, .json item.2)))
  -- nothing else takes a text as a subscript
  | _ => .error .typeError

/-- `value or None`. -/
def orNone (value : JobValue) : JobValue := if value.truthy then value else .json .null

end Job

inductive JsonError where
  | valueError
  | recursionError
  deriving DecidableEq

/-- The libraries that files are read with. -/
structure JobReaders where
  characters : CharacterDatabase
  /-- `NetstringReceiver.MAX_LENGTH`. -/
  maxLength : Nat
  /-- The netstrings a `NetstringReceiver` finds, or nothing where it gives up. -/
  netstrings : List UInt8 → Option (List (List UInt8))
  loads : Text → Except JsonError Json

/-- A file that was opened for bytes, or for text in UTF-8. -/
structure JobFile where
  contents : List UInt8
  isText : Bool

def universalNewlines : Text → Text
  | '\r' :: '\n' :: rest => '\n' :: universalNewlines rest
  | '\r' :: rest => '\n' :: universalNewlines rest
  | char :: rest => char :: universalNewlines rest
  | [] => []

/-- `f.read()`, as the bytes it is fed as. -/
def JobFile.read (file : JobFile) : Except JobError (List UInt8) :=
  if file.isText then
    match decodeUtf8 file.contents with
    | some text => .ok (utf8 (universalNewlines text))
    | none => .error .unicodeDecodeError
  else .ok file.contents

/-- `left <= right`, by code points. -/
def atMost : Text → Text → Bool
  | [], _ => true
  | _ :: _, [] => false
  | left :: lefts, right :: rights => left.toNat < right.toNat || left == right && atMost lefts rights

namespace TryJobdir

open Job

variable (readers : JobReaders)

def v1Keys : List JobKey := [.jobid, .branch, .baserev, .patchLevel, .patchBody]

def v2Keys : List JobKey := v1Keys ++ [.repository, .project]

def v3Keys : List JobKey := v2Keys ++ [.who]

def v4Keys : List JobKey := v3Keys ++ [.comment]

/-- `keys[i]`. -/
def keysAt (i : Int) : Option (List JobKey) :=
  if 0 ≤ i then [v1Keys, v2Keys, v3Keys, v4Keys][i.toNat]?
  else if -4 ≤ i then [v1Keys, v2Keys, v3Keys, v4Keys][(i + 4).toNat]?
  else none

def decodeText (bytes : List UInt8) : Except JobError Text := (decodeUtf8 bytes).elim (.error .unicodeDecodeError) .ok

def extractNetstrings : List JobKey → List (List UInt8) → Job → Except JobError Job
  | [], _, parsedJob => .ok parsedJob
  | _ :: _, [], _ => .error .indexError
  | .patchBody :: keys, string :: strings, parsedJob =>
    extractNetstrings keys strings (parsedJob.set JobKey.patchBody.name (.bytes string))
  | key :: keys, string :: strings, parsedJob => do
    let text ← decodeText string
    extractNetstrings keys strings (parsedJob.set key.name (.json (.str (Str.ofText text))))

/-- `parsed_job[key] = parsed_job.get(key, default)`. -/
def setDefault (key : JobKey) (value : Json) (parsedJob : Job) : Job :=
  parsedJob.set key.name ((parsedJob.get key.name).getD (.json value))

def postprocessParsedJob (parsedJob : Job) : Except JobError Job := do
  let branch ← getItem parsedJob .branch
  let parsedJob := parsedJob.set JobKey.branch.name (Job.orNone branch)
  let baserev ← getItem parsedJob .baserev
  let parsedJob := parsedJob.set JobKey.baserev.name (Job.orNone baserev)
  let level ← getItem parsedJob .patchLevel
  let patchLevel ← level.int readers.characters
  let parsedJob := parsedJob.set JobKey.patchLevel.name (.json (.int patchLevel))
  let parsedJob := [JobKey.repository, .project, .who, .comment].foldl
    (fun parsedJob key => setDefault key (.str []) parsedJob) parsedJob
  return setDefault .properties (.dict []) parsedJob

/-- The versions of bare netstrings. -/
def parseNetstrings (ver : Text) (strings : List (List UInt8)) : Except JobError Job := do
  let number ← (readers.characters.int ver).elim (.error .valueError) .ok
  let keys ← (keysAt (number - 1)).elim (.error .indexError) .ok
  let parsedJob ← extractNetstrings keys strings .empty
  let builderNames ← (strings.drop keys.length).mapM decodeText
  postprocessParsedJob readers
    (parsedJob.set JobKey.builderNames.name (.json (.list (builderNames.map fun name => .str (Str.ofText name)))))

/-- `except ValueError as e: raise BadJobfile("unable to parse JSON") from e`. -/
def orBadJobfile {α : Type} : Except JobError α → Except JobError α
  | .ok value => .ok value
  | .error error => .error (if error.isValueError then .badJobfile "unable to parse JSON" else error)

/-- What the second netstring has in JSON. -/
def loadJson (strings : List (List UInt8)) : Except JobError Json :=
  match strings with
  | [] => .error .indexError
  | string :: _ => do
    let data ← decodeText string
    match readers.loads data with
    | .ok value => .ok value
    | .error .valueError => .error .valueError
    | .error .recursionError => .error .recursionError

/-- The versions of JSON, which differ in how the patch is kept. -/
def parseJson (readPatch : Job → Except JobError Job) (strings : List (List UInt8)) : Except JobError Job := do
  let parsedJob ← orBadJobfile do readPatch (← Job.ofJson (← loadJson readers strings))
  postprocessParsedJob readers parsedJob

def readPatchBody (parsedJob : Job) : Except JobError Job := do
  let body ← getItem parsedJob .patchBody
  return parsedJob.set JobKey.patchBody.name (← body.unicode2bytes)

def readPatchBodyBase64 (parsedJob : Job) : Except JobError Job := do
  let body ← getItem parsedJob .patchBodyBase64
  return (parsedJob.set JobKey.patchBody.name (← body.b64decode)).erase JobKey.patchBodyBase64.name

def parseV5 : List (List UInt8) → Except JobError Job := parseJson readers readPatchBody

def parseV6 : List (List UInt8) → Except JobError Job := parseJson readers readPatchBodyBase64

def parseJob (file : JobFile) : Except JobError Job := do
  if readers.maxLength < file.contents.length then
    .error (.badJobfile ("The patch size is greater that NetStringReceiver.MAX_LENGTH. " ++
      "Please Set this higher in the master.cfg"))
  else
    let data ← file.read
    match readers.netstrings data with
    | none => .error (.badJobfile "unable to parse netstrings")
    | some [] => .error (.badJobfile "could not find any complete netstrings")
    | some (first :: strings) =>
      let ver ← decodeText first
      if atMost ver ['4'] then parseNetstrings readers ver strings
      else if ver = ['5'] then parseV5 readers strings
      else if ver = ['6'] then parseV6 readers strings
      else .error (.badJobfile ("unknown version '" ++ String.ofList ver ++ "'"))

/-- The `sourcestamp` of a try build. -/
structure TrySourceStamp where
  branch : JobValue
  revision : JobValue
  patchBody : JobValue
  patchLevel : JobValue
  patchAuthor : JobValue
  patchComment : JobValue
  project : JobValue
  repository : JobValue

/-- What `addBuildsetForSourceStamps` is called with. -/
structure Submission where
  sourcestamp : TrySourceStamp
  reason : Str
  externalIdstring : Option Str
  builderNames : JobValue
  properties : List (Str × Json)

/-- Whether a name is one of the configured ones. -/
def isConfigured (configured : List Str) : Json → Bool
  | .str name => name ∈ configured
  | _ => false

def filterBuilderList (configured : List Str) (builderNames : JobValue) : Except JobError JobValue := do
  if builderNames.truthy then
    let names ← builderNames.elements
    if names.all (isConfigured configured) then return builderNames else return .json (.list [])
  else return .json (.list (configured.map .str))

/-- `properties.items()`. -/
def propertyItems : JobValue → Except JobError (List (Str × Json))
  | .json (.dict items) => .ok items
  | _ => .error .attributeError

def textOr (value : JobValue) : JobValue := if value.truthy then value else .json (.str [])

def tryReason (who : JobValue) : Except JobError Str :=
  if who.truthy then do return Str.literal "'try' job by user " ++ (← who.bytes2unicode).getD (Str.literal "None")
  else return Str.literal "'try' job"

/-- What follows the choice of builders. -/
def submission (parsedJob : Job) (builderNames : JobValue) : Except JobError Submission := do
  let who ← getItem parsedJob .who
  let comment ← getItem parsedJob .comment
  let sourcestamp : TrySourceStamp := {
    branch := ← getItem parsedJob .branch
    revision := ← getItem parsedJob .baserev
    patchBody := ← getItem parsedJob .patchBody
    patchLevel := ← getItem parsedJob .patchLevel
    patchAuthor := textOr who
    patchComment := textOr comment
    project := ← getItem parsedJob .project
    repository := ← getItem parsedJob .repository }
  let reason ← tryReason who
  let properties ← propertyItems (← getItem parsedJob .properties)
  let externalIdstring ← (← getItem parsedJob .jobid).bytes2unicode
  return { sourcestamp, reason, externalIdstring, builderNames, properties }

/-- What is submitted, if anything is. -/
def submit (configured : List Str) (parsedJob : Job) : Except JobError (Option Submission) := do
  let builderNames ← filterBuilderList configured (← getItem parsedJob .builderNames)
  if builderNames.truthy then return some (← submission parsedJob builderNames)
  else return none

def handleJobFile (configured : List Str) (file : JobFile) : Except JobError (Option Submission) :=
  match parseJob readers file with
  | .ok parsedJob => submit configured parsedJob
  -- it is logged
  | .error (.badJobfile _) => .ok none
  | .error error => .error error

end TryJobdir

end Umbilical.Schedulers
