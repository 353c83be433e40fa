import Umbilical.Logs.Pieces
import Umbilical.Logs.StreamLog
import Umbilical.Process.Secrets
import Umbilical.Shared.Keyed

set_option autoImplicit false

/-!
# The output of remote commands

Pieces of text come in through `remote_update`; whole lines of them go to the logs and to what is
collected, and `remote_complete` passes on what was kept back.
-/

namespace Umbilical.Process

open Python Lines Logs

inductive Stream where
  | stdout
  | stderr
  | header
  deriving DecidableEq

/-- The key of its updates. -/
def Stream.key : Stream → String
  | stdout => "stdout"
  | stderr => "stderr"
  | header => "header"

/-- What marks its lines in a log. -/
def Stream.mark : Stream → Char
  | stdout => 'o'
  | stderr => 'e'
  | header => 'h'

/-- Where text comes from: a stream, or what goes to a log with a name of its own. -/
inductive Origin where
  | stream (stream : Stream)
  | log (logname : String)
  deriving DecidableEq

/-- The name of the line boundary finder. -/
def Origin.name : Origin → String
  | stream origin => origin.key
  | log logname => logname

/-- What the text of a line boundary finder is taken to be in the end. -/
def Origin.ofName (name : String) : Origin :=
  if name = "stdout" then stream .stdout
  else if name = "stderr" then stream .stderr
  else if name = "header" then stream .header
  else log name

structure Update where
  origin : Origin
  data : Text
  deriving DecidableEq

structure RemoteCommand where
  collectStdout : Bool
  collectStderr : Bool
  stdioLogName : Option String
  /-- What each log contains. -/
  logs : String → Option Text
  lineBoundaryFinders : List (String × LineBoundaryFinder)
  stdout : Text
  stderr : Text

namespace RemoteCommand

variable (used : UsedSecrets) (command : RemoteCommand)

/-- What a call leaves, and whether it raises. -/
abbrev Outcome := RemoteCommand × Bool

/-- `self.logs[name].add_stdout_lines(data)` and the like, where there is the log. -/
def addLines (name : String) (mark : Char) (data : Text) : Outcome :=
  match command.logs name with
  | none => (command, false)
  | some content =>
    match onWholeLines mark data content with
    | none => (command, true)
    | some content => ({ command with logs := Function.update command.logs name (some content) }, false)

def addStdioLines (mark : Char) (data : Text) : Outcome :=
  match command.stdioLogName with
  | none => (command, false)
  | some name => command.addLines name mark data

def addStdoutLines (data : Text) (isFlushed : Bool) : Outcome :=
  if command.collectStdout then
    let data := if isFlushed then data.dropLast else data
    { command with stdout := command.stdout ++ data }.addStdioLines Stream.stdout.mark data
  else command.addStdioLines Stream.stdout.mark data

def addStderrLines (data : Text) (isFlushed : Bool) : Outcome :=
  if command.collectStderr then
    let data := if isFlushed then data.dropLast else data
    { command with stderr := command.stderr ++ data }.addStdioLines Stream.stderr.mark data
  else command.addStdioLines Stream.stderr.mark data

def addHeaderLines (data : Text) : Outcome := command.addStdioLines Stream.header.mark data

def addToLog (logname : String) (data : Text) : Outcome := command.addLines logname Stream.stdout.mark data

def remoteUpdate (origin : Origin) (data : Text) (isFlushed : Bool) : Outcome :=
  match origin with
  | .stream .stdout => command.addStdoutLines (used.cleanupTextFromSecrets data) isFlushed
  | .stream .stderr => command.addStderrLines (used.cleanupTextFromSecrets data) isFlushed
  | .stream .header => command.addHeaderLines (used.cleanupTextFromSecrets data)
  | .log logname => command.addToLog logname (used.cleanupTextFromSecrets data)

def finder (name : String) : LineBoundaryFinder :=
  match Keyed.lookup Prod.fst command.lineBoundaryFinders name with
  | some entry => entry.2
  | none => ⟨none⟩

/-- Assignment to a key of the dictionary. -/
def setFinder (name : String) (finder : LineBoundaryFinder) : RemoteCommand :=
  { command with
    lineBoundaryFinders :=
      match Keyed.lookup Prod.fst command.lineBoundaryFinders name with
      | some _ => Keyed.revise Prod.fst (fun entry => (entry.1, finder)) name command.lineBoundaryFinders
      | none => command.lineBoundaryFinders ++ [(name, finder)] }

/-- One item of an update; what `remoteUpdate` raises here is not waited for. -/
def update (update : Update) : RemoteCommand :=
  let (finder, wholeLine) := (command.finder update.origin.name).append update.data
  match wholeLine with
  | none => command.setFinder update.origin.name finder
  | some line => ((command.setFinder update.origin.name finder).remoteUpdate used update.origin line false).1

/-- The loop of `remoteComplete`; what `flush` leaves of the finders is not used again. -/
def flushAll (command : RemoteCommand) : List (String × LineBoundaryFinder) → Outcome
  | [] => (command, false)
  | (name, finder) :: rest =>
    match finder.flush.2 with
    | none => flushAll command rest
    | some line =>
      match command.remoteUpdate used (Origin.ofName name) line true with
      | (command, true) => (command, true)
      | (command, false) => flushAll command rest

/-- `remoteComplete` without a failure. -/
def remoteComplete : Outcome := flushAll used command command.lineBoundaryFinders

def updates (command : RemoteCommand) (all : List Update) : RemoteCommand := all.foldl (update used) command

/-- A command that uses these logs. -/
def start (collectStdout collectStderr : Bool) (stdioLogName : Option String) (lognames : List String) :
    RemoteCommand where
  collectStdout := collectStdout
  collectStderr := collectStderr
  stdioLogName := stdioLogName
  logs name := if name ∈ lognames then some [] else none
  lineBoundaryFinders := []
  stdout := []
  stderr := []

end RemoteCommand

end Umbilical.Process
