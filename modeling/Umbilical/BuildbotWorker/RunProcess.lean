import Umbilical.Python.Text
import Umbilical.Shared.Interleaving
import Umbilical.Shared.Reactor

set_option autoImplicit false

/-!
# A command of the worker

The command from the start of its process on: what the process writes, the four timers, the
calls of `kill` and the end of the process.
-/

namespace Umbilical.BuildbotWorker

open Umbilical.Interleaving Umbilical.Python

inductive Platform where
  | posix
  | win32
  | other
  deriving DecidableEq

inductive Timer where
  | ioTimeoutTimer
  | killTimer
  | maxTimeoutTimer
  | sigtermTimer
  deriving DecidableEq

inductive JobObject where
  | absent
  | opened
  | closed
  deriving DecidableEq

inductive Signalled where
  | sent
  | OSError
  | ProcessExitedAlready
  -- the reactor does not know the signal
  | TypeError
  deriving DecidableEq

/-- What the operating system answers to a call. -/
structure Answers where
  -- some process of the group is alive
  group : Bool
  -- `process.pid` is not `None`
  pid : Bool
  -- `os.kill(pid, 0)` does not fail
  alive : Bool
  -- `os.killpg` does not fail
  killpg : Bool
  signalProcess : Signalled

/-- What the command is made with. -/
structure Command (τ : Type) where
  platformType : Platform
  fake_command : String
  -- the names that `signal` has
  signals : String → Bool
  interruptSignal : String
  timeout : Option τ
  maxTime : Option τ
  max_lines : Option Nat
  sigtermTime : Option τ
  sendStdout : Bool
  sendStderr : Bool
  sendRC : Bool
  initialStdin : Bool
  usePTY : Bool
  useProcGroup : Bool
  -- the text of the time since the start
  elapsedTime : τ → String

namespace Command

variable {τ : Type} (command : Command τ)

/-- `useProcGroup`, as `__init__` leaves it. -/
def procGroup : Bool :=
  let usePTY := command.usePTY && command.platformType = .posix && !command.initialStdin
  command.platformType = .posix && (usePTY || command.useProcGroup)

end Command

inductive Update where
  | stdout (data : Text)
  | stderr (data : Text)
  | log (name : String) (data : Text)
  | header (text : String)
  | failure_reason (reason : String)
  | rc (rc : Option Int)
  deriving DecidableEq

/-- What can be seen of a run. -/
inductive Action where
  | send_update (update : Update)
  -- `kill` is called from outside
  | requested
  | kill
  | killpg (signal : String)
  | signalProcess (signal : String)
  | taskkill (signal : String)
  | ended
  -- the time that a TERM is given is up, and whether the group is alive
  | expired (group : Bool)
  -- the time that an interrupt is given is up
  | abandoned
  | callback (rc : Option Int)
  | errback (why : String)
  deriving DecidableEq

structure RunProcess (τ : Type) where
  reactor : Reactor τ Timer
  timers : Timer → Option Nat
  -- whether `deferred` is set
  deferred : Bool
  line_count : Nat
  max_line_kill : Bool
  -- `pp.killed`
  killed : Bool
  -- `process.pgid`
  pgid : Option Nat
  job_object : JobObject
  -- whether `kill` was called from outside since the deferred fired
  requested : Bool

/-- What a call leaves, shows and raises. -/
structure Outcome (τ : Type) where
  self : RunProcess τ
  actions : List Action
  raised : Bool

namespace Outcome

variable {τ : Type}

def of (self : RunProcess τ) (actions : List Action) : Outcome τ := ⟨self, actions, false⟩

/-- What follows is left out when an exception is raised. -/
def andThen (first : Outcome τ) (next : RunProcess τ → Outcome τ) : Outcome τ :=
  if first.raised then first
  else ⟨(next first.self).self, first.actions ++ (next first.self).actions, (next first.self).raised⟩

end Outcome

/-- How often `\r\n|\r|\n` is found. -/
def lineEnds : Text → Nat
  | [] => 0
  | '\r' :: '\n' :: rest => lineEnds rest + 1
  | '\r' :: rest => lineEnds rest + 1
  | '\n' :: rest => lineEnds rest + 1
  | _ :: rest => lineEnds rest

namespace RunProcess

variable {τ : Type}

def send_update (self : RunProcess τ) (update : Update) : Outcome τ := .of self [.send_update update]

def cancelTimer (self : RunProcess τ) (timer : Timer) : Outcome τ :=
  match self.timers timer with
  | none => .of self []
  | some id =>
      match self.reactor.cancel id with
      | none => ⟨self, [], true⟩
      | some reactor => .of { self with reactor := reactor, timers := Function.update self.timers timer none } []

def cancelTimers (self : RunProcess τ) : Outcome τ :=
  [.ioTimeoutTimer, .killTimer, .maxTimeoutTimer, .sigtermTimer].foldl
    (fun outcome timer => outcome.andThen (·.cancelTimer timer)) (.of self [])

section Signals

variable (command : Command τ) (answers : Answers) (self : RunProcess τ) (interruptSignal : String)

/-- `process.signalProcess`, in `sendSig`. -/
def signalProcess : Outcome τ :=
  match answers.signalProcess with
  | .sent => .of self [.signalProcess interruptSignal]
  | .OSError | .ProcessExitedAlready => .of self []
  | .TypeError => ⟨self, [], true⟩

def win32_taskkill : Outcome τ :=
  match self.job_object with
  -- `pr_info` is not bound
  | .absent => ⟨self, [], true⟩
  | .opened => .of self (if answers.pid then [.taskkill interruptSignal] else [])
  -- the query of the job fails
  | .closed => .of self []

/-- What it returns is logged only. -/
def sendSig : Outcome τ :=
  if command.procGroup then
    if command.signals ("SIG" ++ interruptSignal) && self.pgid.isSome && answers.killpg then
      .of { self with pgid := none } [.killpg interruptSignal]
    else self.signalProcess answers interruptSignal
  else if command.platformType = .win32 && (answers.pid || self.job_object ≠ .absent) &&
      (interruptSignal = "TERM" || interruptSignal = "KILL") then
    self.win32_taskkill answers interruptSignal
  else self.signalProcess answers interruptSignal

end Signals

def callback (self : RunProcess τ) (action : Action) : Outcome τ :=
  -- if the deferred is gone, the command has finished twice
  .of { self with deferred := false } (if self.deferred then [action] else [])

def failed (self : RunProcess τ) (why : String) : Outcome τ :=
  self.cancelTimers.andThen fun self => self.callback (.errback why)

section Times

variable [Add τ]

def callLater (self : RunProcess τ) (seconds : τ) (timer : Timer) : RunProcess τ :=
  let (reactor, id) := self.reactor.callLater seconds timer
  { self with reactor := reactor, timers := Function.update self.timers timer (some id) }

/-- A timeout of `0` is none. -/
def truthy [OfNat τ 0] [DecidableEq τ] (seconds : Option τ) : Option τ := seconds.filter (· ≠ 0)

/-- After `_startCommand`. -/
def started [OfNat τ 0] [DecidableEq τ] (command : Command τ) (seconds : τ) (pid : Nat) (job_object : JobObject) :
    RunProcess τ :=
  let self : RunProcess τ :=
    { reactor := Reactor.init seconds
      timers := fun _ => none
      deferred := true
      line_count := 0
      max_line_kill := false
      killed := false
      pgid := if command.procGroup then some pid else none
      job_object := job_object
      requested := false }
  let self := match truthy command.timeout with
    | none => self
    | some timeout => self.callLater timeout .ioTimeoutTimer
  match truthy command.maxTime with
  | none => self
  | some maxTime => self.callLater maxTime .maxTimeoutTimer

variable [OfNat τ 5]

def BACKUP_TIMEOUT : τ := 5

def cleanUp (command : Command τ) (self : RunProcess τ) : Outcome τ :=
  let closed : Outcome τ :=
    match command.platformType, self.job_object with
    | .win32, .opened => .of { self with job_object := .closed } []
    -- its handle is not valid any more
    | .win32, .closed => ⟨self, [], true⟩
    | _, _ => .of self []
  closed.andThen fun self => .of (if self.deferred then self.callLater BACKUP_TIMEOUT .killTimer else self) []

/-- The end of `kill`. -/
def interrupt (command : Command τ) (answers : Answers) (self : RunProcess τ) : Outcome τ :=
  match command.sigtermTime with
  | some sigtermTime =>
      (self.sendSig command answers "TERM").andThen fun self => .of (self.callLater sigtermTime .sigtermTimer) []
  | none => (self.sendSig command answers command.interruptSignal).andThen fun self => self.cleanUp command

def kill (command : Command τ) (answers : Answers) (self : RunProcess τ) (msg : String) : Outcome τ :=
  (Outcome.of self [.kill]).andThen fun self =>
  self.cancelTimers.andThen fun self =>
  (self.send_update (.header ("\n" ++ msg ++ ", attempting to kill" ++ "\n"))).andThen fun self =>
  { self with killed := true }.interrupt command answers

def checkProcess (command : Command τ) (answers : Answers) (self : RunProcess τ) : Outcome τ :=
  (Outcome.of self [.expired answers.group]).andThen fun self =>
  (if answers.pid && answers.alive then self.sendSig command answers command.interruptSignal else .of self []).andThen
    fun self => self.cleanUp command

variable [ToString τ]

def seconds (time : Option τ) : String :=
  match time with
  | none => "None"
  | some time => toString time

def doTimeout (command : Command τ) (answers : Answers) (self : RunProcess τ) : Outcome τ :=
  (self.send_update (.failure_reason "timeout_without_output")).andThen fun self => self.kill command answers
    s!"command timed out: {seconds command.timeout} seconds without output running {command.fake_command}"

def doMaxTimeout (command : Command τ) (answers : Answers) (self : RunProcess τ) : Outcome τ :=
  (self.send_update (.failure_reason "timeout")).andThen fun self => self.kill command answers
    s!"command timed out: {seconds command.maxTime} seconds elapsed running {command.fake_command}"

def do_max_lines (command : Command τ) (answers : Answers) (self : RunProcess τ) (max_lines : Nat) : Outcome τ :=
  (self.send_update (.failure_reason "max_lines_failure")).andThen fun self => self.kill command answers
    s!"command exceeds max lines: {self.line_count}/{max_lines} written/allowed running {command.fake_command}"

def check_max_lines (command : Command τ) (answers : Answers) (self : RunProcess τ) (data : Text) : Outcome τ :=
  match command.max_lines with
  | none => .of self []
  | some max_lines =>
      let self := { self with line_count := self.line_count + lineEnds data }
      if self.line_count > max_lines && !self.max_line_kill then
        { self with max_line_kill := true }.do_max_lines command answers max_lines
      else .of self []

/-- The I/O timeout starts again. -/
def touch (command : Command τ) (self : RunProcess τ) : Outcome τ :=
  match self.timers .ioTimeoutTimer, command.timeout with
  | some id, some timeout =>
      match self.reactor.reset id timeout with
      | none => ⟨self, [], true⟩
      | some reactor => .of { self with reactor := reactor } []
  | _, _ => .of self []

/-- `addStdout` and `addStderr`. -/
def addOutput (command : Command τ) (answers : Answers) (sends : Bool) (update : Text → Update) (self : RunProcess τ)
    (data : Text) : Outcome τ :=
  (if sends then (self.check_max_lines command answers data).andThen fun self => self.send_update (update data)
    else .of self []).andThen fun self => self.touch command

def addStdout (command : Command τ) (answers : Answers) (self : RunProcess τ) (data : Text) : Outcome τ :=
  self.addOutput command answers command.sendStdout .stdout data

def addStderr (command : Command τ) (answers : Answers) (self : RunProcess τ) (data : Text) : Outcome τ :=
  self.addOutput command answers command.sendStderr .stderr data

def addLogfile (command : Command τ) (self : RunProcess τ) (name : String) (data : Text) : Outcome τ :=
  (self.send_update (.log name data)).andThen fun self => self.touch command

/-- The watchers send what is left, and may fail to read it. -/
def stopWatchers (command : Command τ) (self : RunProcess τ) (polls : List (String × Text)) (unreadable : Bool) : Outcome τ :=
  (polls.foldl (fun (outcome : Outcome τ) poll => outcome.andThen (·.addLogfile command poll.1 poll.2)) (.of self [])).andThen fun self =>
    ⟨self, [], unreadable⟩

/-- `finished`, once the watchers have stopped. -/
def complete (command : Command τ) (self : RunProcess τ) (sig : Option Nat) (rc : Option Int) : Outcome τ :=
  let rc := if sig.isSome then some (-1) else rc
  let killed : List Action := match sig with
    | some sig => [.send_update (.header s!"process killed by signal {sig}\n")]
    | none => []
  (Outcome.of self (if command.sendRC then killed ++ [.send_update (.rc rc)] else [])).andThen fun self =>
  (self.send_update (.header s!"elapsedTime={command.elapsedTime self.reactor.seconds}\n")).andThen fun self =>
  self.cancelTimers.andThen fun self => self.callback (.callback rc)

def finished (command : Command τ) (self : RunProcess τ) (sig : Option Nat) (rc : Option Int) (polls : List (String × Text))
    (unreadable : Bool) : Outcome τ :=
  (self.stopWatchers command polls unreadable).andThen fun self => self.complete command sig rc

/-- `RunProcessPP.processEnded`. -/
def processEnded (command : Command τ) (self : RunProcess τ) (sig : Option Nat) (rc : Option Int)
    (polls : List (String × Text)) (unreadable : Bool) : Outcome τ :=
  (Outcome.of self [.ended]).andThen fun self =>
  let rc := if self.killed && rc = some 0 then some (if command.platformType = .win32 then 1 else -1) else rc
  self.finished command sig rc polls unreadable

def doBackupTimeout (command : Command τ) (self : RunProcess τ) : Outcome τ :=
  let signalName := "SIG" ++ command.interruptSignal
  (Outcome.of self [.abandoned]).andThen fun self =>
  (self.send_update (.header (signalName ++ " failed to kill process\n"))).andThen fun self =>
  (Outcome.of self (if command.sendRC then
    [.send_update (.header "using fake rc=-1\n"), .send_update (.rc (some (-1)))] else [])).andThen fun self =>
  self.failed (signalName ++ " failed to kill process")

inductive Event (τ : Type) where
  | outReceived (data : Text) (answers : Answers)
  | errReceived (data : Text) (answers : Answers)
  | poll (name : String) (data : Text)
  | kill (msg : String) (answers : Answers)
  | advance (seconds : τ)
  | timeout (id : Nat) (answers : Answers)
  | processEnded (sig : Option Nat) (rc : Option Int) (polls : List (String × Text)) (unreadable : Bool)

/-- The reactor makes the call of a timer, which sets the field to `None` first. -/
def timedOut (command : Command τ) (answers : Answers) (self : RunProcess τ) (timer : Timer) : Outcome τ :=
  let self := { self with timers := Function.update self.timers timer none }
  match timer with
  | .ioTimeoutTimer => self.doTimeout command answers
  | .maxTimeoutTimer => self.doMaxTimeout command answers
  | .sigtermTimer => self.checkProcess command answers
  | .killTimer => self.doBackupTimeout command

def outcome [LinearOrder τ] (command : Command τ) (self : RunProcess τ) : Event τ → Outcome τ
  | .outReceived data answers => self.addStdout command answers data
  | .errReceived data answers => self.addStderr command answers data
  | .poll name data => self.addLogfile command name data
  | .kill msg answers =>
      (Outcome.of { self with requested := self.requested || !self.deferred } [.requested]).andThen fun self =>
        self.kill command answers msg
  | .advance seconds => .of { self with reactor := self.reactor.advance seconds } []
  | .timeout id answers =>
      match self.reactor.expire id with
      | none => .of self []
      | some (timer, reactor) => { self with reactor := reactor }.timedOut command answers timer
  | .processEnded sig rc polls unreadable => self.processEnded command sig rc polls unreadable

def step [LinearOrder τ] (command : Command τ) (self : RunProcess τ) (event : Event τ) : RunProcess τ × List Action :=
  ((self.outcome command event).self, (self.outcome command event).actions)

end Times

end RunProcess

end Umbilical.BuildbotWorker
