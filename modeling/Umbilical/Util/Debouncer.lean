import Umbilical.Shared.Interleaving

set_option autoImplicit false

/-!
# The debouncer

The debounced function and the callbacks of the deferreds that `stop` returns may call, start
and stop the debouncer themselves, so a state has the Python frames that wait for them.
-/

namespace Umbilical.Util

inductive Phase where
  | PH_IDLE
  | PH_WAITING
  | PH_RUNNING
  | PH_RUNNING_QUEUED
  deriving DecidableEq

def Phase.running : Phase → Bool
  | .PH_RUNNING | .PH_RUNNING_QUEUED => true
  | .PH_IDLE | .PH_WAITING => false

/-- A deferred that `stop` returns. The run it waits for is the one in progress, or the next one if that was queued
already when `stop` was called. -/
structure Stop where
  id : Nat
  runs : Nat
  deriving DecidableEq

/-- The frames of the debouncer that wait for other code, the innermost first. -/
inductive Frame where
  | function (run : Nat)
  -- `stop` has called `invoke`
  | stopping (stop : Stop)
  -- the loop of `retry`, and how many invocations had begun before it
  | firing (queued : Bool) (runs : Nat)
  deriving DecidableEq

structure Debouncer where
  until_idle : Bool
  phase : Phase
  stopped : Bool
  timer : Bool
  completeDeferreds : List Stop
  runs : Nat
  awaiting : List Nat
  stops : Nat
  stack : List Frame
  deriving DecidableEq

namespace Debouncer

/-- What can be seen of a run. Only calls that are not ignored count. -/
inductive Action where
  | called
  | began (run : Nat)
  | completed (run : Nat)
  | asked (id : Nat)
  | fired (id : Nat)
  -- a timer that is not active cannot be reset or cancelled
  | raised
  deriving DecidableEq

def init (until_idle : Bool) : Debouncer where
  until_idle := until_idle
  phase := .PH_IDLE
  stopped := false
  timer := false
  completeDeferreds := []
  runs := 0
  awaiting := []
  stops := 0
  stack := []

/-- `__call__`, as far as it is not ignored. -/
def schedule (self : Debouncer) : Debouncer × List Action :=
  match self.phase with
  | .PH_IDLE => ({ self with timer := true, phase := .PH_WAITING }, [])
  | .PH_WAITING => (self, if self.until_idle && !self.timer then [.raised] else [])
  | .PH_RUNNING => ({ self with phase := .PH_RUNNING_QUEUED }, [])
  | .PH_RUNNING_QUEUED => (self, [])

def call (self : Debouncer) : Debouncer × List Action :=
  if self.stopped then (self, []) else (self.schedule.1, .called :: self.schedule.2)

/-- `invoke`, up to the call of the function. -/
def invoke (self : Debouncer) : Debouncer × List Action :=
  ({ self with phase := .PH_RUNNING, runs := self.runs + 1, stack := .function self.runs :: self.stack },
    [.began self.runs])

def start (self : Debouncer) : Debouncer := { self with stopped := false }

/-- `stop` after the part about `PH_WAITING`. -/
def finish (self : Debouncer) (stop : Stop) : Debouncer × List Action :=
  if self.phase.running then ({ self with completeDeferreds := self.completeDeferreds ++ [stop] }, [])
  else (self, [.fired stop.id])

def stop (self : Debouncer) : Debouncer × List Action :=
  let id := self.stops
  let self := { self with stopped := true, stops := id + 1 }
  match self.phase with
  | .PH_WAITING =>
      if self.timer then
        let (self, actions) := { self with timer := false, stack := .stopping ⟨id, self.runs + 1⟩ :: self.stack }.invoke
        (self, .asked id :: actions)
      else (self, [.asked id, .raised])
  | phase =>
      let runs := if phase = .PH_RUNNING_QUEUED then self.runs + 1 else self.runs
      let (self, actions) := self.finish ⟨id, runs⟩
      (self, .asked id :: actions)

/-- A frame has returned to the one that called it. -/
def resume (self : Debouncer) : Debouncer × List Action :=
  match self.stack with
  | .stopping stop :: outer => { self with stack := outer }.finish stop
  | _ => (self, [])

/-- `retry`, up to its loop. -/
def retry (self : Debouncer) : Debouncer × List Action :=
  let queued := self.phase = .PH_RUNNING_QUEUED
  let self := { self with phase := .PH_IDLE }
  if queued ∧ self.stopped then self.invoke
  else ({ self with stack := .firing queued self.runs :: self.stack }, [])

/-- The function returns: a result, a failure or a deferred that has fired, or else a deferred that has not. -/
def returns (self : Debouncer) (done : Bool) : Debouncer × List Action :=
  match self.stack with
  | .function run :: outer =>
      let self := { self with stack := outer }
      if done then (self.retry.1, .completed run :: self.retry.2)
      else { self with awaiting := self.awaiting ++ [run] }.resume
  | _ => (self, [])

/-- The deferred of an invocation fires. -/
def complete (self : Debouncer) (run : Nat) : Debouncer × List Action :=
  if run ∈ self.awaiting then
    let self := { self with awaiting := self.awaiting.erase run }
    (self.retry.1, .completed run :: self.retry.2)
  else (self, [])

/-- The innermost loop of `retry` goes on, or ends. -/
def fire (self : Debouncer) : Debouncer × List Action :=
  match self.stack, self.completeDeferreds with
  | .firing _ _ :: _, stop :: rest => ({ self with completeDeferreds := rest }, [.fired stop.id])
  | .firing queued _ :: outer, [] =>
      let self := { self with stack := outer }
      let (self, actions) := if queued && !self.stopped then self.schedule else (self, [])
      (self.resume.1, actions ++ self.resume.2)
  | _, _ => (self, [])

inductive Event where
  | call
  | start
  | stop
  | timer
  | returns (done : Bool)
  | complete (run : Nat)
  | fire
  deriving DecidableEq

def step (self : Debouncer) : Event → Debouncer × List Action
  | .call => self.call
  | .start => (self.start, [])
  | .stop => self.stop
  | .timer =>
      -- the reactor calls `invoke` when no other code runs
      if self.timer ∧ self.stack = [] then { self with timer := false }.invoke else (self, [])
  | .returns done => self.returns done
  | .complete run => self.complete run
  | .fire => self.fire

end Debouncer

end Umbilical.Util
