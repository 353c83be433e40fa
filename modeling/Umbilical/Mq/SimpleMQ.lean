import Mathlib.Data.List.Basic
import Mathlib.Logic.Function.Basic
import Umbilical.Shared.Interleaving

set_option autoImplicit false

/-!
# The in-process message queue

`SimpleMQ` calls the consumers synchronously, so a callback runs while the loop that
called it is still in progress. The loops in progress form a stack, and user code
runs above it: at the top level, or as the callback that the topmost loop waits for.
-/

namespace Umbilical.Mq

variable {κ γ δ : Type} [DecidableEq κ]

def matchTuple (routingKey : List κ) (filter : List (Option κ)) : Bool :=
  if filter.length ≠ routingKey.length then false
  else (routingKey.zip filter).all fun pair =>
    match pair.2 with
    | none => true
    | some part => decide (part = pair.1)

/-- A message with the number of the call of `produce` that it is of, which only the statements read. -/
structure Message (κ δ : Type) where
  serial : Nat
  routingKey : List κ
  data : δ
  deriving DecidableEq

/-- A `QueueRef` or, where `persistent`, a `PersistentQueueRef`. After `stopConsuming` there is
no `callback`: it is `None` in the one, and in the other the method `addToQueue`. -/
structure QueueRef (κ γ δ : Type) where
  callback : Option γ
  filter : List (Option κ)
  persistent : Bool
  queue : List (Message κ δ)
  -- how many messages had been produced when it was made, for the statements
  since : Nat
  deriving DecidableEq

def QueueRef.matches (qref : QueueRef κ γ δ) (message : Message κ δ) : Bool :=
  matchTuple message.routingKey qref.filter

structure SimpleMQ (κ γ δ : Type) where
  -- the reference objects by identity, in the order in which they were made
  refs : Nat → QueueRef κ γ δ
  created : Nat
  qrefs : List Nat
  persistent_qrefs : List (String × Nat)

/-- A loop in progress: of `produce`, with the position of the list iterator over the live
list `qrefs`, or of `PersistentQueueRef.startConsuming`, with the messages it has not come to. -/
inductive Frame (κ δ : Type) where
  | produce (message : Message κ δ) (next : Nat)
  | startConsuming (qref : Nat) (missed : List (Message κ δ))
  deriving DecidableEq

structure World (κ γ δ : Type) where
  mq : SimpleMQ κ γ δ
  stack : List (Frame κ δ)
  -- user code has the control, and not the topmost loop
  running : Bool
  produced : Nat

/-- What user code does while it has the control, and the next step of the topmost loop. A callback
that raises returns as well, since `invoke` logs the exception. -/
inductive Event (κ γ δ : Type) where
  | produce (routingKey : List κ) (data : δ)
  | startConsuming (callback : γ) (filter : List (Option κ)) (persistent_name : Option String)
  | stopConsuming (qref : Nat)
  | return
  | proceed

inductive Observation (κ γ δ : Type) where
  | produced (message : Message κ δ)
  | returned (message : Message κ δ)
  | stopped (qref : Nat)
  | invoked (message : Message κ δ) (qref : Nat) (callback : γ)
  deriving DecidableEq

namespace SimpleMQ

variable (mq : SimpleMQ κ γ δ)

def update (qref : Nat) (value : QueueRef κ γ δ) : SimpleMQ κ γ δ :=
  { mq with refs := Function.update mq.refs qref value }

/-- `self.qrefs.append` of a new reference. -/
def append (value : QueueRef κ γ δ) : SimpleMQ κ γ δ :=
  { mq with
    refs := Function.update mq.refs mq.created value
    created := mq.created + 1
    qrefs := mq.qrefs ++ [mq.created] }

def addToQueue (qref : Nat) (message : Message κ δ) : SimpleMQ κ γ δ :=
  mq.update qref { mq.refs qref with queue := (mq.refs qref).queue ++ [message] }

def stopConsuming (qref : Nat) : SimpleMQ κ γ δ :=
  let stopped := mq.update qref { mq.refs qref with callback := none }
  if (mq.refs qref).persistent then stopped
  else { stopped with qrefs := mq.qrefs.erase qref }

end SimpleMQ

namespace World

def start : World κ γ δ where
  mq := { refs := fun _ => ⟨none, [], false, [], 0⟩, created := 0, qrefs := [], persistent_qrefs := [] }
  stack := []
  running := true
  produced := 0

variable (world : World κ γ δ)

def invoke (qref : Nat) (message : Message κ δ) : World κ γ δ × List (Observation κ γ δ) :=
  match (world.mq.refs qref).callback with
  | some callback => ({ world with running := true }, [.invoked message qref callback])
  | none =>
      if (world.mq.refs qref).persistent then ({ world with mq := world.mq.addToQueue qref message }, [])
      else (world, [])

def produce (routingKey : List κ) (data : δ) : World κ γ δ × List (Observation κ γ δ) :=
  let message := ⟨world.produced, routingKey, data⟩
  ({ world with
      stack := .produce message 0 :: world.stack
      running := false
      produced := world.produced + 1 }, [.produced message])

/-- `PersistentQueueRef.startConsuming`: the queue is taken, and the loop over it starts. -/
def restart (qref : Nat) (callback : γ) : World κ γ δ :=
  let value := world.mq.refs qref
  { world with
    mq := world.mq.update qref { value with callback := some callback, queue := [] }
    stack := .startConsuming qref value.queue :: world.stack
    running := false }

def subscribe (callback : γ) (filter : List (Option κ)) (persistent : Bool) : World κ γ δ :=
  { world with mq := world.mq.append ⟨some callback, filter, persistent, [], world.produced⟩ }

def startConsuming (isinstance : κ → Bool) (callback : γ) (filter : List (Option κ))
    (persistent_name : Option String) : World κ γ δ :=
  -- the AssertionError that the caller gets
  if filter.any (fun part => part.any fun k => !isinstance k) then world
  else
    match persistent_name with
    | none => world.subscribe callback filter false
    | some name =>
        if name = "" then world.subscribe callback filter false
        else
          match world.mq.persistent_qrefs.lookup name with
          | some qref => world.restart qref callback
          | none =>
              let subscribed := world.subscribe callback filter true
              { subscribed with mq := { subscribed.mq with
                persistent_qrefs := (name, world.mq.created) :: world.mq.persistent_qrefs } }

/-- The `for` statement of the topmost loop. -/
def proceed : World κ γ δ × List (Observation κ γ δ) :=
  match world.stack with
  | [] => (world, [])
  | .produce message next :: below =>
      match world.mq.qrefs[next]? with
      | none => ({ world with stack := below, running := true }, [.returned message])
      | some qref =>
          let later := { world with stack := .produce message (next + 1) :: below }
          if (world.mq.refs qref).matches message then later.invoke qref message else (later, [])
  | .startConsuming _ [] :: below => ({ world with stack := below, running := true }, [])
  | .startConsuming qref (message :: missed) :: below =>
      { world with stack := .startConsuming qref missed :: below }.invoke qref message

def step (isinstance : κ → Bool) : Event κ γ δ → World κ γ δ × List (Observation κ γ δ)
  | .proceed => if world.running then (world, []) else world.proceed
  | .produce routingKey data => if world.running then world.produce routingKey data else (world, [])
  | .startConsuming callback filter persistent_name =>
      (if world.running then world.startConsuming isinstance callback filter persistent_name else world, [])
  | .stopConsuming qref =>
      if world.running ∧ qref < world.mq.created then
        ({ world with mq := world.mq.stopConsuming qref }, [.stopped qref])
      else (world, [])
  | .return => ({ world with running := world.running && world.stack.isEmpty }, [])

end World

end Umbilical.Mq
