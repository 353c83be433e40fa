import Umbilical.Shared.Keyed

set_option autoImplicit false

/-!
# Locks

`BaseLock`, whose callers claim it, wait for it and are woken. A requester stands
for the `id` of the object that asks.
-/

namespace Umbilical.Locks

inductive LockId where
  | masterLock (name : String) (maxCount : Int)
  | workerLock (name : String) (maxCount : Int) (maxCountForWorkerList : List (String × Int))
  deriving DecidableEq

inductive Mode where
  | counting
  | exclusive
  deriving DecidableEq

structure LockAccess where
  lockid : LockId
  mode : Mode
  count : Int
  deriving DecidableEq

/-- What `LockAccess.__init__` asserts. -/
def LockAccess.Valid (access : LockAccess) : Prop :=
  match access.mode with
  | .exclusive => access.count = 1
  | .counting => 0 ≤ access.count

instance (access : LockAccess) : Decidable access.Valid := by
  unfold LockAccess.Valid
  cases access.mode <;> infer_instance

abbrev Deferred := Nat

/-- An entry of the queue, without its deferred once it has been woken. -/
structure Waiter (ρ : Type) where
  requester : ρ
  access : LockAccess
  deferred : Option Deferred
  deriving DecidableEq

structure BaseLock (ρ : Type) where
  waiting : List (Waiter ρ)
  owners : List (ρ × LockAccess)
  maxCount : Int
  claimedExcl : Int
  claimedCounting : Int
  deriving DecidableEq

/-- The assertions that callers can run into. -/
inductive Failure where
  | notAvailable
  | invalidAccess
  | ownersDisagree
  | stillPending
  | notWaiting
  | otherDeferred
  deriving DecidableEq

def Failure.message : Failure → String
  | .notAvailable => "ask for isAvailable() first"
  | .invalidAccess | .ownersDisagree => ""
  | .stillPending => "waitUntilMaybeAvailable() must not be called again before the previous deferred fired"
  | .notWaiting => "The owner was not waiting for the lock"
  | .otherDeferred => "The supplied deferred must be a result of waitUntilMaybeAvailable()"

namespace BaseLock

variable {ρ : Type} [DecidableEq ρ]

def new (maxCount : Int) : BaseLock ρ where
  waiting := []
  owners := []
  maxCount := maxCount
  claimedExcl := 0
  claimedCounting := 0

variable (lock : BaseLock ρ)

def findWaiting (requester : ρ) : Option Nat := lock.waiting.findIdx? fun waiter => waiter.requester = requester

def ahead (requester : ρ) : List (Waiter ρ) :=
  lock.waiting.take ((lock.findWaiting requester).getD lock.waiting.length)

def behind (requester : ρ) : List (Waiter ρ) :=
  match lock.findWaiting requester with
  | none => []
  | some index => lock.waiting.drop (index + 1)

def isAvailable (requester : ρ) (access : LockAccess) : Bool :=
  if access.count = 0 then true
  else match access.mode with
    | .counting =>
        lock.claimedExcl = 0 ∧
          lock.claimedCounting + (lock.ahead requester).length + access.count ≤ lock.maxCount ∧
          ∀ waiter ∈ lock.ahead requester, waiter.access.mode = .counting
    | .exclusive => lock.claimedExcl = 0 ∧ lock.claimedCounting = 0 ∧ lock.ahead requester = []

omit [DecidableEq ρ] in
def withOwner (owner : ρ) (access : LockAccess) : BaseLock ρ :=
  match access.mode with
  | .counting => { lock with
      owners := lock.owners ++ [(owner, access)]
      claimedCounting := lock.claimedCounting + access.count }
  | .exclusive => { lock with
      owners := lock.owners ++ [(owner, access)]
      claimedExcl := lock.claimedExcl + 1 }

def addOwner (owner : ρ) (access : LockAccess) : Except Failure (BaseLock ρ) :=
  let added := lock.withOwner owner access
  if (added.claimedExcl ≠ 0 ∧ added.claimedCounting = 0) ∨
      (added.claimedExcl = 0 ∧ added.claimedExcl ≤ added.maxCount) then .ok added
  else .error .ownersDisagree

def withoutOwner (owner : ρ) (access : LockAccess) : BaseLock ρ :=
  match access.mode with
  | .counting => { lock with
      owners := lock.owners.erase (owner, access)
      claimedCounting := lock.claimedCounting - access.count }
  | .exclusive => { lock with
      owners := lock.owners.erase (owner, access)
      claimedExcl := lock.claimedExcl - 1 }

/-- Nothing where the lock has been released already. -/
def removeOwner (owner : ρ) (access : LockAccess) : Option (BaseLock ρ) :=
  if (owner, access) ∈ lock.owners then some (lock.withoutOwner owner access) else none

/-- The queue without the entries of a requester. -/
def without (requester : ρ) : BaseLock ρ :=
  { lock with waiting := lock.waiting.filter fun waiter => waiter.requester ≠ requester }

def claim (owner : ρ) (access : LockAccess) : Except Failure (BaseLock ρ) :=
  if lock.isAvailable owner access = false then .error .notAvailable
  else if ¬ access.Valid then .error .invalidAccess
  else if access.count = 0 then .ok lock
  else (lock.without owner).addOwner owner access

omit [DecidableEq ρ] in
/-- Where the walk of the queue breaks off. -/
def Stops (numExcl numCounting : Int) (waiter : Waiter ρ) : Prop :=
  match waiter.access.mode with
  | .counting => numExcl > 0 ∨ numCounting ≥ lock.maxCount
  | .exclusive => numExcl > 0 ∨ numCounting > 0

instance (numExcl numCounting : Int) (waiter : Waiter ρ) : Decidable (lock.Stops numExcl numCounting waiter) := by
  unfold Stops
  cases waiter.access.mode <;> infer_instance

/-- The walk of `_tryWakeUp`: the queue after it, and the deferreds whose callbacks it schedules. -/
def wakeFrom : Int → Int → List (Waiter ρ) → List (Waiter ρ) × List Deferred
  | _, _, [] => ([], [])
  | numExcl, numCounting, waiter :: rest =>
      if lock.Stops numExcl numCounting waiter then (waiter :: rest, [])
      else
        let (rest', woken) := match waiter.access.mode with
          | .counting => wakeFrom numExcl (numCounting + waiter.access.count) rest
          | .exclusive => wakeFrom (numExcl + waiter.access.count) numCounting rest
        ({ waiter with deferred := none } :: rest', waiter.deferred.toList ++ woken)

def tryWakeUp : BaseLock ρ × List Deferred :=
  let (waiting, woken) := lock.wakeFrom lock.claimedExcl lock.claimedCounting lock.waiting
  ({ lock with waiting := waiting }, woken)

def setMaxCount (count : Int) : BaseLock ρ × List Deferred :=
  if count > lock.maxCount then { lock with maxCount := count }.tryWakeUp
  else ({ lock with maxCount := count }, [])

def release (owner : ρ) (access : LockAccess) : BaseLock ρ × List Deferred :=
  if access.count = 0 then (lock, [])
  else match lock.removeOwner owner access with
    | none => (lock, [])
    | some released => released.tryWakeUp

/-- The deferred of an entry of the queue. -/
def deferredAt (index : Nat) : Option Deferred := lock.waiting[index]?.bind Waiter.deferred

/-- With the deferred to be returned where the lock is not available, and whether it is. -/
def waitUntilMaybeAvailable (owner : ρ) (access : LockAccess) (d : Deferred) :
    Except Failure (BaseLock ρ × Bool) :=
  if lock.isAvailable owner access then .ok (lock, false)
  else match lock.findWaiting owner with
    | none => .ok ({ lock with waiting := lock.waiting ++ [⟨owner, access, some d⟩] }, true)
    | some index =>
        if (lock.deferredAt index).isSome then .error .stillPending
        else .ok ({ lock with waiting := lock.waiting.set index ⟨owner, access, some d⟩ }, true)

/-- With the deferreds whose callbacks it schedules. `none` in the first place stands for the callback of
`d` being called at once. -/
def stopWaitingUntilAvailable (owner : ρ) (_access : LockAccess) (d : Deferred) :
    Except Failure (BaseLock ρ × Option (List Deferred)) :=
  match lock.findWaiting owner with
  | none => .error .notWaiting
  | some index =>
      let left : BaseLock ρ := { lock with waiting := lock.waiting.eraseIdx index }
      match lock.deferredAt index with
      | some pending => if pending ≠ d then .error .otherDeferred else .ok (left, none)
      | none =>
          let (woken, scheduled) := left.tryWakeUp
          .ok (woken, some scheduled)

def isOwner (owner : ρ) (access : LockAccess) : Bool := (owner, access) ∈ lock.owners

end BaseLock

/-- A call of a public method that changes a lock. -/
inductive Use (ρ : Type) where
  | claim (owner : ρ) (access : LockAccess)
  | release (owner : ρ) (access : LockAccess)
  | waitUntilMaybeAvailable (owner : ρ) (access : LockAccess) (d : Deferred)
  | stopWaitingUntilAvailable (owner : ρ) (access : LockAccess) (d : Deferred)
  | setMaxCount (count : Int)

/-- The lock after a call. A call that runs into an assertion changes nothing. -/
def BaseLock.perform {ρ : Type} [DecidableEq ρ] (lock : BaseLock ρ) : Use ρ → BaseLock ρ
  | .claim owner access => (lock.claim owner access).toOption.getD lock
  | .release owner access => (lock.release owner access).1
  | .waitUntilMaybeAvailable owner access d =>
      ((lock.waitUntilMaybeAvailable owner access d).toOption.map Prod.fst).getD lock
  | .stopWaitingUntilAvailable owner access d =>
      ((lock.stopWaitingUntilAvailable owner access d).toOption.map Prod.fst).getD lock
  | .setMaxCount count => (lock.setMaxCount count).1

end Umbilical.Locks
