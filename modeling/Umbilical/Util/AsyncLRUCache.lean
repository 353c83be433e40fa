import Umbilical.Util.LRUCache

set_option autoImplicit false

/-!
# The asynchronous least-recently-used cache

Callers that miss wait for the call of `miss_fn` that is in progress for their key. The
loops that fire their deferreds run callbacks, which may do any of the other steps: the
innermost of these loops goes on first.
-/

namespace Umbilical.Util

open Dictionary
open LRUCache (Fetched)

variable {κ ν : Type} [DecidableEq κ] [DecidableEq ν]

inductive AsyncError where
  | AssertionError
  | KeyError
  | cache (error : LRUError)
  deriving DecidableEq

/-- What can be seen of a run. Deferreds and calls of `miss_fn` are counted. -/
inductive Action (κ ν : Type) where
  | stored (key : κ) (value : ν)
  | began (fetch : Nat) (key : κ)
  | ended (fetch : Nat) (key : κ) (result : Fetched ν)
  | requested (d : Nat) (key : κ)
  | fired (d : Nat) (result : Fetched ν)
  | raised (error : AsyncError)
  deriving DecidableEq

structure AsyncLRUCache (κ ν : Type) where
  lru : LRUCache κ ν
  concurrent : List (κ × List Nat)
  deferreds : Nat
  calls : Nat
  fetches : List (Nat × κ)
  firing : List (Fetched ν × List Nat)

namespace AsyncLRUCache

def init (max_size : Nat) : AsyncLRUCache κ ν where
  lru := LRUCache.init max_size
  concurrent := []
  deferreds := 0
  calls := 0
  fetches := []
  firing := []

/-- `concurrent.get(key)`. -/
def waiters (concurrent : List (κ × List Nat)) (key : κ) : Option (List Nat) :=
  (Keyed.lookup Prod.fst concurrent key).map Prod.snd

def begin (self : AsyncLRUCache κ ν) (d : Nat) (key : κ) : AsyncLRUCache κ ν :=
  { self with
    lru := { self.lru with misses := self.lru.misses + 1 }
    concurrent := setItem Prod.fst self.concurrent (key, [d])
    calls := self.calls + 1
    fetches := self.fetches ++ [(self.calls, key)] }

def join (self : AsyncLRUCache κ ν) (d : Nat) (key : κ) (conc : List Nat) : AsyncLRUCache κ ν :=
  { self with
    lru := { self.lru with hits := self.lru.hits + 1 }
    concurrent := setItem Prod.fst self.concurrent (key, conc ++ [d]) }

def get (self : AsyncLRUCache κ ν) (key : κ) : AsyncLRUCache κ ν × List (Action κ ν) :=
  let d := self.deferreds
  let self := { self with deferreds := d + 1 }
  match self.lru._get_hit key with
  | some (result, lru) => ({ self with lru := lru }, [.requested d key, .fired d (some (some result))])
  | none =>
      match waiters self.concurrent key with
      | some (first :: rest) => (self.join d key (first :: rest), [.requested d key])
      -- an entry without waiters counts as none for `if conc`, but not for the assertion
      | some [] =>
          ({ self with lru := { self.lru with misses := self.lru.misses + 1 } }, [.raised .AssertionError])
      | none => (self.begin d key, [.began self.calls key, .requested d key])

/-- `concurrent.pop(key)`, and the loop over the waiters begins. -/
def release (self : AsyncLRUCache κ ν) (key : κ) (result : Fetched ν) : AsyncLRUCache κ ν × List (Action κ ν) :=
  match waiters self.concurrent key with
  | none => (self, [.raised .KeyError])
  | some dlist =>
      ({ self with
          concurrent := self.concurrent.eraseP fun entry => entry.1 = key
          firing := (result, dlist) :: self.firing }, [])

def handle_result (self : AsyncLRUCache κ ν) (key : κ) : Option ν → AsyncLRUCache κ ν × List (Action κ ν)
  | none => self.release key (some none)
  | some value =>
      let lru := (self.lru.store key value)._ref_key key
      match lru._purge with
      | .ok lru =>
          let (self, actions) := { self with lru := lru }.release key (some (some value))
          (self, .stored key value :: actions)
      | .error error => ({ self with lru := lru }, [.stored key value, .raised (.cache error)])

def handle_failure (self : AsyncLRUCache κ ν) (key : κ) : AsyncLRUCache κ ν × List (Action κ ν) := self.release key none

/-- The deferred of a call of `miss_fn` fires, which it does at most once. -/
def complete (self : AsyncLRUCache κ ν) (fetch : Nat) (result : Fetched ν) : AsyncLRUCache κ ν × List (Action κ ν) :=
  match Keyed.lookup Prod.fst self.fetches fetch with
  | none => (self, [])
  | some (_, key) =>
      let self := { self with fetches := self.fetches.eraseP fun call => call.1 = fetch }
      let (self, actions) := match result with
        | none => self.handle_failure key
        | some result => self.handle_result key result
      (self, .ended fetch key result :: actions)

/-- The innermost loop goes on. -/
def fire (self : AsyncLRUCache κ ν) : AsyncLRUCache κ ν × List (Action κ ν) :=
  match self.firing with
  | [] => (self, [])
  | (_, []) :: outer => ({ self with firing := outer }, [])
  | (result, d :: dlist) :: outer => ({ self with firing := (result, dlist) :: outer }, [.fired d result])

inductive Event (κ ν : Type) where
  | get (key : κ)
  | complete (fetch : Nat) (result : Fetched ν)
  | fire
  | put (key : κ) (value : ν)
  | set_max_size (max_size : Nat)
  | collect (value : ν)

def updated (self : AsyncLRUCache κ ν) (actions : List (Action κ ν)) :
    Except LRUError (LRUCache κ ν) → AsyncLRUCache κ ν × List (Action κ ν)
  | .ok lru => ({ self with lru := lru }, actions)
  | .error error => (self, [.raised (.cache error)])

def step (self : AsyncLRUCache κ ν) : Event κ ν → AsyncLRUCache κ ν × List (Action κ ν)
  | .get key => self.get key
  | .complete fetch result => self.complete fetch result
  | .fire => self.fire
  | .put key value => self.updated [.stored key value] (self.lru.put key value)
  | .set_max_size max_size => self.updated [] (self.lru.set_max_size max_size)
  | .collect value => ({ self with lru := self.lru.collect value }, [])

end AsyncLRUCache

end Umbilical.Util
