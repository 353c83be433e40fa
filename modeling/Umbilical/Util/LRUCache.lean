import Umbilical.Shared.Dictionary

set_option autoImplicit false

/-!
# The least-recently-used cache

A queue with duplicates records the uses of the keys, and reference counts tell how often
a key is in it. A second store keeps weak references to the values.
-/

namespace Umbilical.Util

open Dictionary

variable {κ ν : Type} [DecidableEq κ] [DecidableEq ν]

inductive LRUError where
  | KeyError
  | IndexError
  deriving DecidableEq

/-- A value is an object, of which only the identity counts. -/
structure LRUCache (κ ν : Type) where
  max_size : Nat
  max_queue : Nat
  queue : List κ
  cache : List (κ × ν)
  weakrefs : κ → Option ν
  refcount : κ → Int
  hits : Nat
  refhits : Nat
  misses : Nat

namespace LRUCache

def QUEUE_SIZE_FACTOR : Nat := 10

def init (max_size : Nat) : LRUCache κ ν where
  max_size := max_size
  max_queue := max_size * QUEUE_SIZE_FACTOR
  queue := []
  cache := []
  weakrefs _ := none
  refcount _ := 0
  hits := 0
  refhits := 0
  misses := 0

/-- `cache[key]`. -/
def cached (cache : List (κ × ν)) (key : κ) : Option ν := (Keyed.lookup Prod.fst cache key).map Prod.snd

/-- The loop that pops the queue from the right and puts each key back on the left that has no count yet. -/
def compact (queue : List κ) : List κ × (κ → Int) :=
  queue.foldr
    (fun k state => if state.2 k ≠ 0 then state else (k :: state.1, Function.update state.2 k 1)) ([], fun _ => 0)

def _ref_key (self : LRUCache κ ν) (key : κ) : LRUCache κ ν :=
  let queue := self.queue ++ [key]
  let refcount := Function.update self.refcount key (self.refcount key + 1)
  if queue.length > self.max_queue then
    let (queue, refcount) := compact queue
    { self with queue := queue, refcount := refcount }
  else { self with queue := queue, refcount := refcount }

/-- The loops of `_purge`. The inner one does not change the length of the cache, so the bound may be looked at
before each pop. -/
def evict (max_size : Nat) :
    List κ → List (κ × ν) → (κ → Int) → Except LRUError (List κ × List (κ × ν) × (κ → Int))
  | [], cache, refcount => if cache.length ≤ max_size then .ok ([], cache, refcount) else .error .IndexError
  | k :: queue, cache, refcount =>
      if cache.length ≤ max_size then .ok (k :: queue, cache, refcount)
      else
        let refc := refcount k - 1
        if refc ≠ 0 then evict max_size queue cache (Function.update refcount k refc)
        else if (cached cache k).isSome then
          evict max_size queue (cache.eraseP fun entry => entry.1 = k) (Function.update refcount k 0)
        else .error .KeyError

def _purge (self : LRUCache κ ν) : Except LRUError (LRUCache κ ν) := do
  let (queue, cache, refcount) ← evict self.max_size self.queue self.cache self.refcount
  return { self with queue := queue, cache := cache, refcount := refcount }

/-- A value under a key in both stores. -/
def store (self : LRUCache κ ν) (key : κ) (value : ν) : LRUCache κ ν :=
  { self with
    cache := setItem Prod.fst self.cache (key, value)
    weakrefs := Function.update self.weakrefs key (some value) }

def put (self : LRUCache κ ν) (key : κ) (value : ν) : Except LRUError (LRUCache κ ν) :=
  let cached := (cached self.cache key).isSome || (self.weakrefs key).isSome
  let self := (self.store key value)._ref_key key
  if cached then .ok self else self._purge

/-- The value of a key that is cached, or whose value is still alive. -/
def _get_hit (self : LRUCache κ ν) (key : κ) : Option (ν × LRUCache κ ν) :=
  match cached self.cache key with
  | some result => some (result, { self with hits := self.hits + 1 }._ref_key key)
  | none =>
      match self.weakrefs key with
      | some result =>
          let self := { self with refhits := self.refhits + 1, cache := setItem Prod.fst self.cache (key, result) }
          some (result, self._ref_key key)
      | none => none

/-- What `miss_fn` returns, or `none` if it raises. -/
abbrev Fetched (ν : Type) := Option (Option ν)

/-- What a call of `get` comes to: the result that is returned, or an exception of `miss_fn`. -/
def get (self : LRUCache κ ν) (key : κ) (fetched : Fetched ν) : Except LRUError (Fetched ν × LRUCache κ ν) :=
  match self._get_hit key with
  | some (result, self) => .ok (some (some result), self)
  | none =>
      let self := { self with misses := self.misses + 1 }
      match fetched with
      | none => .ok (none, self)
      | some none => .ok (some none, self)
      | some (some result) => do
          let self ← ((self.store key result)._ref_key key)._purge
          return (some (some result), self)

def set_max_size (self : LRUCache κ ν) (max_size : Nat) : Except LRUError (LRUCache κ ν) :=
  if self.max_size = max_size then .ok self
  else { self with max_size := max_size, max_queue := max_size * QUEUE_SIZE_FACTOR }._purge

/-- The last reference to a value is gone, so the weak references to it are. The cache keeps its own values alive. -/
def collect (self : LRUCache κ ν) (value : ν) : LRUCache κ ν :=
  if value ∈ self.cache.map Prod.snd then self
  else { self with weakrefs := fun key => if self.weakrefs key = some value then none else self.weakrefs key }

inductive Event (κ ν : Type) where
  | put (key : κ) (value : ν)
  | get (key : κ) (fetched : Fetched ν)
  | set_max_size (max_size : Nat)
  | collect (value : ν)

/-- What a caller sees of a call. -/
inductive Answer (ν : Type) where
  | returned (result : Fetched ν)
  | raised (error : LRUError)
  deriving DecidableEq

def answer (self : LRUCache κ ν) : Except LRUError (LRUCache κ ν) → LRUCache κ ν × List (Answer ν)
  | .ok self => (self, [.returned (some none)])
  | .error error => (self, [.raised error])

def step (self : LRUCache κ ν) : Event κ ν → LRUCache κ ν × List (Answer ν)
  | .put key value => self.answer (self.put key value)
  | .get key fetched =>
      match self.get key fetched with
      | .ok (result, self) => (self, [.returned result])
      | .error error => (self, [.raised error])
  | .set_max_size max_size => self.answer (self.set_max_size max_size)
  | .collect value => (self.collect value, [])

end LRUCache

/-! ## The plain cache -/

/-- A list of the entries, the last used ones at its end, and for each key the value of its last put or fetch as long
as that is alive. -/
structure PlainCache (κ ν : Type) where
  max_size : Nat
  entries : List (κ × ν)
  alive : κ → Option ν

namespace PlainCache

def init (max_size : Nat) : PlainCache κ ν := ⟨max_size, [], fun _ => none⟩

def trim (self : PlainCache κ ν) : PlainCache κ ν :=
  { self with entries := self.entries.drop (self.entries.length - self.max_size) }

/-- The entry becomes the last used one, and the least recently used one goes if there is one too many. -/
def use (self : PlainCache κ ν) (key : κ) (value : ν) : PlainCache κ ν :=
  { self with
    entries := self.entries.filter (fun entry : κ × ν => entry.1 ≠ key) ++ [(key, value)]
    alive := Function.update self.alive key (some value) }.trim

def step (self : PlainCache κ ν) : LRUCache.Event κ ν → PlainCache κ ν × List (LRUCache.Answer ν)
  | .put key value => (self.use key value, [.returned (some none)])
  | .get key fetched =>
      match self.alive key, fetched with
      | some value, _ => (self.use key value, [.returned (some (some value))])
      | none, some (some value) => (self.use key value, [.returned (some (some value))])
      | none, fetched => (self, [.returned fetched])
  | .set_max_size max_size => ({ self with max_size := max_size }.trim, [.returned (some none)])
  | .collect value =>
      if value ∈ self.entries.map Prod.snd then (self, [])
      else ({ self with alive := fun key => if self.alive key = some value then none else self.alive key }, [])

end PlainCache

end Umbilical.Util
