import Umbilical.Shared.Interleaving
import Mathlib.Data.List.Nodup

set_option autoImplicit false

/-!
# Requests over a msgpack connection

Both ends of the connection keep a map from sequence numbers to the deferreds that wait for
the responses. What a deferred resumes may send further requests before the code that
fires it goes on.
-/

namespace Umbilical.Msgpack

open Interleaving

inductive Side where
  | master
  | worker
  deriving DecidableEq

inductive Op where
  | print
  | getWorkerInfo
  | keepalive
  | setWorkerSettings
  | startCommand
  | interruptCommand
  | shutdown
  | update
  | updateUploadFileWrite
  | updateUploadFileUtime
  | updateUploadFileClose
  | updateUploadDirectoryUnpack
  | updateUploadDirectoryWrite
  | updateReadFile
  | updateReadFileClose
  | complete
  deriving DecidableEq

/-- What a response carries: its `result`, or the `result` that `is_exception` makes the text of an exception. -/
inductive Answer (ρ : Type) where
  | result (value : ρ)
  | remoteWorkerError (value : ρ)
  deriving DecidableEq

/-- What a deferred is fired with. -/
inductive Outcome (ρ : Type) where
  | answered (seqNumber : Nat) (answer : Answer ρ)
  | connectionLost
  deriving DecidableEq

/-- A deferred of `get_message_result` is a number, given in the order of the calls that send. -/
structure Protocol (ρ : Type) where
  seqNumToWaitersMap : List (Nat × Nat)
  seqNumber : Nat
  /-- `connection` is not `None`; on a worker, which has no such field, this is of no effect. -/
  connected : Bool
  /-- `onClose` has been called. -/
  closed : Bool
  /-- `connection.detached` has been called. -/
  detached : Bool
  deferreds : Nat
  /-- The requests sent: each deferred with the sequence number of its request. -/
  sent : List (Nat × Nat)
  fired : List (Nat × Outcome ρ)
  deriving DecidableEq

variable {ρ : Type} {side : Side}

namespace Protocol

/-- After `onOpen`. -/
def opened : Protocol ρ where
  seqNumToWaitersMap := []
  seqNumber := 0
  connected := false
  closed := false
  detached := false
  deferreds := 0
  sent := []
  fired := []

/-- The call raises `ConnectioLostError` before it does anything. -/
def refuses (protocol : Protocol ρ) (side : Side) (op : Op) : Bool :=
  match side with
  | .master => op ≠ .print ∧ op ≠ .getWorkerInfo ∧ protocol.connected = false
  | .worker => false

/-- `seq_num_to_waiters_map[key] = waiter` -/
def setItem (map : List (Nat × Nat)) (key waiter : Nat) : List (Nat × Nat) :=
  if key ∈ map.map Prod.fst then map.map fun item => if item.1 = key then (key, waiter) else item
  else map ++ [(key, waiter)]

def getMessageResult (side : Side) (protocol : Protocol ρ) (op : Op) : Protocol ρ :=
  if protocol.refuses side op then protocol
  else
    { protocol with
      seqNumToWaitersMap := setItem protocol.seqNumToWaitersMap protocol.seqNumber protocol.deferreds
      seqNumber := protocol.seqNumber + 1
      deferreds := protocol.deferreds + 1
      sent := protocol.sent ++ [(protocol.deferreds, protocol.seqNumber)] }

/-- Fire a deferred. What it resumes makes `calls` before control returns. -/
def fire (side : Side) (protocol : Protocol ρ) (waiter : Nat) (outcome : Outcome ρ) (calls : List Op) : Protocol ρ :=
  calls.foldl (getMessageResult side) { protocol with fired := protocol.fired ++ [(waiter, outcome)] }

/-- The branch of `onMessage` for a response. -/
def onResponse (side : Side) (protocol : Protocol ρ) (seqNumber : Nat) (answer : Answer ρ) (calls : List Op) :
    Protocol ρ :=
  match protocol.seqNumToWaitersMap.find? (·.1 = seqNumber) with
  -- `KeyError`
  | none => protocol
  | some (_, waiter) =>
    let resumed := protocol.fire side waiter (.answered seqNumber answer) calls
    { resumed with seqNumToWaitersMap := resumed.seqNumToWaitersMap.filter (·.1 ≠ seqNumber) }

/-- The loop of `onClose` over the items of the map, and whether it comes to its end: it does not when the map has
changed its size under the iterator. -/
def failAll (side : Side) (reactions : Nat → List Op) : Protocol ρ → List (Nat × Nat) → Protocol ρ × Bool
  | protocol, [] => (protocol, true)
  | protocol, (_, waiter) :: rest =>
    let resumed := protocol.fire side waiter .connectionLost (reactions waiter)
    if resumed.seqNumToWaitersMap.length = protocol.seqNumToWaitersMap.length then failAll side reactions resumed rest
    else (resumed, false)

def onClose (side : Side) (reactions : Nat → List Op) (protocol : Protocol ρ) : Protocol ρ :=
  match failAll side reactions { protocol with closed := true } protocol.seqNumToWaitersMap with
  | (protocol, false) => protocol
  | (protocol, true) =>
    { protocol with
      seqNumToWaitersMap := []
      detached := match side with
        | .master => protocol.connected
        | .worker => false }

end Protocol

/-- `attach` is the master's `initialize` setting `connection`. A response and the end of the connection come with
the calls that the resumed code makes: those of the waiter, and those of each of the waiters. -/
inductive Event (ρ : Type) where
  | attach
  | request (op : Op)
  | response (seqNumber : Nat) (answer : Answer ρ) (calls : List Op)
  | close (reactions : Nat → List Op)

namespace Protocol

def step (side : Side) (protocol : Protocol ρ) (event : Event ρ) : Protocol ρ × List Unit :=
  match event with
  | .request op => (protocol.getMessageResult side op, [])
  -- A closed connection has no more messages, and is closed once.
  | .attach => (if protocol.closed then protocol else { protocol with connected := true }, [])
  | .response seqNumber answer calls =>
    (if protocol.closed then protocol else protocol.onResponse side seqNumber answer calls, [])
  | .close reactions => (if protocol.closed then protocol else protocol.onClose side reactions, [])

end Protocol

/-- What a deferred was fired with is for the request it was returned for. -/
def Outcome.For (outcome : Outcome ρ) (seqNumber : Nat) : Prop :=
  match outcome with
  | .answered number _ => number = seqNumber
  | .connectionLost => True

/-- Every request is answered exactly once. -/
structure Protocol.Answers (side : Side) (protocol : Protocol ρ) : Prop where
  once : (protocol.fired.map Prod.fst).Nodup
  own : ∀ waiter outcome, (waiter, outcome) ∈ protocol.fired →
    ∃ seqNumber, (waiter, seqNumber) ∈ protocol.sent ∧ outcome.For seqNumber
  numbers : (protocol.seqNumToWaitersMap.map Prod.fst).Nodup
  waits : ∀ waiter seqNumber, (waiter, seqNumber) ∈ protocol.sent →
    (waiter ∉ protocol.fired.map Prod.fst ↔ (seqNumber, waiter) ∈ protocol.seqNumToWaitersMap)
  nobody : protocol.closed → protocol.seqNumToWaitersMap = []
  detached : protocol.closed → side = .master → protocol.connected → protocol.detached

/-- A response fires the deferred that waits for it. -/
def Protocol.Hears (side : Side) (protocol : Protocol ρ) : Event ρ → Prop
  | .response seqNumber answer calls => ¬ protocol.closed → ∀ waiter, (seqNumber, waiter) ∈ protocol.seqNumToWaitersMap →
      (waiter, .answered seqNumber answer) ∈ (protocol.step side (.response seqNumber answer calls)).1.fired
  | .attach | .request _ | .close _ => True

/-- No request is sent by what `onClose` resumes, or after it. -/
def Protocol.Quiet (side : Side) (protocol : Protocol ρ) : Event ρ → Prop
  | .request op => protocol.closed → protocol.refuses side op
  | .close reactions => ¬ protocol.closed → ∀ item ∈ protocol.seqNumToWaitersMap, ∀ op ∈ reactions item.2,
      protocol.refuses side op
  | .attach | .response _ _ _ => True

namespace Protocol

variable {protocol : Protocol ρ} {op : Op} {seqNumber waiter : Nat}

theorem refuses_of_connected {other : Protocol ρ} (same : other.connected = protocol.connected) :
    other.refuses side op = protocol.refuses side op := by
  unfold refuses
  rw [same]

/-- What the map and the numbers keep to, whoever waits. -/
structure Numbered (protocol : Protocol ρ) : Prop where
  keys : (protocol.seqNumToWaitersMap.map Prod.fst).Nodup
  waits : ∀ item ∈ protocol.seqNumToWaitersMap, (item.2, item.1) ∈ protocol.sent
  below : ∀ item ∈ protocol.sent, item.1 < protocol.deferreds ∧ item.2 < protocol.seqNumber
  waiters : (protocol.sent.map Prod.fst).Nodup
  numbers : (protocol.sent.map Prod.snd).Nodup
  once : (protocol.fired.map Prod.fst).Nodup
  own : ∀ item ∈ protocol.fired, ∃ seqNumber, (item.1, seqNumber) ∈ protocol.sent ∧ item.2.For seqNumber

/-- Who was sent a request and has not been fired waits, the request with the number `but` aside. -/
def Settled (protocol : Protocol ρ) (but : Option Nat) : Prop :=
  ∀ waiter seqNumber, (waiter, seqNumber) ∈ protocol.sent → some seqNumber ≠ but →
    (waiter ∉ protocol.fired.map Prod.fst ↔ (seqNumber, waiter) ∈ protocol.seqNumToWaitersMap)

/-- The next number is above all that are waited for. -/
def Fresh (protocol : Protocol ρ) : Prop := ∀ item ∈ protocol.seqNumToWaitersMap, item.1 < protocol.seqNumber

theorem Numbered.fresh (numbered : protocol.Numbered) : protocol.Fresh :=
  fun item listed => (numbered.below _ (numbered.waits item listed)).2

theorem Fresh.not_mem (fresh : protocol.Fresh) :
    protocol.seqNumber ∉ protocol.seqNumToWaitersMap.map Prod.fst := by
  intro member
  obtain ⟨item, listed, same⟩ := List.mem_map.mp member
  exact Nat.ne_of_lt (fresh item listed) same

/-- A call that is not refused appends to the map and to what was sent. -/
theorem Fresh.getMessageResult_eq (fresh : protocol.Fresh) (allowed : protocol.refuses side op = false) :
    protocol.getMessageResult side op =
      { protocol with
        seqNumToWaitersMap := protocol.seqNumToWaitersMap ++ [(protocol.seqNumber, protocol.deferreds)]
        seqNumber := protocol.seqNumber + 1
        deferreds := protocol.deferreds + 1
        sent := protocol.sent ++ [(protocol.deferreds, protocol.seqNumber)] } := by
  simp [getMessageResult, allowed, setItem, fresh.not_mem]

theorem Numbered.getMessageResult (numbered : protocol.Numbered) (op : Op) :
    (protocol.getMessageResult side op).Numbered := by
  by_cases refused : protocol.refuses side op
  · rwa [Protocol.getMessageResult, if_pos refused]
  rw [numbered.fresh.getMessageResult_eq (by simpa using refused)]
  have later : protocol.seqNumber ∉ protocol.sent.map Prod.snd := by
    intro member
    obtain ⟨item, sent, same⟩ := List.mem_map.mp member
    exact Nat.ne_of_lt (numbered.below item sent).2 same
  have newer : protocol.deferreds ∉ protocol.sent.map Prod.fst := by
    intro member
    obtain ⟨item, sent, same⟩ := List.mem_map.mp member
    exact Nat.ne_of_lt (numbered.below item sent).1 same
  constructor
  · rw [List.map_append]
    exact numbered.keys.append (List.nodup_singleton _) (by simpa using numbered.fresh.not_mem)
  · intro item member
    rcases List.mem_append.mp member with earlier | now
    · exact List.mem_append_left _ (numbered.waits item earlier)
    · obtain rfl := List.mem_singleton.mp now
      exact List.mem_append_right _ (List.mem_singleton_self _)
  · intro item member
    rcases List.mem_append.mp member with earlier | now
    · have below := numbered.below item earlier
      exact ⟨Nat.lt_succ_of_lt below.1, Nat.lt_succ_of_lt below.2⟩
    · obtain rfl := List.mem_singleton.mp now
      exact ⟨Nat.lt_succ_self _, Nat.lt_succ_self _⟩
  · rw [List.map_append]
    exact numbered.waiters.append (List.nodup_singleton _) (by simpa using newer)
  · rw [List.map_append]
    exact numbered.numbers.append (List.nodup_singleton _) (by simpa using later)
  · exact numbered.once
  · intro item member
    obtain ⟨number, sent, answers⟩ := numbered.own item member
    exact ⟨number, List.mem_append_left _ sent, answers⟩

theorem Settled.getMessageResult {but : Option Nat} (settled : protocol.Settled but) (numbered : protocol.Numbered)
    (op : Op) : (protocol.getMessageResult side op).Settled but := by
  by_cases refused : protocol.refuses side op
  · rwa [Protocol.getMessageResult, if_pos refused]
  rw [numbered.fresh.getMessageResult_eq (by simpa using refused)]
  intro waiter number sent other
  rcases List.mem_append.mp sent with earlier | now
  · have below := (numbered.below _ earlier).2
    have differ : (number, waiter) ≠ (protocol.seqNumber, protocol.deferreds) := by
      intro same
      exact Nat.ne_of_lt below (congrArg Prod.fst same)
    simpa [differ] using settled waiter number earlier other
  · cases List.mem_singleton.mp now
    have unfired : protocol.deferreds ∉ protocol.fired.map Prod.fst := by
      intro member
      obtain ⟨item, fired, same⟩ := List.mem_map.mp member
      obtain ⟨number, sent, _⟩ := numbered.own item fired
      exact Nat.ne_of_lt (numbered.below _ sent).1 same
    exact ⟨fun _ => List.mem_append_right _ (List.mem_singleton_self _), fun _ => unfired⟩

@[simp] theorem getMessageResult_fired (op : Op) : (protocol.getMessageResult side op).fired = protocol.fired := by
  unfold getMessageResult
  split <;> rfl

@[simp] theorem getMessageResult_closed (op : Op) : (protocol.getMessageResult side op).closed = protocol.closed := by
  unfold getMessageResult
  split <;> rfl

@[simp] theorem getMessageResult_detached (op : Op) :
    (protocol.getMessageResult side op).detached = protocol.detached := by
  unfold getMessageResult
  split <;> rfl

@[simp] theorem getMessageResult_connected (op : Op) :
    (protocol.getMessageResult side op).connected = protocol.connected := by
  unfold getMessageResult
  split <;> rfl

/-- What every call preserves, the calls of a resumed deferred preserve. -/
theorem foldl_of_call {invariant : Protocol ρ → Prop}
    (preserved : ∀ protocol op, invariant protocol → invariant (getMessageResult side protocol op))
    (calls : List Op) (initially : invariant protocol) : invariant (calls.foldl (getMessageResult side) protocol) := by
  induction calls generalizing protocol with
  | nil => exact initially
  | cons op rest ih => exact ih (preserved protocol op initially)

theorem Numbered.fired (numbered : protocol.Numbered) {outcome : Outcome ρ} (sent : (waiter, seqNumber) ∈ protocol.sent)
    (waits : waiter ∉ protocol.fired.map Prod.fst) (own : outcome.For seqNumber) :
    ({ protocol with fired := protocol.fired ++ [(waiter, outcome)] } : Protocol ρ).Numbered where
  keys := numbered.keys
  waits := numbered.waits
  below := numbered.below
  waiters := numbered.waiters
  numbers := numbered.numbers
  once := by
    rw [List.map_append]
    exact numbered.once.append (List.nodup_singleton _) (by simpa using waits)
  own item member := by
    rcases List.mem_append.mp member with earlier | now
    · exact numbered.own item earlier
    · obtain rfl := List.mem_singleton.mp now
      exact ⟨seqNumber, sent, own⟩

theorem Settled.fired (settled : protocol.Settled none) (numbered : protocol.Numbered) (outcome : Outcome ρ)
    (sent : (waiter, seqNumber) ∈ protocol.sent) :
    ({ protocol with fired := protocol.fired ++ [(waiter, outcome)] } : Protocol ρ).Settled (some seqNumber) := by
  intro other number member differ
  have apart : other ≠ waiter := by
    rintro rfl
    have same := List.inj_on_of_nodup_map numbered.waiters member sent rfl
    exact differ (congrArg (some ∘ Prod.snd) same)
  simpa [apart] using settled other number member (by simp)

/-- The deferred with the number has been fired, and is the only one. -/
theorem Settled.deleted (settled : protocol.Settled (some seqNumber)) (numbered : protocol.Numbered)
    (sent : (waiter, seqNumber) ∈ protocol.sent) (fired : waiter ∈ protocol.fired.map Prod.fst) :
    ({ protocol with seqNumToWaitersMap := protocol.seqNumToWaitersMap.filter (·.1 ≠ seqNumber) } : Protocol ρ).Settled
      none := by
  intro other number member _
  by_cases same : number = seqNumber
  · subst same
    have only := List.inj_on_of_nodup_map numbered.numbers member sent rfl
    obtain rfl : other = waiter := congrArg Prod.fst only
    simp [fired]
  · have before := settled other number member (by simpa using same)
    simpa [same] using before

/-- The invariant: the numbers are in order, everybody is settled, and a closed connection has nobody waiting. -/
structure Sound (side : Side) (protocol : Protocol ρ) : Prop where
  numbered : protocol.Numbered
  settled : protocol.Settled none
  nobody : protocol.closed → protocol.seqNumToWaitersMap = []
  detached : protocol.closed → side = .master → protocol.connected → protocol.detached

theorem Sound.answers (sound : protocol.Sound side) : protocol.Answers side where
  once := sound.numbered.once
  own waiter outcome member := sound.numbered.own (waiter, outcome) member
  numbers := sound.numbered.keys
  waits waiter seqNumber sent := sound.settled waiter seqNumber sent (by simp)
  nobody := sound.nobody
  detached := sound.detached

theorem opened_sound : (opened : Protocol ρ).Sound side where
  numbered := by constructor <;> simp [opened]
  settled := fun _ _ sent => nomatch sent
  nobody := nofun
  detached := nofun

/-- What a response leaves, where somebody waits for it. -/
theorem onResponse_eq {answer : Answer ρ} {calls : List Op} (numbered : protocol.Numbered)
    (waits : (seqNumber, waiter) ∈ protocol.seqNumToWaitersMap) :
    protocol.onResponse side seqNumber answer calls =
      { protocol.fire side waiter (.answered seqNumber answer) calls with
        seqNumToWaitersMap :=
          (protocol.fire side waiter (.answered seqNumber answer) calls).seqNumToWaitersMap.filter (·.1 ≠ seqNumber) } := by
  have found : protocol.seqNumToWaitersMap.find? (·.1 = seqNumber) = some (seqNumber, waiter) := by
    cases search : protocol.seqNumToWaitersMap.find? (·.1 = seqNumber) with
    | none => simpa using List.find?_eq_none.mp search _ waits
    | some item =>
      have listed := List.mem_of_find?_eq_some search
      have same : item.1 = seqNumber := by simpa using List.find?_some search
      rw [List.inj_on_of_nodup_map numbered.keys listed waits same]
  unfold onResponse
  rw [found]

theorem mem_sent_getMessageResult {item : Nat × Nat} (sent : item ∈ protocol.sent) (op : Op) :
    item ∈ (protocol.getMessageResult side op).sent := by
  unfold getMessageResult
  split
  · exact sent
  · exact List.mem_append_left _ sent

/-- The waiter with the number has been fired and is still in the map, while what it resumes sends its requests. -/
structure Resuming (seqNumber waiter : Nat) (fired : List (Nat × Outcome ρ)) (protocol : Protocol ρ) : Prop where
  numbered : protocol.Numbered
  settled : protocol.Settled (some seqNumber)
  sent : (waiter, seqNumber) ∈ protocol.sent
  fired : protocol.fired = fired
  «open» : protocol.closed = false

theorem Sound.fire (sound : protocol.Sound side) («open» : protocol.closed = false) (answer : Answer ρ)
    (calls : List Op) (waits : (seqNumber, waiter) ∈ protocol.seqNumToWaitersMap) :
    Resuming seqNumber waiter (protocol.fired ++ [(waiter, .answered seqNumber answer)])
      (protocol.fire side waiter (.answered seqNumber answer) calls) := by
  have sent := sound.numbered.waits _ waits
  have unfired := (sound.settled waiter seqNumber sent (by simp)).mpr waits
  apply foldl_of_call
  · intro protocol op resuming
    exact ⟨resuming.numbered.getMessageResult op, resuming.settled.getMessageResult resuming.numbered op,
      mem_sent_getMessageResult resuming.sent op, (getMessageResult_fired op).trans resuming.fired,
      (getMessageResult_closed op).trans resuming.open⟩
  · exact ⟨sound.numbered.fired sent unfired rfl, sound.settled.fired sound.numbered _ sent, sent, rfl, «open»⟩

theorem Resuming.deleted {fired : List (Nat × Outcome ρ)} (resuming : Resuming seqNumber waiter fired protocol)
    (member : waiter ∈ fired.map Prod.fst) :
    ({ protocol with seqNumToWaitersMap := protocol.seqNumToWaitersMap.filter (·.1 ≠ seqNumber) } : Protocol ρ).Sound
      side where
  numbered :=
    { resuming.numbered with
      keys := resuming.numbered.keys.sublist (List.filter_sublist.map _)
      waits := fun item listed => resuming.numbered.waits item (List.mem_of_mem_filter listed) }
  settled := resuming.settled.deleted resuming.numbered resuming.sent (resuming.fired ▸ member)
  nobody closed := absurd closed (by simp [resuming.open])
  detached closed := absurd closed (by simp [resuming.open])

theorem Sound.onResponse (sound : protocol.Sound side) («open» : protocol.closed = false) (seqNumber : Nat)
    (answer : Answer ρ) (calls : List Op) :
    (protocol.onResponse side seqNumber answer calls).Sound side ∧
      ∀ waiter, (seqNumber, waiter) ∈ protocol.seqNumToWaitersMap →
        (waiter, .answered seqNumber answer) ∈ (protocol.onResponse side seqNumber answer calls).fired := by
  by_cases someone : ∃ waiter, (seqNumber, waiter) ∈ protocol.seqNumToWaitersMap
  · obtain ⟨waiter, waits⟩ := someone
    have resuming := sound.fire «open» answer calls waits
    rw [onResponse_eq sound.numbered waits]
    refine ⟨resuming.deleted (by simp), fun other listed => ?_⟩
    have same := List.inj_on_of_nodup_map sound.numbered.keys listed waits rfl
    obtain rfl : other = waiter := congrArg Prod.snd same
    exact resuming.fired ▸ List.mem_append_right _ (List.mem_singleton_self _)
  · have nothing : protocol.seqNumToWaitersMap.find? (·.1 = seqNumber) = none := by
      rw [List.find?_eq_none]
      rintro ⟨number, waiter⟩ listed
      have other : number ≠ seqNumber := fun same => someone ⟨waiter, same ▸ listed⟩
      simpa using other
    have unchanged : protocol.onResponse side seqNumber answer calls = protocol := by
      unfold Protocol.onResponse
      rw [nothing]
    rw [unchanged]
    exact ⟨sound, fun waiter waits => absurd ⟨waiter, waits⟩ someone⟩

/-- Calls that are all refused change nothing. -/
theorem fire_of_refused {outcome : Outcome ρ} {calls : List Op} (refused : ∀ op ∈ calls, protocol.refuses side op) :
    protocol.fire side waiter outcome calls = { protocol with fired := protocol.fired ++ [(waiter, outcome)] } := by
  unfold fire
  induction calls with
  | nil => rfl
  | cons op rest ih =>
    have first := refused op List.mem_cons_self
    have unchanged : getMessageResult side { protocol with fired := protocol.fired ++ [(waiter, outcome)] } op =
        { protocol with fired := protocol.fired ++ [(waiter, outcome)] } := by
      unfold getMessageResult
      exact if_pos first
    rw [List.foldl_cons, unchanged]
    exact ih fun op member => refused op (List.mem_cons_of_mem _ member)

theorem failAll_of_refused {reactions : Nat → List Op} {items : List (Nat × Nat)}
    (refused : ∀ item ∈ items, ∀ op ∈ reactions item.2, protocol.refuses side op) :
    failAll side reactions protocol items =
      ({ protocol with fired := protocol.fired ++ items.map fun item => (item.2, .connectionLost) }, true) := by
  induction items generalizing protocol with
  | nil => simp [failAll]
  | cons item rest ih =>
    have first := refused item List.mem_cons_self
    rw [failAll, fire_of_refused first, if_pos rfl, ih]
    · simp
    · intro other member op called
      exact refused other (List.mem_cons_of_mem _ member) op called

theorem Numbered.waiters_nodup (numbered : protocol.Numbered) :
    (protocol.seqNumToWaitersMap.map Prod.snd).Nodup := by
  apply List.Nodup.map_on
  · rintro ⟨first, waiter⟩ one ⟨second, other⟩ two rfl
    have same := List.inj_on_of_nodup_map numbered.waiters (numbered.waits _ one) (numbered.waits _ two) rfl
    exact Prod.ext (congrArg Prod.snd same) rfl
  · exact numbered.keys.of_map _

theorem Sound.onClose (sound : protocol.Sound side) {reactions : Nat → List Op}
    (refused : ∀ item ∈ protocol.seqNumToWaitersMap, ∀ op ∈ reactions item.2, protocol.refuses side op) :
    (protocol.onClose side reactions).Sound side := by
  have walked : failAll side reactions { protocol with closed := true } protocol.seqNumToWaitersMap = _ :=
    failAll_of_refused refused
  unfold Protocol.onClose
  rw [walked]
  have lost : (protocol.seqNumToWaitersMap.map fun item => (item.2, (.connectionLost : Outcome ρ))).map Prod.fst =
      protocol.seqNumToWaitersMap.map Prod.snd := by
    rw [List.map_map]
    rfl
  have unfired : ∀ waiter ∈ protocol.seqNumToWaitersMap.map Prod.snd, waiter ∉ protocol.fired.map Prod.fst := by
    intro waiter member
    obtain ⟨item, listed, rfl⟩ := List.mem_map.mp member
    exact (sound.settled _ _ (sound.numbered.waits item listed) (by simp)).mpr listed
  refine ⟨{ sound.numbered with
    keys := List.nodup_nil
    waits := fun _ listed => nomatch listed
    once := ?_
    own := ?_ }, ?_, fun _ => rfl, ?_⟩
  · simp only [List.map_append, lost]
    exact sound.numbered.once.append sound.numbered.waiters_nodup fun waiter fired waits => unfired waiter waits fired
  · intro item member
    rcases List.mem_append.mp member with earlier | now
    · exact sound.numbered.own item earlier
    · obtain ⟨waited, listed, rfl⟩ := List.mem_map.mp now
      exact ⟨waited.1, sound.numbered.waits waited listed, trivial⟩
  · intro waiter number sent _
    simp only [List.map_append, lost, List.not_mem_nil, iff_false, not_not]
    by_cases fired : waiter ∈ protocol.fired.map Prod.fst
    · exact List.mem_append_left _ fired
    · have waits := (sound.settled waiter number sent (by simp)).mp fired
      exact List.mem_append_right _ (List.mem_map_of_mem waits)
  · intro _ master connected
    subst master
    exact connected

theorem Sound.step (sound : protocol.Sound side) (event : Event ρ) (quiet : protocol.Quiet side event) :
    (protocol.step side event).1.Sound side ∧ protocol.Hears side event := by
  cases event with
  | attach =>
    refine ⟨?_, trivial⟩
    simp only [Protocol.step]
    split
    · exact sound
    · rename_i running
      exact ⟨{ sound.numbered with }, sound.settled, sound.nobody, fun closed => absurd closed running⟩
  | request op =>
    refine ⟨⟨sound.numbered.getMessageResult op, sound.settled.getMessageResult sound.numbered op, ?_, ?_⟩, trivial⟩
    · intro closed
      have was : protocol.closed = true := by simpa [Protocol.step] using closed
      simp only [Protocol.step, Protocol.getMessageResult, quiet was, if_true]
      exact sound.nobody was
    · simpa [Protocol.step] using sound.detached
  | response seqNumber answer calls =>
    by_cases closed : protocol.closed
    · exact ⟨by simpa [Protocol.step, closed] using sound, fun running => absurd closed running⟩
    · obtain ⟨kept, fires⟩ := sound.onResponse (by simpa using closed) seqNumber answer calls
      exact ⟨by simpa [Protocol.step, closed] using kept, fun _ => by simpa [Protocol.step, closed] using fires⟩
  | close reactions =>
    refine ⟨?_, trivial⟩
    by_cases closed : protocol.closed
    · simpa [Protocol.step, closed] using sound
    · simpa [Protocol.step, closed] using sound.onClose (quiet closed)

theorem setItem_ne_nil (map : List (Nat × Nat)) (key waiter : Nat) : setItem map key waiter ≠ [] := by
  unfold setItem
  split
  · rename_i member
    intro none
    rw [List.map_eq_nil_iff.mp none] at member
    cases member
  · simp

theorem Fresh.getMessageResult (fresh : protocol.Fresh) (op : Op) : (protocol.getMessageResult side op).Fresh := by
  by_cases refused : protocol.refuses side op
  · rwa [Protocol.getMessageResult, if_pos refused]
  rw [fresh.getMessageResult_eq (by simpa using refused)]
  intro item listed
  rcases List.mem_append.mp listed with earlier | now
  · exact Nat.lt_succ_of_lt (fresh item earlier)
  · obtain rfl := List.mem_singleton.mp now
    exact Nat.lt_succ_self _

theorem Fresh.length_le (fresh : protocol.Fresh) (op : Op) :
    protocol.seqNumToWaitersMap.length ≤ (protocol.getMessageResult side op).seqNumToWaitersMap.length := by
  by_cases refused : protocol.refuses side op
  · have unchanged : protocol.getMessageResult side op = protocol := if_pos refused
    exact Nat.le_of_eq (by rw [unchanged])
  · rw [fresh.getMessageResult_eq (by simpa using refused)]
    simp

theorem Fresh.length_le_foldl (fresh : protocol.Fresh) (calls : List Op) :
    protocol.seqNumToWaitersMap.length ≤ (calls.foldl (Protocol.getMessageResult side) protocol).seqNumToWaitersMap.length := by
  induction calls generalizing protocol with
  | nil => exact Nat.le_refl _
  | cons op rest ih => exact Nat.le_trans (fresh.length_le op) (ih (fresh.getMessageResult op))

/-- One request that is not refused makes the map longer. -/
theorem Fresh.length_lt_foldl (fresh : protocol.Fresh) {calls : List Op}
    (sends : ∃ op ∈ calls, protocol.refuses side op = false) :
    protocol.seqNumToWaitersMap.length < (calls.foldl (Protocol.getMessageResult side) protocol).seqNumToWaitersMap.length := by
  induction calls generalizing protocol with
  | nil =>
    obtain ⟨_, called, _⟩ := sends
    cases called
  | cons op rest ih =>
    have after : (protocol.getMessageResult side op).Fresh := fresh.getMessageResult op
    by_cases refused : protocol.refuses side op
    · have unchanged : protocol.getMessageResult side op = protocol := if_pos refused
      obtain ⟨other, called, allowed⟩ := sends
      rw [List.foldl_cons, unchanged]
      rcases List.mem_cons.mp called with rfl | later
      · rw [refused] at allowed
        cases allowed
      · exact ih fresh ⟨other, later, allowed⟩
    · have longer : protocol.seqNumToWaitersMap.length < (protocol.getMessageResult side op).seqNumToWaitersMap.length := by
        rw [fresh.getMessageResult_eq (by simpa using refused)]
        simp
      exact Nat.lt_of_lt_of_le longer (after.length_le_foldl rest)

theorem fire_closed (protocol : Protocol ρ) (waiter : Nat) (outcome : Outcome ρ) (calls : List Op) :
    (protocol.fire side waiter outcome calls).closed = protocol.closed := by
  have kept : ∀ (resumed : Protocol ρ) op, resumed.closed = protocol.closed →
      (getMessageResult side resumed op).closed = protocol.closed :=
    fun _ op same => (getMessageResult_closed op).trans same
  exact foldl_of_call kept calls rfl

/-- A request sent by what the loop resumes stops it, with the map as it is. -/
theorem failAll_of_sent {reactions : Nat → List Op} {items : List (Nat × Nat)} (fresh : protocol.Fresh)
    (sends : ∃ item ∈ items, ∃ op ∈ reactions item.2, protocol.refuses side op = false) :
    (failAll side reactions protocol items).2 = false ∧
      (failAll side reactions protocol items).1.closed = protocol.closed ∧
      (failAll side reactions protocol items).1.seqNumToWaitersMap ≠ [] := by
  induction items generalizing protocol with
  | nil =>
    obtain ⟨_, listed, _⟩ := sends
    cases listed
  | cons item rest ih =>
    by_cases first : ∃ op ∈ reactions item.2, protocol.refuses side op = false
    · let before : Protocol ρ := { protocol with fired := protocol.fired ++ [(item.2, .connectionLost)] }
      have longer : protocol.seqNumToWaitersMap.length <
          (protocol.fire side item.2 .connectionLost (reactions item.2)).seqNumToWaitersMap.length :=
        Fresh.length_lt_foldl (show before.Fresh from fresh) first
      rw [failAll, if_neg (Nat.ne_of_gt longer)]
      exact ⟨rfl, fire_closed .., List.ne_nil_of_length_pos (Nat.zero_lt_of_lt longer)⟩
    · have refused : ∀ op ∈ reactions item.2, protocol.refuses side op := by
        intro op called
        by_contra allowed
        exact first ⟨op, called, by simpa using allowed⟩
      rw [failAll, fire_of_refused refused, if_pos rfl]
      obtain ⟨other, listed, op, called, allowed⟩ := sends
      rcases List.mem_cons.mp listed with rfl | later
      · exact absurd ⟨op, called, allowed⟩ first
      · exact ih fresh ⟨other, later, op, called, allowed⟩

theorem Sound.step_lost (sound : protocol.Sound side) (event : Event ρ) (sends : ¬ protocol.Quiet side event) :
    ¬ (protocol.step side event).1.Answers side := by
  intro answers
  cases event with
  | attach => exact sends trivial
  | response seqNumber answer calls => exact sends trivial
  | request op =>
    simp only [Quiet, Classical.not_imp] at sends
    obtain ⟨closed, allowed⟩ := sends
    have sent : (protocol.step side (.request op)).1.seqNumToWaitersMap ≠ [] := by
      simp only [Protocol.step, getMessageResult, allowed]
      exact setItem_ne_nil _ _ _
    exact sent (answers.nobody (by simpa [Protocol.step] using closed))
  | close reactions =>
    simp only [Quiet, Classical.not_imp, not_forall] at sends
    obtain ⟨running, item, listed, op, called, allowed⟩ := sends
    let closing : Protocol ρ := { protocol with closed := true }
    have sent : protocol.refuses side op = false := by simpa using allowed
    obtain ⟨stopped, closed, waits⟩ := failAll_of_sent (show closing.Fresh from sound.numbered.fresh)
      ⟨item, listed, op, called, sent⟩
    have left : (protocol.step side (.close reactions)).1 =
        (failAll side reactions closing protocol.seqNumToWaitersMap).1 := by
      simp only [Protocol.step, running]
      unfold Protocol.onClose
      cases walked : failAll side reactions closing protocol.seqNumToWaitersMap with
      | mk left ended =>
        rw [walked] at stopped
        subst stopped
        simp
    rw [left] at answers
    exact waits (answers.nobody closed)

/-- Every request of a run is answered exactly once, as long as what `onClose` resumes sends none, and none is sent
after it. -/
theorem requests_answered_iff (side : Side) (events : List (Event ρ)) :
    (Always (step side) (Hears side) (opened : Protocol ρ) events ∧
        ∀ past, past <+: events → (final (step side) opened past).Answers side) ↔
      Always (step side) (Quiet side) (opened : Protocol ρ) events := by
  have exactly := always_iff (fun _ event (sound : Sound side _) quiet => (sound.step event quiet).1)
    (fun _ event sound sends => sound.step_lost event sends) (fun _ sound => sound.answers)
    (opened_sound : (opened : Protocol ρ).Sound side) events
  constructor
  · rintro ⟨_, answers⟩
    exact exactly.mp answers
  · intro quiet
    refine ⟨?_, exactly.mpr quiet⟩
    have steps (protocol : Protocol ρ) event (sound : protocol.Sound side) (quiet : protocol.Quiet side event) :=
      sound.step event quiet
    exact always_of_always steps opened_sound quiet

/-- An upload that is lost, and closes its file when it hears of it, while another request waits. -/
def closesFile : List (Event Unit) :=
  [.request .updateUploadFileWrite, .request .update,
    .close fun waiter => if waiter = 0 then [.updateUploadFileClose] else []]

theorem closesFile_not_answered :
    ¬ (final (step .worker) opened closesFile).Answers .worker ∧
      (final (step .worker) opened closesFile).fired = [(0, .connectionLost)] := by
  refine ⟨fun answers => ?_, by decide⟩
  have nobody := answers.nobody (by decide)
  revert nobody
  decide

end Protocol

end Umbilical.Msgpack
