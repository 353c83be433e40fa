import Mathlib.Data.List.Nodup
import Mathlib.Logic.Function.Basic
import Mathlib.Order.Basic
import Mathlib.Order.Lattice

set_option autoImplicit false

/-!
# Delayed calls

A call is pending until it is cancelled or made. Only as long as it is pending can it be
cancelled or reset.
-/

namespace Umbilical

structure DelayedCall (τ κ : Type) where
  id : Nat
  time : τ
  call : κ

structure Reactor (τ κ : Type) where
  seconds : τ
  created : Nat
  pending : List (DelayedCall τ κ)
  distinct : (pending.map (·.id)).Nodup
  issued : ∀ later ∈ pending, later.id < created

namespace Reactor

variable {τ κ : Type}

def init (seconds : τ) : Reactor τ κ where
  seconds := seconds
  created := 0
  pending := []
  distinct := List.nodup_nil
  issued := nofun

/-- The reactor after the call, and what stands for the `DelayedCall` that is returned. -/
def callLater [Add τ] (reactor : Reactor τ κ) (delay : τ) (call : κ) : Reactor τ κ × Nat :=
  ({ seconds := reactor.seconds
     created := reactor.created + 1
     pending := ⟨reactor.created, reactor.seconds + delay, call⟩ :: reactor.pending
     distinct := by
       rw [List.map_cons, List.nodup_cons]
       refine ⟨fun member => ?_, reactor.distinct⟩
       obtain ⟨later, pends, same⟩ := List.mem_map.mp member
       exact absurd (reactor.issued later pends) (by simp [same])
     issued := by
       intro later member
       rcases List.mem_cons.mp member with rfl | old
       · exact Nat.lt_succ_self _
       · exact Nat.lt_succ_of_lt (reactor.issued later old) }, reactor.created)

def without (reactor : Reactor τ κ) (id : Nat) : Reactor τ κ where
  seconds := reactor.seconds
  created := reactor.created
  pending := reactor.pending.filter (·.id ≠ id)
  distinct := reactor.distinct.sublist (List.filter_sublist.map _)
  issued later member := reactor.issued later (List.mem_of_mem_filter member)

/-- `none` is an error, as the call has been cancelled or made. -/
def cancel (reactor : Reactor τ κ) (id : Nat) : Option (Reactor τ κ) :=
  if id ∈ reactor.pending.map (·.id) then some (reactor.without id) else none

def postpone [Add τ] (reactor : Reactor τ κ) (id : Nat) (delay : τ) : Reactor τ κ where
  seconds := reactor.seconds
  created := reactor.created
  pending := reactor.pending.map fun later =>
    if later.id = id then { later with time := reactor.seconds + delay } else later
  distinct := by
    have ids : (reactor.pending.map fun later =>
        if later.id = id then { later with time := reactor.seconds + delay } else later).map (·.id) =
        reactor.pending.map (·.id) := by
      rw [List.map_map]
      refine List.map_congr_left fun later _ => ?_
      by_cases here : later.id = id <;> simp [here]
    rw [ids]
    exact reactor.distinct
  issued := by
    intro later member
    obtain ⟨old, pends, rfl⟩ := List.mem_map.mp member
    have issued := reactor.issued old pends
    by_cases here : old.id = id <;> simpa [here] using issued

def reset [Add τ] (reactor : Reactor τ κ) (id : Nat) (delay : τ) : Option (Reactor τ κ) :=
  if id ∈ reactor.pending.map (·.id) then some (reactor.postpone id delay) else none

def getTime (reactor : Reactor τ κ) (id : Nat) : Option τ :=
  (reactor.pending.find? (·.id = id)).map (·.time)

/-- The reactor makes a call that is due. -/
def expire [LinearOrder τ] (reactor : Reactor τ κ) (id : Nat) : Option (κ × Reactor τ κ) :=
  (reactor.pending.find? fun later => later.id = id ∧ later.time ≤ reactor.seconds).map fun later =>
    (later.call, reactor.without id)

def advance [LinearOrder τ] (reactor : Reactor τ κ) (seconds : τ) : Reactor τ κ :=
  { reactor with seconds := max reactor.seconds seconds }

/-! ## Calls that are kept in fields -/

variable [DecidableEq κ]

def waiting (reactor : Reactor τ κ) (call : κ) : List Nat := (reactor.pending.filter (·.call = call)).map (·.id)

/-- The pending calls are the ones in the fields, at most one of a kind. -/
def Held (reactor : Reactor τ κ) (fields : κ → Option Nat) : Prop := ∀ call, reactor.waiting call = (fields call).toList

variable {reactor next : Reactor τ κ} {fields : κ → Option Nat} {call : κ} {id : Nat}

theorem mem_waiting : id ∈ reactor.waiting call ↔ ∃ later ∈ reactor.pending, later.call = call ∧ later.id = id := by
  simp [waiting, and_assoc]

theorem waiting_without (other : κ) : (reactor.without id).waiting other = (reactor.waiting other).filter (· ≠ id) := by
  simp only [waiting, without, List.filter_map, List.filter_filter]
  congr 1
  apply List.filter_congr
  intro later _
  exact Bool.and_comm _ _

theorem waiting_postpone [Add τ] (delay : τ) (other : κ) :
    (reactor.postpone id delay).waiting other = reactor.waiting other := by
  simp only [waiting, postpone]
  induction reactor.pending with
  | nil => rfl
  | cons later rest ih =>
    by_cases here : later.id = id <;> by_cases same : later.call = other <;> simp_all

theorem Held.fields_of_mem (held : reactor.Held fields) {later : DelayedCall τ κ} (pends : later ∈ reactor.pending) :
    fields later.call = some later.id := by
  have waits : later.id ∈ reactor.waiting later.call := mem_waiting.mpr ⟨later, pends, rfl, rfl⟩
  rw [held] at waits
  exact Option.mem_toList.mp waits

theorem Held.mem (held : reactor.Held fields) (call : κ) (field : fields call = some id) :
    id ∈ reactor.pending.map (·.id) := by
  have waits : id ∈ reactor.waiting call := by simp [held call, field]
  obtain ⟨later, pends, _, same⟩ := mem_waiting.mp waits
  exact List.mem_map.mpr ⟨later, pends, same⟩

/-- A call is in one field only. -/
theorem Held.unique (held : reactor.Held fields) {other : κ} (field : fields call = some id)
    (same : fields other = some id) : other = call := by
  have first : id ∈ reactor.waiting call := by simp [held call, field]
  have second : id ∈ reactor.waiting other := by simp [held other, same]
  obtain ⟨one, pends, rfl, rfl⟩ := mem_waiting.mp first
  obtain ⟨two, also, rfl, equal⟩ := mem_waiting.mp second
  rw [List.inj_on_of_nodup_map reactor.distinct also pends equal]

theorem Held.callLater [Add τ] (held : reactor.Held fields) (call : κ) (free : fields call = none) (delay : τ) :
    (reactor.callLater delay call).1.Held (Function.update fields call (some reactor.created)) := by
  intro other
  by_cases same : call = other
  · subst same
    have before := held call
    rw [free] at before
    simpa [waiting, Reactor.callLater] using before
  · rw [Function.update_of_ne (Ne.symm same)]
    simpa [waiting, Reactor.callLater, same] using held other

theorem Held.without (held : reactor.Held fields) (call : κ) (field : fields call = some id) :
    (reactor.without id).Held (Function.update fields call none) := by
  intro other
  rw [waiting_without, held other]
  by_cases same : other = call
  · subst same
    simp [field]
  · rw [Function.update_of_ne same, List.filter_eq_self]
    intro later member
    rw [Option.mem_toList] at member
    simpa using fun equal : later = id => same (held.unique field (equal ▸ member))

theorem Held.cancel (held : reactor.Held fields) (call : κ) (field : fields call = some id) :
    reactor.cancel id = some (reactor.without id) := if_pos (held.mem call field)

theorem Held.reset [Add τ] (held : reactor.Held fields) (call : κ) (field : fields call = some id) (delay : τ) :
    reactor.reset id delay = some (reactor.postpone id delay) := if_pos (held.mem call field)

theorem Held.postpone [Add τ] (held : reactor.Held fields) (delay : τ) : (reactor.postpone id delay).Held fields := by
  intro other
  rw [waiting_postpone, held other]

theorem Held.getTime (held : reactor.Held fields) (call : κ) (field : fields call = some id) : ∃ time, reactor.getTime id = some time := by
  obtain ⟨later, pends, same⟩ := List.mem_map.mp (held.mem call field)
  cases found : reactor.pending.find? (·.id = id) with
  | none => exact absurd same (by simpa using List.find?_eq_none.mp found later pends)
  | some other => exact ⟨other.time, by rw [Reactor.getTime, found]; rfl⟩

theorem Held.expire [LinearOrder τ] (held : reactor.Held fields) (made : reactor.expire id = some (call, next)) :
    fields call = some id ∧ next = reactor.without id := by
  obtain ⟨later, found, same⟩ := Option.map_eq_some_iff.mp made
  obtain ⟨rfl, rfl⟩ := Prod.mk.inj same
  have due := List.find?_some found
  simp only [decide_eq_true_eq] at due
  refine ⟨?_, rfl⟩
  rw [held.fields_of_mem (List.mem_of_find?_eq_some found), due.1]

theorem held_init (seconds : τ) : (init seconds : Reactor τ κ).Held fun _ => none := fun _ => rfl

theorem Held.advance [LinearOrder τ] (held : reactor.Held fields) (seconds : τ) : (reactor.advance seconds).Held fields := held

theorem Held.pending_eq_nil (held : reactor.Held fields) (free : ∀ call, fields call = none) : reactor.pending = [] := by
  apply List.eq_nil_iff_forall_not_mem.mpr
  intro later pends
  simpa [free] using held.fields_of_mem pends

/-! ## Calls of one kind -/

section Only

variable {reactor : Reactor τ Unit} {field : Option Nat}

theorem update_unit (fields : Unit → Option Nat) (value : Option Nat) :
    Function.update fields () value = fun _ => value := by
  funext call
  cases call
  simp

theorem Held.callLater_only [Add τ] (held : reactor.Held fun _ => field) (free : field = none) (delay : τ) :
    (reactor.callLater delay ()).1.Held fun _ => some reactor.created := by
  have placed := held.callLater () free delay
  rwa [update_unit] at placed

theorem Held.without_only {id : Nat} (held : reactor.Held fun _ => field) (same : field = some id) :
    (reactor.without id).Held fun _ => none := by
  have removed := held.without () same
  rwa [update_unit] at removed

theorem Held.length_pending (held : reactor.Held fun _ => field) :
    reactor.pending.length = field.toList.length := by
  rw [← held ()]
  simp [waiting]

end Only

end Reactor

end Umbilical
