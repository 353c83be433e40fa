import Mathlib.Data.List.Perm.Basic
import Umbilical.Mq.Consumers

set_option autoImplicit false

/-!
# The delivery of messages

What a reference has been given and what is still on its way to it make up what has
been produced for it, as long as no callback disturbs a loop in progress.
-/

namespace Umbilical.Mq

open Interleaving

variable {κ γ δ : Type} [DecidableEq κ]

/-- Produced after the reference was made. -/
def QueueRef.late (value : QueueRef κ γ δ) (message : Message κ δ) : Bool := decide (value.since ≤ message.serial)

/-- A message for the reference: produced after the subscription, with a routing key that matches. -/
def QueueRef.wants (value : QueueRef κ γ δ) (message : Message κ δ) : Bool := value.late message && value.matches message

/-- What a loop in progress still has for a reference. -/
def Frame.pending (mq : SimpleMQ κ γ δ) (qref : Nat) : Frame κ δ → List (Message κ δ)
  | .produce message next =>
      if qref ∈ mq.qrefs.drop next ∧ (mq.refs qref).wants message then [message] else []
  | .startConsuming other missed => if other = qref then missed.filter (mq.refs qref).late else []

def pending (mq : SimpleMQ κ γ δ) (qref : Nat) (stack : List (Frame κ δ)) : List (Message κ δ) :=
  stack.flatMap (Frame.pending mq qref)

/-- What has not been given to a reference yet, oldest first. -/
def World.backlog (world : World κ γ δ) (qref : Nat) : List (Message κ δ) :=
  (world.mq.refs qref).queue.filter (world.mq.refs qref).late ++ pending world.mq qref world.stack

/-- The messages that the callbacks of a reference were invoked with, without those of a `produce` that
had begun before the subscription. -/
def delivered (qref since : Nat) (past : List (Observation κ γ δ)) : List (Message κ δ) :=
  past.filterMap fun
    | .invoked message other _ => if other = qref ∧ since ≤ message.serial then some message else none
    | _ => none

def productions (past : List (Observation κ γ δ)) : List (Message κ δ) :=
  past.filterMap fun
    | .produced message => some message
    | _ => none

/-- The messages produced for a reference since it was made. -/
def expected (value : QueueRef κ γ δ) (past : List (Observation κ γ δ)) : List (Message κ δ) :=
  (productions past).filter value.wants

/-- How often a reference was invoked for one call of `produce`. -/
def invocations (qref serial : Nat) (past : List (Observation κ γ δ)) : Nat :=
  past.countP fun
    | .invoked message other _ => other == qref && message.serial == serial
    | _ => false

/-- What a step must not do for the deliveries to be right. -/
def World.Undisturbed (world : World κ γ δ) : Event κ γ δ → Prop
  | .produce routingKey _ =>
      -- not overtake a message on its way to a persistent consumer
      world.running → ∀ qref < world.mq.created, (world.mq.refs qref).persistent →
        matchTuple routingKey (world.mq.refs qref).filter → pending world.mq qref world.stack = []
  | .stopConsuming qref =>
      -- not move a consumer that a loop is about to come to over to where the loop has been
      world.running → (world.mq.refs qref).persistent = false → qref ∈ world.mq.qrefs →
        ∀ message next, .produce message next ∈ world.stack → world.mq.qrefs.idxOf qref < next →
          ∀ skipped, world.mq.qrefs[next]? = some skipped → ¬ (world.mq.refs skipped).wants message
  | _ => True

/-! ## One step -/

section Pending

variable {mq mq' : SimpleMQ κ γ δ} {qref : Nat}

theorem wants_congr {value value' : QueueRef κ γ δ} (since : value'.since = value.since)
    (filter : value'.filter = value.filter) (message : Message κ δ) : value'.wants message = value.wants message := by
  simp only [QueueRef.wants, QueueRef.late, QueueRef.matches, since, filter]

omit [DecidableEq κ] in
theorem late_congr {value value' : QueueRef κ γ δ} (since : value'.since = value.since) : value'.late = value.late := by
  funext message
  simp only [QueueRef.late, since]

/-- What is on its way stays so while the loops see the same rest of the list. -/
theorem pending_congr (since : (mq'.refs qref).since = (mq.refs qref).since)
    (filter : (mq'.refs qref).filter = (mq.refs qref).filter) {stack : List (Frame κ δ)}
    (ahead : ∀ message next, .produce message next ∈ stack → (mq.refs qref).wants message →
      (qref ∈ mq'.qrefs.drop next ↔ qref ∈ mq.qrefs.drop next)) :
    pending mq' qref stack = pending mq qref stack := by
  unfold pending
  refine List.flatMap_congr fun frame member => ?_
  cases frame with
  | produce message next =>
    simp only [Frame.pending, wants_congr since filter]
    by_cases wanted : (mq.refs qref).wants message
    · simp only [ahead message next member wanted]
    · simp [wanted]
  | startConsuming other missed => simp only [Frame.pending, late_congr since]

/-- The message that a loop comes to was the first of those on their way to its reference. -/
theorem pending_takes (distinct : mq.qrefs.Nodup) {target : Nat} {message : Message κ δ}
    {stack before : List (Frame κ δ)} (takes : Takes mq target message stack before) :
    pending mq qref before =
      (if target = qref ∧ (mq.refs qref).late message then [message] else []) ++ pending mq qref stack := by
  cases takes with
  | @produce next below position matched left =>
    subst left
    simp only [pending, List.flatMap_cons, ← List.append_assoc]
    congr 1
    have now : qref ∈ mq.qrefs.drop next ↔ _ := mem_drop_succ position
    by_cases same : target = qref
    · subst same
      have after := not_mem_drop_succ distinct position
      simp [Frame.pending, QueueRef.wants, now, after, matched]
    · have other : qref ≠ target := fun equal => same equal.symm
      simp only [Frame.pending, now, other, false_or, same, false_and, if_false, List.nil_append]
  | @startConsuming missed below left =>
    subst left
    simp only [pending, List.flatMap_cons, ← List.append_assoc]
    congr 1
    by_cases same : target = qref
    · by_cases late : (mq.refs qref).late message <;> simp [Frame.pending, same, late]
    · simp [Frame.pending, same]

/-- A loop that comes to a reference that does not match leaves everything on its way. -/
theorem pending_passes {target next : Nat} {message : Message κ δ} {below : List (Frame κ δ)}
    (position : mq.qrefs[next]? = some target) (unmatched : (mq.refs target).matches message = false) :
    pending mq qref (.produce message (next + 1) :: below) = pending mq qref (.produce message next :: below) := by
  simp only [pending, List.flatMap_cons]
  congr 1
  have now : qref ∈ mq.qrefs.drop next ↔ _ := mem_drop_succ position
  by_cases same : qref = target
  · subst same
    simp [Frame.pending, QueueRef.wants, unmatched]
  · simp only [Frame.pending, now, same, false_or]

theorem pending_ended {next : Nat} {message : Message κ δ} {below : List (Frame κ δ)} (position : mq.qrefs[next]? = none) :
    pending mq qref (.produce message next :: below) = pending mq qref below := by
  have nothing : mq.qrefs.drop next = [] := List.drop_eq_nil_of_le (List.getElem?_eq_none_iff.mp position)
  simp [pending, Frame.pending, nothing]

end Pending

namespace World

variable {world : World κ γ δ}

/-- What a reference has been given, and then what it is still to be given. -/
def account (world : World κ γ δ) (past : List (Observation κ γ δ)) (qref : Nat) : List (Message κ δ) :=
  delivered qref (world.mq.refs qref).since past ++ world.backlog qref

/-- A removal by user code keeps what is on its way to the references that stay. -/
theorem pending_stops (sound : world.Sound) {removed qref : Nat} (running : world.running)
    (undisturbed : world.Undisturbed (.stopConsuming removed)) (known : qref < world.mq.created)
    (stays : (world.mq.refs qref).persistent ∨ qref ∈ (world.mq.stopConsuming removed).qrefs) :
    pending (world.mq.stopConsuming removed) qref world.stack = pending world.mq qref world.stack := by
  have follows : world.mq.Follows (world.mq.stopConsuming removed) := SimpleMQ.follows_stopConsuming removed
  refine pending_congr (follows.since qref known) (follows.filter qref known) ?_
  intro message next member wanted
  cases kind : (world.mq.refs removed).persistent with
  | true =>
    have same : (world.mq.stopConsuming removed).qrefs = world.mq.qrefs := by
      simp [SimpleMQ.stopConsuming, SimpleMQ.update, kind]
    rw [same]
  | false =>
    have shorter : (world.mq.stopConsuming removed).qrefs = world.mq.qrefs.erase removed := by
      simp [SimpleMQ.stopConsuming, SimpleMQ.update, kind]
    rw [shorter] at stays ⊢
    have different : qref ≠ removed := by
      rintro rfl
      rcases stays with lasting | member
      · simp [kind] at lasting
      · exact absurd member sound.whole.distinct.not_mem_erase
    refine ⟨mem_drop_of_erase, fun ahead => ?_⟩
    rcases mem_drop_erase ahead different with kept | ⟨before, skipped⟩
    · exact kept
    -- it would be skipped, and the condition leaves that to references that do not want the message
    by_cases listed : removed ∈ world.mq.qrefs
    · exact absurd wanted (undisturbed running kind listed message next member before qref skipped)
    · rw [List.erase_of_not_mem listed]
      exact ahead

variable {past : List (Observation κ γ δ)} {event : Event κ γ δ} {after : World κ γ δ}
  {shown : List (Observation κ γ δ)}

omit [DecidableEq κ] in
theorem delivered_append (qref since : Nat) : delivered qref since (past ++ shown) =
    delivered qref since past ++ delivered qref since shown := List.filterMap_append

theorem expected_append (value : QueueRef κ γ δ) :
    expected value (past ++ shown) = expected value past ++ expected value shown := by
  simp [expected, productions, List.filterMap_append, List.filter_append]

/-- A step without a call of `produce` only moves messages from the backlog of a reference to its callbacks. -/
theorem Effect.account_eq (effect : world.Effect event after shown) (sound : world.Sound)
    (undisturbed : world.Undisturbed event) (quiet : ∀ message, .produced message ∉ shown) {qref : Nat}
    (known : qref < world.mq.created) (stays : (world.mq.refs qref).persistent ∨ qref ∈ after.mq.qrefs) :
    after.account (past ++ shown) qref = world.account past qref := by
  have follows := effect.follows
  have since := follows.since qref known
  unfold account
  rw [since, delivered_append, List.append_assoc]
  congr 1
  unfold backlog
  rw [late_congr since]
  cases effect with
  | resumes event running => rfl
  | produces => exact absurd List.mem_cons_self (quiet _)
  | restarts event target callback _ lasting =>
    have ahead : pending (world.restart target callback).mq qref world.stack = pending world.mq qref world.stack :=
      pending_congr since (follows.filter qref known) fun _ _ _ _ => Iff.rfl
    change _ ++ (_ ++ pending _ qref (.startConsuming target _ :: world.stack)) = _
    rw [pending, List.flatMap_cons, ← pending, ahead]
    by_cases same : target = qref
    · subst same
      -- the queue has become the loop that starts
      simp only [delivered, restart, Frame.pending, SimpleMQ.update_self, if_true, List.filterMap_nil, List.filter_nil,
        List.nil_append]
      rfl
    · have other : qref ≠ target := fun equal => same equal.symm
      simp [delivered, restart, Frame.pending, same, SimpleMQ.update_of_ne other]
  | subscribes event value names =>
    have unchanged : ({ world.mq.append value with persistent_qrefs := names }).refs qref = world.mq.refs qref :=
      SimpleMQ.append_of_lt known value
    have ahead : pending { world.mq.append value with persistent_qrefs := names } qref world.stack =
        pending world.mq qref world.stack := by
      refine pending_congr since (follows.filter qref known) fun _ _ _ _ => ?_
      exact mem_drop_append (Nat.ne_of_lt known)
    change _ ++ ((({ world.mq.append value with persistent_qrefs := names }).refs qref).queue.filter _ ++ _) = _
    rw [unchanged, ahead]
    rfl
  | stops target running _ =>
    have queue : ((world.mq.stopConsuming target).refs qref).queue = (world.mq.refs qref).queue := by
      unfold SimpleMQ.stopConsuming
      by_cases same : qref = target
      · subst same
        split <;> simp
      · split <;> simp [SimpleMQ.update_of_ne same]
    change _ ++ (((world.mq.stopConsuming target).refs qref).queue.filter _ ++ _) = _
    rw [queue, pending_stops sound running undisturbed known stays]
    rfl
  | returns event message next below stack position =>
    rw [stack, pending_ended position]
    rfl
  | passes event message next target below stack position unmatched =>
    rw [stack, ← pending_passes position unmatched]
    rfl
  | drained event target below stack =>
    rw [stack]
    simp [delivered, pending, Frame.pending]
  | delivers event target message callback stack takes active =>
    rw [pending_takes sound.whole.distinct takes]
    by_cases taken : target = qref ∧ (world.mq.refs qref).late message
    · obtain ⟨rfl, late⟩ := taken
      have recent : (world.mq.refs target).since ≤ message.serial := by simpa [QueueRef.late] using late
      have empty : (world.mq.refs target).queue = [] := sound.whole.awake target (by simp [active])
      simp [delivered, recent, late, empty]
    · have silent : delivered qref (world.mq.refs qref).since [.invoked message target callback] = [] := by
        have not : ¬ (target = qref ∧ (world.mq.refs qref).since ≤ message.serial) := by
          simpa [QueueRef.late] using taken
        simp [delivered, not]
      rw [silent, if_neg taken]
      rfl
  | queues event target message stack takes inactive lasting =>
    have ahead : pending (world.mq.addToQueue target message) qref stack = pending world.mq qref stack :=
      pending_congr since (follows.filter qref known) fun _ _ _ _ => Iff.rfl
    change _ ++ (_ ++ pending (world.mq.addToQueue target message) qref stack) = _
    rw [ahead, pending_takes sound.whole.distinct takes]
    by_cases same : target = qref
    · subst same
      by_cases late : (world.mq.refs target).late message <;>
        simp [delivered, SimpleMQ.addToQueue, List.filter_append, late]
    · have other : qref ≠ target := fun equal => same equal.symm
      simp [delivered, SimpleMQ.addToQueue, SimpleMQ.update_of_ne other, same]

/-- A call of `produce` puts its message before what is on its way to a subscribed reference. -/
theorem account_produce (routingKey : List κ) (data : δ) {qref : Nat}
    (listed : qref ∈ world.mq.qrefs) :
    (world.produce routingKey data).1.account (past ++ [.produced ⟨world.produced, routingKey, data⟩]) qref =
      delivered qref (world.mq.refs qref).since past ++ ((world.mq.refs qref).queue.filter (world.mq.refs qref).late ++
        (expected (world.mq.refs qref) [.produced (γ := γ) ⟨world.produced, routingKey, data⟩] ++
          pending world.mq qref world.stack)) := by
  have silent : delivered qref (world.mq.refs qref).since
      [.produced (γ := γ) ⟨world.produced, routingKey, data⟩] = [] := rfl
  change delivered qref (world.mq.refs qref).since _ ++ ((world.mq.refs qref).queue.filter (world.mq.refs qref).late ++
    pending world.mq qref (.produce _ 0 :: world.stack)) = _
  rw [delivered_append, silent, List.append_nil, pending, List.flatMap_cons, ← pending]
  by_cases wanted : (world.mq.refs qref).wants ⟨world.produced, routingKey, data⟩ <;>
    simp [Frame.pending, expected, productions, listed, wanted]

end World

end Umbilical.Mq
