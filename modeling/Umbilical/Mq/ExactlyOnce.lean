import Umbilical.Mq.Delivery

set_option autoImplicit false

/-!
# Delivery exactly once

In every run without a removal or a nested `produce` that disturbs a loop in progress,
every message is given once to every consumer that it is for, and to a persistent
consumer in the order of the calls of `produce`.
-/

namespace Umbilical.Mq

open Interleaving

variable {κ γ δ : Type} [DecidableEq κ]

def Frame.message : Frame κ δ → Option (Message κ δ)
  | .produce message _ => some message
  | .startConsuming _ _ => none

omit [DecidableEq κ] in
@[simp] theorem mem_productions {past : List (Observation κ γ δ)} {message : Message κ δ} :
    message ∈ productions past ↔ .produced message ∈ past := by
  unfold productions
  rw [List.mem_filterMap]
  constructor
  · rintro ⟨observed, member, same⟩
    cases observed <;> simp at same
    rwa [← same]
  · intro member
    exact ⟨_, member, rfl⟩

omit [DecidableEq κ] in
theorem mem_messages {stack : List (Frame κ δ)} {message : Message κ δ} :
    message ∈ stack.filterMap Frame.message ↔ ∃ next, .produce message next ∈ stack := by
  rw [List.mem_filterMap]
  constructor
  · rintro ⟨frame, member, same⟩
    cases frame with
    | produce other next =>
      obtain rfl : other = message := by simpa [Frame.message] using same
      exact ⟨next, member⟩
    | startConsuming => simp [Frame.message] at same
  · rintro ⟨next, member⟩
    exact ⟨_, member, rfl⟩

theorem Takes.messages {mq : SimpleMQ κ γ δ} {qref : Nat} {message : Message κ δ} {stack before : List (Frame κ δ)}
    (takes : Takes mq qref message stack before) :
    stack.filterMap Frame.message = before.filterMap Frame.message := by
  cases takes with
  | produce _ _ left => rw [left]; rfl
  | startConsuming left => rw [left]; rfl

namespace World

variable {world : World κ γ δ} {event : Event κ γ δ} {after : World κ γ δ} {past shown : List (Observation κ γ δ)}

/-- What has been observed agrees with the state. -/
structure Recorded (world : World κ γ δ) (past : List (Observation κ γ δ)) : Prop where
  numbered : ∀ message, .produced message ∈ past → message.serial < world.produced
  distinct : (productions past).Pairwise (·.serial < ·.serial)
  going : ∀ message ∈ world.stack.filterMap Frame.message, .produced message ∈ past ∧ .returned message ∉ past
  nested : (world.stack.filterMap Frame.message).Pairwise fun inner outer => outer.serial < inner.serial
  ended : ∀ message, .returned message ∈ past → .produced message ∈ past
  invoked : ∀ message qref callback, .invoked message qref callback ∈ past → qref < world.mq.created ∧
    ((world.mq.refs qref).persistent = false → message.serial < world.produced)
  stopped : ∀ qref, .stopped qref ∈ past → qref < world.mq.created ∧
    ((world.mq.refs qref).persistent = false → qref ∉ world.mq.qrefs)
  gone : ∀ qref < world.mq.created, (world.mq.refs qref).persistent = false → qref ∉ world.mq.qrefs →
    .stopped qref ∈ past
  silent : past.Pairwise fun earlier later => ∀ message qref callback, earlier = .stopped qref →
    later = .invoked message qref callback → (world.mq.refs qref).persistent

omit [DecidableEq κ] in
theorem start_recorded : (start : World κ γ δ).Recorded [] :=
  ⟨nofun, .nil, nofun, .nil, nofun, nofun, nofun, nofun, .nil⟩

/-! ## What a step shows -/

theorem Effect.produced_le (effect : world.Effect event after shown) : world.produced ≤ after.produced := by
  cases effect <;> first | exact Nat.le_refl _ | exact Nat.le_succ _

theorem Effect.production (effect : world.Effect event after shown) :
    productions shown = [] ∨ ∃ message, shown = [.produced message] ∧ message.serial = world.produced ∧
      after.produced = world.produced + 1 := by
  cases effect with
  | produces routingKey data => exact .inr ⟨_, rfl, rfl, rfl⟩
  | _ => exact .inl rfl

/-- The calls of `produce` that are in progress after a step. -/
theorem Effect.messages (effect : world.Effect event after shown) :
    (∃ message, shown = [.produced message] ∧ message.serial = world.produced ∧
      after.stack.filterMap Frame.message = message :: world.stack.filterMap Frame.message) ∨
    (∃ message, shown = [.returned message] ∧
      world.stack.filterMap Frame.message = message :: after.stack.filterMap Frame.message) ∨
    after.stack.filterMap Frame.message = world.stack.filterMap Frame.message ∧
      (∀ message, .returned message ∉ shown) := by
  cases effect with
  | produces routingKey data => exact .inl ⟨_, rfl, rfl, rfl⟩
  | returns _ message next below stack => exact .inr (.inl ⟨message, rfl, by simp [stack, Frame.message]⟩)
  | resumes | subscribes | stops => exact .inr (.inr ⟨rfl, by simp⟩)
  | restarts => exact .inr (.inr ⟨rfl, by simp⟩)
  | passes _ message next _ below stack => exact .inr (.inr ⟨by simp [stack, Frame.message], by simp⟩)
  | drained _ qref below stack => exact .inr (.inr ⟨by rw [stack]; rfl, by simp⟩)
  | delivers _ qref message callback stack takes => exact .inr (.inr ⟨takes.messages, by simp⟩)
  | queues _ qref message stack takes => exact .inr (.inr ⟨takes.messages, by simp⟩)

theorem Effect.invocation (effect : world.Effect event after shown) (sound : world.Sound) {message : Message κ δ}
    {qref : Nat} {callback : γ} (member : .invoked message qref callback ∈ shown) :
    qref < world.mq.created ∧ (world.mq.refs qref).callback.isSome ∧
      ((world.mq.refs qref).persistent = false → message.serial < world.produced) := by
  cases effect with
  | delivers _ target taken called stack takes active =>
    obtain ⟨rfl, rfl, rfl⟩ : message = taken ∧ qref = target ∧ callback = called := by simpa using member
    refine ⟨?_, by simp [active], ?_⟩
    · cases before : world.stack with
      | nil => rw [before] at takes; cases takes
      | cons frame below =>
        rw [before] at takes
        cases takes with
        | produce position => exact sound.whole.known qref (List.mem_of_getElem? position)
        | startConsuming => exact (sound.draining qref _ (before ▸ List.mem_cons_self)).1
    · intro plain
      cases before : world.stack with
      | nil => rw [before] at takes; cases takes
      | cons frame below =>
        rw [before] at takes
        cases takes with
        | produce => exact sound.numbered message _ (before ▸ List.mem_cons_self)
        | startConsuming =>
          have lasting := (sound.draining qref _ (before ▸ List.mem_cons_self)).2
          simp [plain] at lasting
  | _ => simp at member

/-- Who is on the list after a step. -/
theorem Effect.listed (effect : world.Effect event after shown) (sound : world.Sound) {qref : Nat} :
    (.stopped qref ∈ shown → qref < world.mq.created ∧
      ((world.mq.refs qref).persistent = false → qref ∉ after.mq.qrefs)) ∧
    (qref < world.mq.created → qref ∉ world.mq.qrefs → qref ∉ after.mq.qrefs) ∧
    (qref < after.mq.created → qref ∉ after.mq.qrefs →
      qref < world.mq.created ∧ (qref ∉ world.mq.qrefs ∨ .stopped qref ∈ shown)) := by
  cases effect with
  | subscribes event value =>
    refine ⟨nofun, ?_, ?_⟩
    · intro known absent member
      rcases List.mem_append.mp member with old | new
      · exact absent old
      · exact Nat.ne_of_lt known (List.mem_singleton.mp new)
    · intro known absent
      have different : qref ≠ world.mq.created := by
        rintro rfl
        exact absent (List.mem_append_right _ (List.mem_singleton_self _))
      exact ⟨Nat.lt_of_le_of_ne (Nat.le_of_lt_succ known) different,
        .inl fun member => absent (List.mem_append_left _ member)⟩
  | stops target running known =>
    cases kind : (world.mq.refs target).persistent with
    | true =>
      simp only [SimpleMQ.stopConsuming, SimpleMQ.update, kind, if_true]
      refine ⟨?_, fun _ absent => absent, fun known absent => ⟨known, .inl absent⟩⟩
      intro member
      obtain rfl : qref = target := by simpa using member
      exact ⟨known, fun plain => by simp [kind] at plain⟩
    | false =>
      simp only [SimpleMQ.stopConsuming, SimpleMQ.update, kind, Bool.false_eq_true, if_false]
      refine ⟨?_, fun _ absent member => absent (List.mem_of_mem_erase member), ?_⟩
      · intro member
        obtain rfl : qref = target := by simpa using member
        exact ⟨known, fun _ => sound.whole.distinct.not_mem_erase⟩
      · intro known absent
        refine ⟨known, ?_⟩
        by_cases same : qref = target
        · exact .inr (by simp [same])
        · exact .inl fun member => absent ((List.mem_erase_of_ne same).mpr member)
  | produces | delivers | returns => exact ⟨by simp, fun _ absent => absent, fun known absent => ⟨known, .inl absent⟩⟩
  | _ => exact ⟨nofun, fun _ absent => absent, fun known absent => ⟨known, .inl absent⟩⟩

theorem Recorded.step (recorded : world.Recorded past) (sound : world.Sound)
    (effect : world.Effect event after shown) : after.Recorded (past ++ shown) := by
  have follows := effect.follows
  have made {message : Message κ δ} (member : .produced message ∈ shown) :
      shown = [.produced message] ∧ message.serial = world.produced ∧ after.produced = world.produced + 1 := by
    rcases effect.production with nothing | ⟨new, single, number, next⟩
    · exact absurd (mem_productions.mpr member) (by simp [nothing])
    · obtain rfl : message = new := by simpa [single] using member
      exact ⟨single, number, next⟩
  refine ⟨?_, ?_, ?_, ?_, ?_, ?_, ?_, ?_, ?_⟩
  · intro message member
    rcases List.mem_append.mp member with old | new
    · exact Nat.lt_of_lt_of_le (recorded.numbered message old) effect.produced_le
    · obtain ⟨_, number, next⟩ := made new
      rw [number, next]
      exact Nat.lt_succ_self _
  · have split : productions (past ++ shown) = productions past ++ productions shown := List.filterMap_append
    rw [split]
    refine List.pairwise_append.mpr ⟨recorded.distinct, ?_, ?_⟩
    · rcases effect.production with nothing | ⟨new, single, _⟩
      · rw [nothing]
        exact .nil
      · rw [single]
        exact List.pairwise_singleton _ _
    · intro earlier old later new
      rw [(made (mem_productions.mp new)).2.1]
      exact recorded.numbered earlier (mem_productions.mp old)
  · intro message member
    rcases effect.messages with ⟨new, single, number, stack⟩ | ⟨last, single, stack⟩ | ⟨stack, silent⟩
    · rw [stack] at member
      rcases List.mem_cons.mp member with rfl | member
      · refine ⟨List.mem_append_right _ (by simp [single]), fun returned => ?_⟩
        rcases List.mem_append.mp returned with old | late
        · have := recorded.numbered message (recorded.ended message old)
          exact Nat.lt_irrefl _ (number ▸ this)
        · simp [single] at late
      · obtain ⟨produced, going⟩ := recorded.going message member
        exact ⟨List.mem_append_left _ produced, by simp [single, going]⟩
    · have inside : message ∈ world.stack.filterMap Frame.message := stack ▸ List.mem_cons_of_mem last member
      obtain ⟨produced, going⟩ := recorded.going message inside
      -- the loop that has returned is another one
      have outer : message.serial < last.serial := (List.pairwise_cons.mp (stack ▸ recorded.nested)).1 message member
      have different : message ≠ last := fun same => Nat.lt_irrefl _ (same ▸ outer)
      exact ⟨List.mem_append_left _ produced, by simp [single, going, different]⟩
    · obtain ⟨produced, going⟩ := recorded.going message (stack ▸ member)
      exact ⟨List.mem_append_left _ produced, by simp [going, silent message]⟩
  · rcases effect.messages with ⟨new, single, number, stack⟩ | ⟨last, single, stack⟩ | ⟨stack, silent⟩
    · rw [stack]
      refine List.pairwise_cons.mpr ⟨fun outer member => ?_, recorded.nested⟩
      rw [number]
      exact recorded.numbered outer (recorded.going outer member).1
    · exact (List.pairwise_cons.mp (stack ▸ recorded.nested)).2
    · rw [stack]
      exact recorded.nested
  · intro message member
    rcases List.mem_append.mp member with old | new
    · exact List.mem_append_left _ (recorded.ended message old)
    · rcases effect.messages with ⟨other, single, _, _⟩ | ⟨last, single, stack⟩ | ⟨_, silent⟩
      · simp [single] at new
      · obtain rfl : message = last := by simpa [single] using new
        exact List.mem_append_left _ (recorded.going message (stack ▸ List.mem_cons_self)).1
      · exact absurd new (silent message)
  · intro message qref callback member
    have both : qref < world.mq.created ∧
        ((world.mq.refs qref).persistent = false → message.serial < world.produced) := by
      rcases List.mem_append.mp member with old | new
      · exact recorded.invoked message qref callback old
      · obtain ⟨known, _, number⟩ := effect.invocation sound new
        exact ⟨known, number⟩
    refine ⟨Nat.lt_of_lt_of_le both.1 follows.created, fun plain => ?_⟩
    rw [follows.persistent qref both.1] at plain
    exact Nat.lt_of_lt_of_le (both.2 plain) effect.produced_le
  · intro qref member
    rcases List.mem_append.mp member with old | new
    · obtain ⟨known, absent⟩ := recorded.stopped qref old
      refine ⟨Nat.lt_of_lt_of_le known follows.created, fun plain => ?_⟩
      rw [follows.persistent qref known] at plain
      exact (effect.listed sound).2.1 known (absent plain)
    · obtain ⟨known, absent⟩ := (effect.listed sound).1 new
      refine ⟨Nat.lt_of_lt_of_le known follows.created, fun plain => ?_⟩
      rw [follows.persistent qref known] at plain
      exact absent plain
  · intro qref known plain absent
    obtain ⟨old, before⟩ := (effect.listed sound).2.2 known absent
    rw [follows.persistent qref old] at plain
    rcases before with already | now
    · exact List.mem_append_left _ (recorded.gone qref old plain already)
    · exact List.mem_append_right _ now
  · refine List.pairwise_append.mpr ⟨?_, ?_, ?_⟩
    · apply recorded.silent.imp_of_mem
      intro earlier later member _ lasting message qref callback stopped invoked
      have known := (recorded.stopped qref (stopped ▸ member)).1
      rw [follows.persistent qref known]
      exact lasting message qref callback stopped invoked
    · cases effect <;> first | exact .nil | exact List.pairwise_singleton _ _
    · intro earlier old later new message qref callback stopped invoked
      obtain ⟨known, active, _⟩ := effect.invocation sound (invoked ▸ new)
      rw [follows.persistent qref known]
      -- a stopped plain reference has neither a callback nor a place on the list
      by_contra plain
      have plain : (world.mq.refs qref).persistent = false := by simpa using plain
      have absent := (recorded.stopped qref (stopped ▸ old)).2 plain
      exact absent ((sound.whole.listed qref known plain).mpr active)

/-! ## The deliveries -/

/-- User code has stopped the consumer before the call of `produce` returned. -/
def StoppedBefore (qref : Nat) (message : Message κ δ) (past : List (Observation κ γ δ)) : Prop :=
  ∃ before rest, past = before ++ .stopped qref :: rest ∧ .returned message ∉ before

/-- What in-process delivery exactly once means for what has been observed. -/
structure Delivered (world : World κ γ δ) (past : List (Observation κ γ δ)) : Prop where
  -- a call of `produce` that has returned
  once : ∀ qref < world.mq.created, (world.mq.refs qref).persistent = false → ∀ message, .returned message ∈ past →
    (world.mq.refs qref).wants message → invocations qref message.serial past = 1 ∨
      invocations qref message.serial past = 0 ∧ StoppedBefore qref message past
  -- a consumer that has not been stopped
  ahead : ∀ qref ∈ world.mq.qrefs, (world.mq.refs qref).persistent = false → ∀ message, .produced message ∈ past →
    (world.mq.refs qref).wants message → invocations qref message.serial past = 1 ∨
      invocations qref message.serial past = 0 ∧
        ∃ next, .produce message next ∈ world.stack ∧ qref ∈ world.mq.qrefs.drop next
  silent : past.Pairwise fun earlier later => ∀ message qref callback, earlier = .stopped qref →
    later = .invoked message qref callback → (world.mq.refs qref).persistent
  -- a persistent consumer, which has nothing in its queue unless it is stopped
  ordered : ∀ qref < world.mq.created, (world.mq.refs qref).persistent →
    delivered qref (world.mq.refs qref).since past ++ world.backlog qref = expected (world.mq.refs qref) past
  awake : ∀ qref, (world.mq.refs qref).callback.isSome → (world.mq.refs qref).queue = []

/-- What every undisturbed run keeps. -/
structure Accounted (world : World κ γ δ) (past : List (Observation κ γ δ)) : Prop where
  sound : world.Sound
  recorded : world.Recorded past
  shares : ∀ qref ∈ world.mq.qrefs, (world.account past qref).Perm (expected (world.mq.refs qref) past)
  ordered : ∀ qref < world.mq.created, (world.mq.refs qref).persistent →
    world.account past qref = expected (world.mq.refs qref) past
  left : ∀ qref < world.mq.created, (world.mq.refs qref).persistent = false → qref ∉ world.mq.qrefs →
    ∀ message, .produced message ∈ past → (world.mq.refs qref).wants message →
      invocations qref message.serial past = 1 ∨
        invocations qref message.serial past = 0 ∧ StoppedBefore qref message past

omit [DecidableEq κ] in
theorem eq_of_serial {messages : List (Message κ δ)} (distinct : messages.Pairwise (·.serial < ·.serial))
    {message other : Message κ δ} (member : message ∈ messages) (another : other ∈ messages)
    (same : message.serial = other.serial) : message = other := by
  induction messages with
  | nil => simp at member
  | cons head rest ih =>
    obtain ⟨first, later⟩ := List.pairwise_cons.mp distinct
    rcases List.mem_cons.mp member with rfl | inside <;> rcases List.mem_cons.mp another with rfl | there
    · rfl
    · exact absurd same (Nat.ne_of_lt (first other there))
    · exact absurd same.symm (Nat.ne_of_lt (first message inside))
    · exact ih later inside there

omit [DecidableEq κ] in
theorem countP_serial {messages : List (Message κ δ)} (distinct : messages.Pairwise (·.serial < ·.serial))
    {message : Message κ δ} (member : message ∈ messages) :
    messages.countP (fun other => other.serial == message.serial) = 1 := by
  induction messages with
  | nil => simp at member
  | cons head rest ih =>
    obtain ⟨first, later⟩ := List.pairwise_cons.mp distinct
    rcases List.mem_cons.mp member with rfl | member
    · have none : rest.countP (fun other => other.serial == message.serial) = 0 := by
        refine List.countP_eq_zero.mpr fun other another => ?_
        simpa using (Nat.ne_of_lt (first other another)).symm
      simp [none]
    · have other : head.serial ≠ message.serial := Nat.ne_of_lt (first message member)
      simp [ih later member, other]

omit [DecidableEq κ] in
/-- The deliveries of one message are its invocations. -/
theorem countP_delivered {qref since serial : Nat} (late : since ≤ serial) (past : List (Observation κ γ δ)) :
    (delivered qref since past).countP (fun other => other.serial == serial) = invocations qref serial past := by
  unfold delivered invocations
  rw [List.countP_filterMap]
  refine List.countP_congr fun observed _ => ?_
  cases observed with
  | invoked message other callback =>
    by_cases taken : other = qref ∧ since ≤ message.serial
    · simp [taken]
    · have different : ¬ (other = qref ∧ message.serial = serial) := fun ⟨same, number⟩ => taken ⟨same, number ▸ late⟩
      simp [taken, different]
  | _ => simp

/-- A plain consumer that is subscribed has been given a message once, or the loop is still to come to it. -/
theorem Accounted.ahead (accounted : world.Accounted past) {qref : Nat} (listed : qref ∈ world.mq.qrefs)
    (plain : (world.mq.refs qref).persistent = false) {message : Message κ δ} (produced : .produced message ∈ past)
    (wanted : (world.mq.refs qref).wants message) :
    invocations qref message.serial past = 1 ∨ invocations qref message.serial past = 0 ∧
      ∃ next, .produce message next ∈ world.stack ∧ qref ∈ world.mq.qrefs.drop next := by
  have known := accounted.sound.whole.known qref listed
  have late : (world.mq.refs qref).since ≤ message.serial := by
    have := (Bool.and_eq_true _ _ ▸ wanted : (world.mq.refs qref).late message = true ∧ _).1
    simpa [QueueRef.late] using this
  have total : (expected (world.mq.refs qref) past).countP (fun other => other.serial == message.serial) = 1 :=
    countP_serial (accounted.recorded.distinct.filter _) (List.mem_filter.mpr ⟨mem_productions.mpr produced, wanted⟩)
  rw [← (accounted.shares qref listed).countP_eq, account, List.countP_append, countP_delivered late] at total
  rcases Nat.eq_zero_or_pos (invocations qref message.serial past) with never | some
  · right
    refine ⟨never, ?_⟩
    have waiting : 0 < (world.backlog qref).countP (fun other => other.serial == message.serial) := by omega
    obtain ⟨other, member, same⟩ := List.countP_pos_iff.mp waiting
    have empty := accounted.sound.whole.awake qref ((accounted.sound.whole.listed qref known plain).mp listed)
    simp only [backlog, empty, List.filter_nil, List.nil_append, pending, List.mem_flatMap] at member
    obtain ⟨frame, inside, member⟩ := member
    cases frame with
    | produce going next =>
      by_cases comes : qref ∈ world.mq.qrefs.drop next ∧ (world.mq.refs qref).wants going
      · obtain rfl : other = going := by simpa [Frame.pending, comes] using member
        have begun := (accounted.recorded.going other (mem_messages.mpr ⟨next, inside⟩)).1
        obtain rfl : other = message := eq_of_serial accounted.recorded.distinct (mem_productions.mpr begun)
          (mem_productions.mpr produced) (by simpa using same)
        exact ⟨next, inside, comes.1⟩
      · simp [Frame.pending, comes] at member
    | startConsuming target missed =>
      by_cases mine : target = qref
      · have lasting := (accounted.sound.draining target missed inside).2
        simp [mine, plain] at lasting
      · simp [Frame.pending, mine] at member
  · left
    omega

/-- A reference that a step makes has got nothing, and nothing has been produced for it. -/
theorem Effect.fresh (effect : world.Effect event after shown) (sound : world.Sound) (recorded : world.Recorded past)
    {qref : Nat} (new : world.mq.created ≤ qref) (known : qref < after.mq.created) :
    after.account (past ++ shown) qref = [] ∧ expected (after.mq.refs qref) (past ++ shown) = [] := by
  cases effect with
  | subscribes event value names callback queue since =>
    obtain rfl : qref = world.mq.created := Nat.le_antisymm (Nat.le_of_lt_succ known) new
    have made : ({ world.mq.append value with persistent_qrefs := names }).refs world.mq.created = value :=
      SimpleMQ.append_self value
    have early {message : Message κ δ} (before : message.serial < world.produced) : value.late message = false := by
      simpa [QueueRef.late, since] using before
    rw [List.append_nil]
    refine ⟨List.append_eq_nil_iff.mpr ⟨?_, List.append_eq_nil_iff.mpr ⟨?_, ?_⟩⟩, ?_⟩
    · refine List.filterMap_eq_nil_iff.mpr fun observed member => ?_
      cases observed with
      | invoked message other callback =>
        have different := Nat.ne_of_lt (recorded.invoked message other callback member).1
        simp [different]
      | _ => rfl
    · exact (congrArg (fun (made : QueueRef κ γ δ) => made.queue.filter made.late) made).trans (by simp [queue])
    · refine List.flatMap_eq_nil_iff.mpr fun frame member => ?_
      cases frame with
      | produce message next =>
        have unwanted : value.wants message = false := by simp [QueueRef.wants, early (sound.numbered message next member)]
        simp [Frame.pending, unwanted]
      | startConsuming other missed =>
        have different := Nat.ne_of_lt (sound.draining other missed member).1
        simp [Frame.pending, different]
    · change expected ((world.mq.append value).refs world.mq.created) past = []
      rw [SimpleMQ.append_self]
      refine List.filter_eq_nil_iff.mpr fun message member => ?_
      simp [QueueRef.wants, early (recorded.numbered message (mem_productions.mp member))]
  | stops target =>
    have created : (world.mq.stopConsuming target).created = world.mq.created := by
      unfold SimpleMQ.stopConsuming
      split <;> rfl
    exact absurd known (Nat.not_lt.mpr (created ▸ new))
  | _ => exact absurd known (Nat.not_lt.mpr new)

theorem Effect.quiet (effect : world.Effect event after shown) (sound : world.Sound) {qref : Nat}
    (plain : (world.mq.refs qref).persistent = false) (absent : qref ∉ world.mq.qrefs) (serial : Nat) :
    invocations qref serial shown = 0 := by
  refine List.countP_eq_zero.mpr fun observed member => ?_
  cases observed with
  | invoked message other callback =>
    obtain ⟨known, active, _⟩ := effect.invocation sound member
    have different : other ≠ qref := by
      rintro rfl
      exact absent ((sound.whole.listed other known plain).mpr active)
    simp [different]
  | _ => simp

omit [DecidableEq κ] in
theorem StoppedBefore.append {qref : Nat} {message : Message κ δ} (stopped : StoppedBefore qref message past)
    (shown : List (Observation κ γ δ)) : StoppedBefore qref message (past ++ shown) := by
  obtain ⟨before, rest, split, going⟩ := stopped
  exact ⟨before, rest ++ shown, by simp [split], going⟩

/-- A consumer that user code has stopped was stopped before its turn wherever it has not had it. -/
theorem Accounted.left_step (accounted : world.Accounted past) (effect : world.Effect event after shown) {qref : Nat}
    (known : qref < after.mq.created) (plain : (after.mq.refs qref).persistent = false)
    (absent : qref ∉ after.mq.qrefs) {message : Message κ δ} (produced : .produced message ∈ past ++ shown)
    (wanted : (after.mq.refs qref).wants message) :
    invocations qref message.serial (past ++ shown) = 1 ∨
      invocations qref message.serial (past ++ shown) = 0 ∧ StoppedBefore qref message (past ++ shown) := by
  have sound := accounted.sound
  have recorded := accounted.recorded
  have follows := effect.follows
  obtain ⟨old, before⟩ := (effect.listed sound).2.2 known absent
  rw [follows.persistent qref old] at plain
  rw [wants_congr (follows.since qref old) (follows.filter qref old)] at wanted
  have split : invocations qref message.serial (past ++ shown) =
      invocations qref message.serial past + invocations qref message.serial shown := List.countP_append
  rw [split]
  by_cases already : qref ∈ world.mq.qrefs
  · -- this step is the one that stops it
    have now : .stopped qref ∈ shown := before.resolve_left fun gone => gone already
    obtain ⟨target, single⟩ : ∃ target, shown = [.stopped target] := by
      cases effect with
      | stops target => exact ⟨target, rfl⟩
      | _ => simp at now
    obtain rfl : qref = target := by simpa [single] using now
    have here : .produced message ∈ past := by simpa [single] using produced
    have none : invocations qref message.serial shown = 0 := by simp [single, invocations]
    rw [none, Nat.add_zero]
    rcases accounted.ahead already plain here wanted with done | ⟨never, next, going, _⟩
    · exact .inl done
    · refine .inr ⟨never, past, [], by rw [single], ?_⟩
      exact (recorded.going message (mem_messages.mpr ⟨next, going⟩)).2
  · rw [effect.quiet sound plain already, Nat.add_zero]
    rcases List.mem_append.mp produced with here | new
    · rcases accounted.left qref old plain already message here wanted with done | ⟨never, stopped⟩
      · exact .inl done
      · exact .inr ⟨never, stopped.append shown⟩
    · -- it had been stopped when `produce` was called
      right
      have number : message.serial = world.produced := by
        rcases effect.production with nothing | ⟨other, single, number, _⟩
        · exact absurd (mem_productions.mpr new) (by simp [nothing])
        · obtain rfl : message = other := by simpa [single] using new
          exact number
      constructor
      · refine List.countP_eq_zero.mpr fun observed member => ?_
        cases observed with
        | invoked earlier other callback =>
          by_cases same : other = qref
          · have less := (recorded.invoked earlier other callback member).2 (same ▸ plain)
            have different : earlier.serial ≠ message.serial := number ▸ Nat.ne_of_lt less
            simp [different]
          · simp [same]
        | _ => simp
      · obtain ⟨front, rest, whereabouts⟩ := List.append_of_mem (recorded.gone qref old plain already)
        refine StoppedBefore.append ⟨front, rest, whereabouts, fun returned => ?_⟩ shown
        have ended := recorded.ended message (whereabouts ▸ List.mem_append_left _ returned)
        exact Nat.lt_irrefl _ (number ▸ recorded.numbered message ended)

theorem Accounted.step (accounted : world.Accounted past) (effect : world.Effect event after shown)
    (undisturbed : world.Undisturbed event) : after.Accounted (past ++ shown) := by
  have sound := accounted.sound
  have recorded := accounted.recorded
  have follows := effect.follows
  have expects {qref : Nat} (known : qref < world.mq.created) :
      expected (after.mq.refs qref) (past ++ shown) =
        expected (world.mq.refs qref) past ++ expected (world.mq.refs qref) shown := by
    rw [expected_append]
    simp only [expected, funext (wants_congr (follows.since qref known) (follows.filter qref known))]
  refine ⟨effect.sound sound, recorded.step sound effect, ?_, ?_, ?_⟩
  · intro qref listed
    have known := (effect.sound sound).whole.known qref listed
    rcases Nat.lt_or_ge qref world.mq.created with old | new
    · have before : qref ∈ world.mq.qrefs := by
        by_contra absent
        exact (effect.listed sound).2.1 old absent listed
      rw [expects old]
      rcases effect.production with quiet | ⟨message, single, _⟩
      · have silent (message : Message κ δ) : .produced message ∉ shown := by simp [← mem_productions, quiet]
        rw [effect.account_eq sound undisturbed silent old (.inr listed)]
        simpa [expected, quiet] using accounted.shares qref before
      · cases effect with
        | produces routingKey data running =>
          rw [account_produce routingKey data before]
          -- the message is in the account, in whatever place
          refine List.Perm.trans ?_ ((accounted.shares qref before).append_right _)
          unfold account backlog
          rw [List.append_assoc, List.append_assoc]
          exact (List.perm_append_comm.append_left _).append_left _
        | _ => simp at single
    · obtain ⟨nothing, none⟩ := effect.fresh sound recorded new known
      rw [nothing, none]
  · intro qref known lasting
    rcases Nat.lt_or_ge qref world.mq.created with old | new
    · rw [follows.persistent qref old] at lasting
      rw [expects old]
      rcases effect.production with quiet | ⟨message, single, _⟩
      · have silent (message : Message κ δ) : .produced message ∉ shown := by simp [← mem_productions, quiet]
        rw [effect.account_eq sound undisturbed silent old (.inl lasting)]
        simpa [expected, quiet] using accounted.ordered qref old lasting
      · cases effect with
        | produces routingKey data running =>
          rw [account_produce routingKey data (sound.whole.kept qref old lasting), ← accounted.ordered qref old lasting]
          unfold account backlog
          by_cases matched : matchTuple routingKey (world.mq.refs qref).filter
          · -- nothing was on its way that the message could overtake
            rw [undisturbed running qref old lasting matched]
            simp
          · have unwanted : expected (world.mq.refs qref)
                [.produced (γ := γ) ⟨world.produced, routingKey, data⟩] = [] := by
              simp [expected, productions, QueueRef.wants, QueueRef.matches, matched]
            rw [unwanted]
            simp
        | _ => simp at single
    · obtain ⟨nothing, none⟩ := effect.fresh sound recorded new known
      rw [nothing, none]
  · intro qref known plain absent message produced wanted
    exact accounted.left_step effect known plain absent produced wanted

theorem start_accounted : (start : World κ γ δ).Accounted [] :=
  ⟨start_sound, start_recorded, nofun, nofun, nofun⟩

theorem Accounted.delivered (accounted : world.Accounted past) : world.Delivered past where
  once qref known plain message returned wanted := by
    have produced := accounted.recorded.ended message returned
    by_cases listed : qref ∈ world.mq.qrefs
    · rcases accounted.ahead listed plain produced wanted with done | ⟨_, next, going, _⟩
      · exact .inl done
      · exact absurd returned (accounted.recorded.going message (mem_messages.mpr ⟨next, going⟩)).2
    · exact accounted.left qref known plain listed message produced wanted
  ahead qref listed plain message produced wanted := accounted.ahead listed plain produced wanted
  silent := accounted.recorded.silent
  ordered := accounted.ordered
  awake := accounted.sound.whole.awake

end World

/-- Every undisturbed run delivers every message exactly once, and in order to a persistent consumer. -/
theorem messages_delivered_once (isinstance : κ → Bool) (events : List (Event κ γ δ))
    (undisturbed : Always (World.step · isinstance) World.Undisturbed .start events) :
    (final (World.step · isinstance) .start events).Delivered (seen (World.step · isinstance) .start events) := by
  let invariant := fun (world : World κ γ δ) past => world.Accounted past
  have kept : ∀ world past event, invariant world past → world.Undisturbed event →
      invariant (world.step isinstance event).1 (past ++ (world.step isinstance event).2) :=
    fun world past event accounted now =>
      World.Accounted.step accounted (World.step_effect accounted.sound isinstance event) now
  have accounted := history_of_always kept (World.start_accounted : invariant .start []) undisturbed
  exact World.Accounted.delivered accounted

/-- A persistent consumer misses a message while it is stopped, and is given it when it starts again. -/
def missing : List (Event String Nat Nat) :=
  [.startConsuming 0 [none] (some "builds"), .stopConsuming 0, .produce ["builds"] 5, .proceed, .proceed,
    .startConsuming 1 [none] (some "builds"), .proceed]

theorem missing_delivered_once : (final (World.step · fun _ => true) .start missing).Delivered
    (seen (World.step · fun _ => true) .start missing) := by
  refine messages_delivered_once (fun _ => true) missing ⟨trivial, fun _ plain => absurd plain (by decide), ?_, trivial,
    trivial, trivial, trivial, trivial⟩
  exact fun _ => by decide

/-- The first of two consumers stops itself when it is called. -/
def skipping : List (Event String Nat Nat) :=
  [.startConsuming 0 [none] none, .startConsuming 1 [none] none, .produce ["builds"] 5, .proceed, .stopConsuming 0,
    .return, .proceed]

/-- A consumer that has missed two messages produces a third when it is given the first. -/
def overtaking : List (Event String Nat Nat) :=
  [.startConsuming 0 [none] (some "builds"), .stopConsuming 0, .produce ["builds"] 5, .proceed, .proceed,
    .produce ["builds"] 6, .proceed, .proceed, .startConsuming 1 [none] (some "builds"), .proceed,
    .produce ["builds"] 7, .proceed, .return, .proceed, .return, .proceed]

theorem skipping_and_overtaking :
    (¬ (final (World.step · fun _ => true) .start skipping).Delivered (seen (World.step · fun _ => true) .start skipping)) ∧
      ¬ (final (World.step · fun _ => true) .start overtaking).Delivered
        (seen (World.step · fun _ => true) .start overtaking) := by
  constructor
  · intro delivered
    -- the second one is never called, and the loop has ended
    have once := delivered.once 1 (by decide) (by decide) ⟨0, ["builds"], 5⟩ (by decide +kernel) (by decide +kernel)
    have never : invocations 1 0 (seen (World.step · fun _ => true) .start skipping) = 0 := by decide +kernel
    rcases once with done | ⟨_, before, rest, split, _⟩
    · exact absurd (never.symm.trans done) (by decide)
    · have stopped : .stopped 1 ∈ seen (World.step · fun _ => true) .start skipping := by
        rw [split]
        exact List.mem_append_right _ List.mem_cons_self
      exact absurd stopped (by decide +kernel)
  · intro delivered
    have ordered := delivered.ordered 0 (by decide) (by decide)
    exact absurd ordered (by decide +kernel)

end Umbilical.Mq
