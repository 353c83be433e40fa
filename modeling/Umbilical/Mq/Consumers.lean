import Mathlib.Data.List.Nodup
import Umbilical.Mq.SimpleMQ

set_option autoImplicit false

/-!
# The consumers and the loops

What holds of the references, of the live list and of the stack of loops in every
run, whatever the callbacks do.
-/

namespace Umbilical.Mq

variable {κ γ δ : Type}

/-! ## The live list under a removal -/

theorem mem_drop_of_erase {qrefs : List Nat} {qref other next : Nat} (member : other ∈ (qrefs.erase qref).drop next) :
    other ∈ qrefs.drop next := by
  induction qrefs generalizing next with
  | nil => simp at member
  | cons head rest ih =>
    by_cases same : head = qref
    · rw [same, List.erase_cons_head] at member
      cases next with
      | zero => exact List.mem_cons_of_mem head member
      | succ next =>
        have later : other ∈ (rest.drop next).drop 1 := by simpa [List.drop_drop] using member
        exact List.mem_of_mem_drop later
    · rw [List.erase_cons_tail (by simpa using same)] at member
      cases next with
      | zero =>
        rcases List.mem_cons.mp member with rfl | member
        · exact List.mem_cons_self
        · exact List.mem_cons_of_mem head (List.mem_of_mem_erase member)
      | succ next => exact ih member

/-- A removal loses the removed reference, and one that it moves to just before the iterator. -/
theorem mem_drop_erase {qrefs : List Nat} {qref other next : Nat} (member : other ∈ qrefs.drop next)
    (different : other ≠ qref) :
    other ∈ (qrefs.erase qref).drop next ∨ qrefs.idxOf qref < next ∧ qrefs[next]? = some other := by
  induction qrefs generalizing next with
  | nil => simp at member
  | cons head rest ih =>
    by_cases same : head = qref
    · rw [same, List.erase_cons_head, List.idxOf_cons_self]
      cases next with
      | zero =>
        left
        rcases List.mem_cons.mp member with rfl | member
        · exact absurd same different
        · exact member
      | succ next =>
        -- the rest of the list has moved by one, so its first element is passed over
        have there : other ∈ rest.drop next := member
        cases first : rest.drop next with
        | nil => simp [first] at there
        | cons skipped later =>
          have position : rest[next]? = some skipped := by
            have := congrArg List.head? first
            simpa [List.head?_drop] using this
          rcases List.mem_cons.mp (first ▸ there) with rfl | member
          · exact .inr ⟨Nat.zero_lt_succ next, position⟩
          · left
            have shifted : rest.drop (next + 1) = later := by
              rw [← List.drop_drop, first]
              rfl
            rwa [shifted]
    · rw [List.erase_cons_tail (by simpa using same), List.idxOf_cons_ne rest same]
      cases next with
      | zero =>
        left
        rcases List.mem_cons.mp member with rfl | member
        · exact List.mem_cons_self
        · exact List.mem_cons_of_mem head ((List.mem_erase_of_ne different).mpr member)
      | succ next =>
        have there : other ∈ rest.drop next := member
        rcases ih there with kept | ⟨before, skipped⟩
        · exact .inl kept
        · exact .inr ⟨Nat.succ_lt_succ before, skipped⟩

theorem mem_drop_append {qrefs : List Nat} {qref other next : Nat} (different : other ≠ qref) :
    other ∈ (qrefs ++ [qref]).drop next ↔ other ∈ qrefs.drop next := by
  rw [List.drop_append, List.mem_append]
  refine ⟨fun member => member.resolve_right fun late => ?_, .inl⟩
  exact different (List.mem_singleton.mp (List.mem_of_mem_drop late))

/-- The iterator moves on by one. -/
theorem mem_drop_succ {qrefs : List Nat} {qref other next : Nat}
    (position : qrefs[next]? = some qref) :
    other ∈ qrefs.drop next ↔ other = qref ∨ other ∈ qrefs.drop (next + 1) := by
  obtain ⟨bound, rfl⟩ := List.getElem?_eq_some_iff.mp position
  rw [List.drop_eq_getElem_cons bound, List.mem_cons]

theorem not_mem_drop_succ {qrefs : List Nat} {qref next : Nat} (distinct : qrefs.Nodup)
    (position : qrefs[next]? = some qref) : qref ∉ qrefs.drop (next + 1) := by
  obtain ⟨bound, rfl⟩ := List.getElem?_eq_some_iff.mp position
  have tail := distinct.sublist (List.drop_sublist next qrefs)
  rw [List.drop_eq_getElem_cons bound] at tail
  exact (List.nodup_cons.mp tail).1

/-! ## The references -/

/-- The references and the list agree about who is subscribed. -/
structure SimpleMQ.Whole (mq : SimpleMQ κ γ δ) : Prop where
  known : ∀ qref ∈ mq.qrefs, qref < mq.created
  distinct : mq.qrefs.Nodup
  named : ∀ entry ∈ mq.persistent_qrefs, entry.2 < mq.created ∧ (mq.refs entry.2).persistent
  kept : ∀ qref < mq.created, (mq.refs qref).persistent → qref ∈ mq.qrefs
  listed : ∀ qref < mq.created, (mq.refs qref).persistent = false →
    (qref ∈ mq.qrefs ↔ (mq.refs qref).callback.isSome)
  awake : ∀ qref, (mq.refs qref).callback.isSome → (mq.refs qref).queue = []

/-- What never changes of a reference that has been made. -/
structure SimpleMQ.Follows (before after : SimpleMQ κ γ δ) : Prop where
  created : before.created ≤ after.created
  filter : ∀ qref < before.created, (after.refs qref).filter = (before.refs qref).filter
  persistent : ∀ qref < before.created, (after.refs qref).persistent = (before.refs qref).persistent
  since : ∀ qref < before.created, (after.refs qref).since = (before.refs qref).since

namespace SimpleMQ

variable {mq : SimpleMQ κ γ δ}

@[simp] theorem update_self (qref : Nat) (value : QueueRef κ γ δ) : (mq.update qref value).refs qref = value :=
  Function.update_self ..

theorem update_of_ne {qref other : Nat} (different : other ≠ qref) (value : QueueRef κ γ δ) :
    (mq.update qref value).refs other = mq.refs other := Function.update_of_ne different ..

@[simp] theorem append_self (value : QueueRef κ γ δ) : (mq.append value).refs mq.created = value :=
  Function.update_self ..

theorem append_of_lt {qref : Nat} (before : qref < mq.created) (value : QueueRef κ γ δ) :
    (mq.append value).refs qref = mq.refs qref := Function.update_of_ne (Nat.ne_of_lt before) ..

theorem Follows.refl (mq : SimpleMQ κ γ δ) : mq.Follows mq :=
  ⟨Nat.le_refl _, fun _ _ => rfl, fun _ _ => rfl, fun _ _ => rfl⟩

/-- An update in place that changes the callback and the queue alone. -/
theorem follows_update {qref : Nat} {value : QueueRef κ γ δ} (filter : value.filter = (mq.refs qref).filter)
    (persistent : value.persistent = (mq.refs qref).persistent) (since : value.since = (mq.refs qref).since) :
    mq.Follows (mq.update qref value) := by
  refine ⟨Nat.le_refl _, ?_, ?_, ?_⟩ <;> intro other _ <;> by_cases same : other = qref
  all_goals first
    | simp only [update_of_ne same]
    | simp only [same, update_self, filter, persistent, since]

theorem follows_append (value : QueueRef κ γ δ) : mq.Follows (mq.append value) where
  created := Nat.le_succ _
  filter _ before := by rw [append_of_lt before]
  persistent _ before := by rw [append_of_lt before]
  since _ before := by rw [append_of_lt before]

theorem follows_stopConsuming (qref : Nat) : mq.Follows (mq.stopConsuming qref) := by
  unfold stopConsuming
  have updated : mq.Follows (mq.update qref { mq.refs qref with callback := none }) := follows_update rfl rfl rfl
  split
  · exact updated
  · exact ⟨updated.created, updated.filter, updated.persistent, updated.since⟩

/-- An update of a subscribed reference that keeps its subscription. -/
theorem Whole.update (whole : mq.Whole) {qref : Nat} {value : QueueRef κ γ δ}
    (persistent : value.persistent = (mq.refs qref).persistent)
    (callback : (mq.refs qref).persistent = false → value.callback.isSome = (mq.refs qref).callback.isSome)
    (awake : value.callback.isSome → value.queue = []) : (mq.update qref value).Whole where
  known := whole.known
  distinct := whole.distinct
  named entry member := by
    refine ⟨(whole.named entry member).1, ?_⟩
    by_cases same : entry.2 = qref
    · rw [same, update_self, persistent, ← same]
      exact (whole.named entry member).2
    · rw [update_of_ne same]
      exact (whole.named entry member).2
  kept other known lasting := by
    by_cases same : other = qref
    · subst same
      rw [update_self, persistent] at lasting
      exact whole.kept other known lasting
    · rw [update_of_ne same] at lasting
      exact whole.kept other known lasting
  listed other known plain := by
    by_cases same : other = qref
    · subst same
      rw [update_self, persistent] at plain
      rw [update_self, callback plain]
      exact whole.listed other known plain
    · rw [update_of_ne same] at plain ⊢
      exact whole.listed other known plain
  awake other active := by
    by_cases same : other = qref
    · subst same
      rw [update_self] at active ⊢
      exact awake active
    · rw [update_of_ne same] at active ⊢
      exact whole.awake other active

theorem Whole.append (whole : mq.Whole) {value : QueueRef κ γ δ} (callback : value.callback.isSome)
    (queue : value.queue = []) : (mq.append value).Whole where
  known qref member := by
    rcases List.mem_append.mp member with old | new
    · exact Nat.lt_succ_of_lt (whole.known qref old)
    · rw [List.mem_singleton.mp new]
      exact Nat.lt_succ_self _
  distinct := by
    refine List.nodup_append.mpr ⟨whole.distinct, List.nodup_singleton _, ?_⟩
    intro old member new single
    rw [List.mem_singleton.mp single]
    exact Nat.ne_of_lt (whole.known old member)
  named entry member := by
    obtain ⟨known, lasting⟩ := whole.named entry member
    exact ⟨Nat.lt_succ_of_lt known, by rwa [append_of_lt known]⟩
  kept qref known lasting := by
    rcases Nat.lt_or_eq_of_le (Nat.le_of_lt_succ known) with old | rfl
    · rw [append_of_lt old] at lasting
      exact List.mem_append_left _ (whole.kept qref old lasting)
    · exact List.mem_append_right _ (List.mem_singleton_self _)
  listed qref known plain := by
    rcases Nat.lt_or_eq_of_le (Nat.le_of_lt_succ known) with old | rfl
    · rw [append_of_lt old] at plain ⊢
      rw [← whole.listed qref old plain]
      simp [SimpleMQ.append, Nat.ne_of_lt old]
    · simp [SimpleMQ.append, callback]
  awake qref active := by
    by_cases same : qref = mq.created
    · rw [same, append_self]
      exact queue
    · have other : (mq.append value).refs qref = mq.refs qref := Function.update_of_ne same ..
      rw [other] at active ⊢
      exact whole.awake qref active

theorem Whole.stopConsuming (whole : mq.Whole) (qref : Nat) : (mq.stopConsuming qref).Whole := by
  cases kind : (mq.refs qref).persistent with
  | true =>
    simp only [SimpleMQ.stopConsuming, kind, if_true]
    exact whole.update kind.symm (by simp [kind]) nofun
  | false =>
    simp only [SimpleMQ.stopConsuming, kind, Bool.false_eq_true, if_false]
    refine ⟨fun other member => whole.known other (List.mem_of_mem_erase member), whole.distinct.erase qref, ?_, ?_,
      ?_, ?_⟩
    · intro entry member
      obtain ⟨known, lasting⟩ := whole.named entry member
      have different : entry.2 ≠ qref := fun same => by simp [same, kind] at lasting
      exact ⟨known, by rwa [update_of_ne different]⟩
    · intro other known lasting
      have different : other ≠ qref := fun same => by simp [same] at lasting
      rw [update_of_ne different] at lasting
      exact (List.mem_erase_of_ne different).mpr (whole.kept other known lasting)
    · intro other known plain
      by_cases same : other = qref
      · subst same
        simp [whole.distinct.not_mem_erase]
      · rw [update_of_ne same] at plain ⊢
        rw [List.mem_erase_of_ne same]
        exact whole.listed other known plain
    · intro other active
      by_cases same : other = qref
      · subst same
        simp at active
      · rw [update_of_ne same] at active ⊢
        exact whole.awake other active

end SimpleMQ

/-! ## The steps -/

/-- The topmost loop comes to a message for a reference, and `stack` is left of the loops. -/
inductive Takes [DecidableEq κ] (mq : SimpleMQ κ γ δ) (qref : Nat) (message : Message κ δ) (stack : List (Frame κ δ)) :
    List (Frame κ δ) → Prop where
  | produce {next : Nat} {below : List (Frame κ δ)} (position : mq.qrefs[next]? = some qref)
      (matched : (mq.refs qref).matches message) (left : stack = .produce message (next + 1) :: below) :
      Takes mq qref message stack (.produce message next :: below)
  | startConsuming {missed : List (Message κ δ)} {below : List (Frame κ δ)}
      (left : stack = .startConsuming qref missed :: below) :
      Takes mq qref message stack (.startConsuming qref (message :: missed) :: below)

theorem Takes.mem [DecidableEq κ] {mq : SimpleMQ κ γ δ} {qref : Nat} {message : Message κ δ} {stack before : List (Frame κ δ)}
    (takes : Takes mq qref message stack before) {frame : Frame κ δ} (member : frame ∈ stack) :
    frame ∈ before ∨ (∃ next, frame = .produce message (next + 1) ∧ .produce message next ∈ before) ∨
      ∃ missed, frame = .startConsuming qref missed ∧ .startConsuming qref (message :: missed) ∈ before := by
  cases takes with
  | @produce next below _ _ left =>
    subst left
    rcases List.mem_cons.mp member with rfl | member
    · exact .inr (.inl ⟨next, rfl, List.mem_cons_self⟩)
    · exact .inl (List.mem_cons_of_mem _ member)
  | @startConsuming missed below left =>
    subst left
    rcases List.mem_cons.mp member with rfl | member
    · exact .inr (.inr ⟨missed, rfl, List.mem_cons_self⟩)
    · exact .inl (List.mem_cons_of_mem _ member)

namespace World

/-- What holds of the state in every run. -/
structure Sound (world : World κ γ δ) : Prop where
  whole : world.mq.Whole
  since : ∀ qref < world.mq.created, (world.mq.refs qref).since ≤ world.produced
  numbered : ∀ message next, .produce message next ∈ world.stack → message.serial < world.produced
  draining : ∀ qref missed, .startConsuming qref missed ∈ world.stack →
    qref < world.mq.created ∧ (world.mq.refs qref).persistent

variable {world : World κ γ δ}

theorem start_sound : (start : World κ γ δ).Sound where
  whole := by
    refine ⟨nofun, List.nodup_nil, nofun, nofun, nofun, nofun⟩
  since := nofun
  numbered := nofun
  draining := nofun

/-- Loops that were there before, further on, are loops of the same messages and references. -/
theorem Sound.with_stack (sound : world.Sound) {mq : SimpleMQ κ γ δ} {stack : List (Frame κ δ)} {running : Bool}
    (whole : mq.Whole) (follows : world.mq.Follows mq) (created : mq.created = world.mq.created)
    (produce : ∀ message next, .produce message next ∈ stack → ∃ next, .produce message next ∈ world.stack)
    (draining : ∀ qref missed, .startConsuming qref missed ∈ stack →
      qref < world.mq.created ∧ (world.mq.refs qref).persistent) :
    ({ world with mq := mq, stack := stack, running := running } : World κ γ δ).Sound where
  whole := whole
  since qref known := by
    have before : qref < world.mq.created := created ▸ known
    rw [show (mq.refs qref).since = (world.mq.refs qref).since from follows.since qref before]
    exact sound.since qref before
  numbered message next member := by
    obtain ⟨earlier, member⟩ := produce message next member
    exact sound.numbered message earlier member
  draining qref missed member := by
    obtain ⟨known, lasting⟩ := draining qref missed member
    exact ⟨created.symm ▸ known, by rwa [show (mq.refs qref).persistent = _ from follows.persistent qref known]⟩

variable [DecidableEq κ]

/-- What a step can do. -/
inductive Effect (world : World κ γ δ) : Event κ γ δ → World κ γ δ → List (Observation κ γ δ) → Prop where
  | resumes (event : Event κ γ δ) (running : Bool) : Effect world event { world with running := running } []
  | produces (routingKey : List κ) (data : δ) (running : world.running) :
      Effect world (.produce routingKey data) (world.produce routingKey data).1
        [.produced ⟨world.produced, routingKey, data⟩]
  | restarts (event : Event κ γ δ) (qref : Nat) (callback : γ) (known : qref < world.mq.created)
      (lasting : (world.mq.refs qref).persistent) : Effect world event (world.restart qref callback) []
  | subscribes (event : Event κ γ δ) (value : QueueRef κ γ δ) (names : List (String × Nat))
      (callback : value.callback.isSome) (queue : value.queue = []) (since : value.since = world.produced)
      (named : ∀ entry ∈ names, entry ∈ world.mq.persistent_qrefs ∨ entry.2 = world.mq.created ∧ value.persistent) :
      Effect world event { world with mq := { world.mq.append value with persistent_qrefs := names } } []
  | stops (qref : Nat) (running : world.running) (known : qref < world.mq.created) :
      Effect world (.stopConsuming qref) { world with mq := world.mq.stopConsuming qref } [.stopped qref]
  | returns (event : Event κ γ δ) (message : Message κ δ) (next : Nat) (below : List (Frame κ δ))
      (stack : world.stack = .produce message next :: below) (position : world.mq.qrefs[next]? = none) :
      Effect world event { world with stack := below, running := true } [.returned message]
  | passes (event : Event κ γ δ) (message : Message κ δ) (next qref : Nat) (below : List (Frame κ δ))
      (stack : world.stack = .produce message next :: below) (position : world.mq.qrefs[next]? = some qref)
      (unmatched : (world.mq.refs qref).matches message = false) :
      Effect world event { world with stack := .produce message (next + 1) :: below } []
  | drained (event : Event κ γ δ) (qref : Nat) (below : List (Frame κ δ))
      (stack : world.stack = .startConsuming qref [] :: below) :
      Effect world event { world with stack := below, running := true } []
  | delivers (event : Event κ γ δ) (qref : Nat) (message : Message κ δ) (callback : γ) (stack : List (Frame κ δ))
      (takes : Takes world.mq qref message stack world.stack)
      (active : (world.mq.refs qref).callback = some callback) :
      Effect world event { world with stack := stack, running := true } [.invoked message qref callback]
  | queues (event : Event κ γ δ) (qref : Nat) (message : Message κ δ) (stack : List (Frame κ δ))
      (takes : Takes world.mq qref message stack world.stack)
      (inactive : (world.mq.refs qref).callback = none) (lasting : (world.mq.refs qref).persistent) :
      Effect world event { world with stack := stack, mq := world.mq.addToQueue qref message } []

theorem effect_of_invoke (event : Event κ γ δ) {qref : Nat} {message : Message κ δ}
    {stack : List (Frame κ δ)} (takes : Takes world.mq qref message stack world.stack)
    (subscribed : (world.mq.refs qref).persistent ∨ (world.mq.refs qref).callback.isSome) :
    world.Effect event ({ world with stack := stack }.invoke qref message).1
      ({ world with stack := stack }.invoke qref message).2 := by
  unfold invoke
  cases active : (world.mq.refs qref).callback with
  | some callback => exact .delivers event qref message callback stack takes active
  | none =>
    have lasting : (world.mq.refs qref).persistent := by simpa [active] using subscribed
    simp only [lasting, if_true]
    exact .queues event qref message stack takes active lasting

theorem effect_of_proceed (sound : world.Sound) (event : Event κ γ δ) :
    world.Effect event world.proceed.1 world.proceed.2 := by
  unfold proceed
  split
  · exact .resumes event world.running
  · rename_i message next below stack
    split
    · rename_i position
      exact .returns event message next below stack position
    · rename_i qref position
      by_cases matched : (world.mq.refs qref).matches message
      · simp only [matched, if_true]
        refine effect_of_invoke event (stack ▸ .produce position matched rfl) ?_
        -- a reference of the list has a callback, or it queues
        have member : qref ∈ world.mq.qrefs := List.mem_of_getElem? position
        have known := sound.whole.known qref member
        cases kind : (world.mq.refs qref).persistent with
        | true => exact .inl rfl
        | false => exact .inr ((sound.whole.listed qref known kind).mp member)
      · simp only [matched, Bool.false_eq_true, if_false]
        exact .passes event message next qref below stack position (by simpa using matched)
  · rename_i qref below stack
    exact .drained event qref below stack
  · rename_i qref message missed below stack
    refine effect_of_invoke event (stack ▸ .startConsuming rfl) (.inl ?_)
    exact (sound.draining qref (message :: missed) (stack ▸ List.mem_cons_self)).2

theorem effect_of_startConsuming (whole : world.mq.Whole) (isinstance : κ → Bool) (event : Event κ γ δ) (callback : γ)
    (filter : List (Option κ)) (persistent_name : Option String) :
    world.Effect event (world.startConsuming isinstance callback filter persistent_name) [] := by
  have unnamed : world.Effect event (world.subscribe callback filter false) [] :=
    .subscribes event ⟨some callback, filter, false, [], world.produced⟩ world.mq.persistent_qrefs rfl rfl rfl
      fun entry member => .inl member
  unfold startConsuming
  split
  · exact .resumes event world.running
  · split
    · exact unnamed
    · rename_i name
      split
      · exact unnamed
      · split
        · rename_i qref found
          have member : (name, qref) ∈ world.mq.persistent_qrefs := by
            obtain ⟨before, after, whereabouts, _⟩ := List.lookup_eq_some_iff.mp found
            simp [whereabouts]
          obtain ⟨known, lasting⟩ := whole.named (name, qref) member
          exact .restarts event qref callback known lasting
        · refine .subscribes event ⟨some callback, filter, true, [], world.produced⟩ _ rfl rfl rfl ?_
          intro entry member
          rcases List.mem_cons.mp member with rfl | member
          · exact .inr ⟨rfl, rfl⟩
          · exact .inl member

theorem step_effect (sound : world.Sound) (isinstance : κ → Bool) (event : Event κ γ δ) :
    world.Effect event (world.step isinstance event).1 (world.step isinstance event).2 := by
  have idle : world.Effect event world [] := .resumes event world.running
  cases event with
  | proceed =>
    simp only [step]
    split
    · exact idle
    · exact effect_of_proceed sound .proceed
  | produce routingKey data =>
    simp only [step]
    split
    · rename_i running
      exact .produces routingKey data running
    · exact idle
  | startConsuming callback filter persistent_name =>
    simp only [step]
    split
    · exact effect_of_startConsuming sound.whole isinstance _ callback filter persistent_name
    · exact idle
  | stopConsuming qref =>
    simp only [step]
    split
    · rename_i able
      exact .stops qref able.1 able.2
    · exact idle
  | «return» => exact .resumes .return (world.running && world.stack.isEmpty)

/-- The references survive every step as what they are. -/
theorem Effect.follows {event : Event κ γ δ} {after : World κ γ δ} {shown : List (Observation κ γ δ)}
    (effect : world.Effect event after shown) : world.mq.Follows after.mq := by
  cases effect with
  | resumes | produces | returns | passes | drained | delivers => exact .refl world.mq
  | restarts => exact SimpleMQ.follows_update rfl rfl rfl
  | subscribes _ value =>
    have appended : world.mq.Follows (world.mq.append value) := SimpleMQ.follows_append value
    exact ⟨appended.created, appended.filter, appended.persistent, appended.since⟩
  | stops qref => exact SimpleMQ.follows_stopConsuming qref
  | queues => exact SimpleMQ.follows_update rfl rfl rfl

theorem Effect.sound {event : Event κ γ δ} {after : World κ γ δ} {shown : List (Observation κ γ δ)}
    (effect : world.Effect event after shown) (sound : world.Sound) : after.Sound := by
  have below {frame : Frame κ δ} {rest : List (Frame κ δ)} (stack : world.stack = frame :: rest) {other : Frame κ δ}
      (member : other ∈ rest) : other ∈ world.stack := stack ▸ List.mem_cons_of_mem frame member
  have follows := effect.follows
  cases effect with
  | resumes event running =>
    exact sound.with_stack sound.whole (.refl _) rfl (fun _ next member => ⟨next, member⟩) sound.draining
  | produces routingKey data running =>
    refine ⟨sound.whole, fun qref known => Nat.le_succ_of_le (sound.since qref known), ?_, ?_⟩
    · intro message next member
      rcases List.mem_cons.mp member with same | member
      · cases same
        exact Nat.lt_succ_self _
      · exact Nat.lt_succ_of_lt (sound.numbered message next member)
    · intro qref missed member
      rcases List.mem_cons.mp member with same | member
      · cases same
      · exact sound.draining qref missed member
  | restarts event qref callback known lasting =>
    refine sound.with_stack (sound.whole.update rfl ?_ fun _ => rfl) follows rfl ?_ ?_
    · simp [lasting]
    · intro message next member
      rcases List.mem_cons.mp member with same | member
      · cases same
      · exact ⟨next, member⟩
    · intro other missed member
      rcases List.mem_cons.mp member with same | member
      · cases same
        exact ⟨known, lasting⟩
      · exact sound.draining other missed member
  | subscribes event value names callback queue since named =>
    have appended := sound.whole.append callback queue
    have made : (world.mq.append value).refs world.mq.created = value := SimpleMQ.append_self value
    refine ⟨⟨appended.known, appended.distinct, ?_, appended.kept, appended.listed, appended.awake⟩, ?_, ?_, ?_⟩
    · intro entry member
      rcases named entry member with old | ⟨new, lasting⟩
      · exact appended.named entry old
      · rw [new]
        exact ⟨Nat.lt_succ_self _, (congrArg QueueRef.persistent made).trans lasting⟩
    · intro qref known
      rcases Nat.lt_or_eq_of_le (Nat.le_of_lt_succ known) with old | rfl
      · rw [follows.since qref old]
        exact sound.since qref old
      · exact Nat.le_of_eq ((congrArg QueueRef.since made).trans since)
    · exact sound.numbered
    · intro qref missed member
      obtain ⟨known, lasting⟩ := sound.draining qref missed member
      exact ⟨Nat.lt_succ_of_lt known, by rwa [follows.persistent qref known]⟩
  | stops qref running known =>
    have created : (world.mq.stopConsuming qref).created = world.mq.created := by
      unfold SimpleMQ.stopConsuming
      split <;> rfl
    exact sound.with_stack (sound.whole.stopConsuming qref) follows created (fun _ next member => ⟨next, member⟩)
      sound.draining
  | returns event message next rest stack position =>
    exact sound.with_stack sound.whole follows rfl (fun _ next member => ⟨next, below stack member⟩)
      fun qref missed member => sound.draining qref missed (below stack member)
  | passes event message next qref rest stack position unmatched =>
    refine sound.with_stack sound.whole follows rfl ?_ ?_
    · intro other later member
      rcases List.mem_cons.mp member with same | member
      · cases same
        exact ⟨next, stack ▸ List.mem_cons_self⟩
      · exact ⟨later, below stack member⟩
    · intro other missed member
      rcases List.mem_cons.mp member with same | member
      · cases same
      · exact sound.draining other missed (below stack member)
  | drained event qref rest stack =>
    exact sound.with_stack sound.whole follows rfl (fun _ next member => ⟨next, below stack member⟩)
      fun qref missed member => sound.draining qref missed (below stack member)
  | delivers event qref message callback stack takes active =>
    refine sound.with_stack sound.whole follows rfl ?_ ?_
    · intro other later member
      rcases takes.mem member with old | ⟨next, same, old⟩ | ⟨missed, same, old⟩
      · exact ⟨later, old⟩
      · cases same
        exact ⟨next, old⟩
      · cases same
    · intro other missed member
      rcases takes.mem member with old | ⟨next, same, old⟩ | ⟨missed, same, old⟩
      · exact sound.draining other missed old
      · cases same
      · cases same
        exact sound.draining qref _ old
  | queues event qref message stack takes inactive lasting =>
    refine sound.with_stack (sound.whole.update rfl (fun _ => rfl) ?_) follows rfl ?_ ?_
    · simp [inactive]
    · intro other later member
      rcases takes.mem member with old | ⟨next, same, old⟩ | ⟨missed, same, old⟩
      · exact ⟨later, old⟩
      · cases same
        exact ⟨next, old⟩
      · cases same
    · intro other missed member
      rcases takes.mem member with old | ⟨next, same, old⟩ | ⟨missed, same, old⟩
      · exact sound.draining other missed old
      · cases same
      · cases same
        exact sound.draining qref _ old

end World

end Umbilical.Mq
