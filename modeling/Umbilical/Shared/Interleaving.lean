import Mathlib.Data.List.Basic
import Mathlib.Logic.Function.Basic
import Mathlib.Order.Basic
import Mathlib.Order.Lattice

set_option autoImplicit false

/-!
# Runs of a system

A system takes one event after another and shows what can be observed of each
step. The order of the events is the interleaving, so what holds for every list
of events holds for every interleaving.
-/

namespace Umbilical.Interleaving

variable {σ ε ο : Type} (step : σ → ε → σ × List ο)

def final (state : σ) : List ε → σ
  | [] => state
  | event :: rest => final (step state event).1 rest

def seen (state : σ) : List ε → List ο
  | [] => []
  | event :: rest => (step state event).2 ++ seen (step state event).1 rest

theorem final_append (state : σ) (past rest : List ε) :
    final step state (past ++ rest) = final step (final step state past) rest := by
  induction past generalizing state with
  | nil => rfl
  | cons event past ih => exact ih _

theorem seen_append (state : σ) (past rest : List ε) :
    seen step state (past ++ rest) = seen step state past ++ seen step (final step state past) rest := by
  induction past generalizing state with
  | nil => rfl
  | cons event past ih => simp [seen, final, ih]

/-- A place in what was seen lies before a point, or after it. -/
theorem split_append {past new before later : List ο} {observed : ο} (split : past ++ new = before ++ observed :: later) :
    (∃ middle, past = before ++ observed :: middle ∧ later = middle ++ new) ∨
      ∃ middle, before = past ++ middle ∧ new = middle ++ observed :: later := by
  rcases List.append_eq_append_iff.mp split with ⟨middle, first, last⟩ | ⟨middle, first, last⟩
  · exact .inr ⟨middle, first, last⟩
  · cases middle with
    | nil => exact .inr ⟨[], by simpa using first.symm, last.symm⟩
    | cons head middle =>
      obtain ⟨rfl, rfl⟩ := List.cons.inj last
      exact .inl ⟨middle, first, rfl⟩

variable {step}

/-- What every step preserves, every run preserves. -/
theorem final_of_step {invariant : σ → Prop}
    (preserved : ∀ state event, invariant state → invariant (step state event).1)
    {state : σ} (initially : invariant state) (events : List ε) : invariant (final step state events) := by
  induction events generalizing state with
  | nil => exact initially
  | cons event rest ih => exact ih (preserved state event initially)

/-- The same for a relation between the state and what was seen on the way to it. -/
theorem history_of_step {invariant : σ → List ο → Prop}
    (preserved : ∀ state past event, invariant state past →
      invariant (step state event).1 (past ++ (step state event).2))
    {state : σ} {past : List ο} (initially : invariant state past) (events : List ε) :
    invariant (final step state events) (past ++ seen step state events) := by
  induction events generalizing state past with
  | nil => simpa [seen, final] using initially
  | cons event rest ih =>
    have continued := ih (preserved state past event initially)
    rwa [List.append_assoc] at continued

/-- A run each of whose steps meets a condition on the state before it. -/
def Always (step : σ → ε → σ × List ο) (condition : σ → ε → Prop) (state : σ) : List ε → Prop
  | [] => True
  | event :: rest => condition state event ∧ Always step condition (step state event).1 rest

theorem always_of_forall {condition : ε → Prop} (state : σ) {events : List ε} (all : ∀ event ∈ events, condition event) :
    Always step (fun _ event => condition event) state events := by
  induction events generalizing state with
  | nil => trivial
  | cons event rest ih =>
    exact ⟨all event List.mem_cons_self, ih _ fun later member => all later (List.mem_cons_of_mem event member)⟩

theorem invariant_of_always {condition : σ → ε → Prop} {invariant : σ → Prop}
    (preserved : ∀ state event, invariant state → condition state event → invariant (step state event).1)
    {state : σ} (initially : invariant state) {events : List ε} (always : Always step condition state events) :
    invariant (final step state events) := by
  induction events generalizing state with
  | nil => exact initially
  | cons event rest ih => exact ih (preserved state event initially always.1) always.2

/-- What every step meets that is taken under an invariant and a condition. -/
theorem always_of_always {condition other : σ → ε → Prop} {invariant : σ → Prop}
    (preserved : ∀ state event, invariant state → condition state event →
      invariant (step state event).1 ∧ other state event)
    {state : σ} (initially : invariant state) {events : List ε} (always : Always step condition state events) :
    Always step other state events := by
  induction events generalizing state with
  | nil => trivial
  | cons event rest ih =>
    obtain ⟨kept, meets⟩ := preserved state event initially always.1
    exact ⟨meets, ih kept always.2⟩

/-- What is preserved and what is seen when every step meets a condition. -/
theorem final_of_always {condition : σ → ε → Prop} {invariant : σ → Prop} {fine : ο → Prop}
    (preserved : ∀ state event, invariant state → condition state event →
      invariant (step state event).1 ∧ ∀ observed ∈ (step state event).2, fine observed)
    {state : σ} (initially : invariant state) {events : List ε} (always : Always step condition state events) :
    invariant (final step state events) ∧ ∀ observed ∈ seen step state events, fine observed := by
  induction events generalizing state with
  | nil => exact ⟨initially, nofun⟩
  | cons event rest ih =>
    obtain ⟨kept, shown⟩ := preserved state event initially always.1
    obtain ⟨last, later⟩ := ih kept always.2
    refine ⟨last, fun observed member => ?_⟩
    rcases List.mem_append.mp member with now | after
    · exact shown observed now
    · exact later observed after

/-- What is preserved, together with what was seen so far, when every step meets a condition. -/
theorem history_of_always {condition : σ → ε → Prop} {invariant : σ → List ο → Prop}
    (preserved : ∀ state past event, invariant state past → condition state event →
      invariant (step state event).1 (past ++ (step state event).2))
    {state : σ} {past : List ο} (initially : invariant state past) {events : List ε}
    (always : Always step condition state events) :
    invariant (final step state events) (past ++ seen step state events) := by
  induction events generalizing state past with
  | nil => simpa [seen, final] using initially
  | cons event rest ih =>
    have continued := ih (preserved state past event initially always.1) always.2
    rwa [List.append_assoc] at continued

/-- What is kept exactly as long as a condition on the steps holds, and lost with the first step that fails it. What is
good may be a matter of what was seen so far. -/
theorem history_iff {condition : σ → ε → Prop} {invariant good : σ → List ο → Prop}
    (kept : ∀ state seen event, invariant state seen → condition state event →
      invariant (step state event).1 (seen ++ (step state event).2))
    (lost : ∀ state seen event, invariant state seen → ¬ condition state event →
      ¬ good (step state event).1 (seen ++ (step state event).2))
    (holds : ∀ state seen, invariant state seen → good state seen)
    {state : σ} {before : List ο} (initially : invariant state before) (events : List ε) :
    (∀ past, past <+: events → good (final step state past) (before ++ seen step state past)) ↔
      Always step condition state events := by
  induction events generalizing state before with
  | nil =>
    refine ⟨fun _ => trivial, fun _ past start => ?_⟩
    rw [List.prefix_nil.mp start]
    simpa [final, seen] using holds state before initially
  | cons event rest ih =>
    constructor
    · intro all
      have now : condition state event := by
        by_contra fails
        have first := all [event] ⟨rest, rfl⟩
        simp only [final, seen, List.append_nil] at first
        exact lost state before event initially fails first
      refine ⟨now, (ih (kept state before event initially now)).mp fun past start => ?_⟩
      have next := all (event :: past) (List.cons_prefix_cons.mpr ⟨rfl, start⟩)
      simpa [final, seen] using next
    · rintro ⟨now, later⟩ past start
      cases past with
      | nil => simpa [final, seen] using holds state before initially
      | cons first past =>
        obtain ⟨rfl, shorter⟩ := List.cons_prefix_cons.mp start
        have next := (ih (kept state before first initially now)).mpr later past shorter
        simpa [final, seen] using next

theorem always_iff {condition : σ → ε → Prop} {invariant good : σ → Prop}
    (kept : ∀ state event, invariant state → condition state event → invariant (step state event).1)
    (lost : ∀ state event, invariant state → ¬ condition state event → ¬ good (step state event).1)
    (holds : ∀ state, invariant state → good state)
    {state : σ} (initially : invariant state) (events : List ε) :
    (∀ past, past <+: events → good (final step state past)) ↔ Always step condition state events := by
  have history := @history_iff _ _ _ step condition (fun state _ => invariant state) (fun state _ => good state)
    (fun state _ => kept state) (fun state _ => lost state) (fun state _ => holds state) _ [] initially events
  exact history

/-- Two systems that take the same events stay related exactly as long as a condition on the steps of the first holds. -/
theorem related_iff {τ ο' : Type} {step' : τ → ε → τ × List ο'} {condition : σ → ε → Prop} {related : σ → τ → Prop}
    (kept : ∀ state other event, related state other → condition state event →
      related (step state event).1 (step' other event).1)
    (lost : ∀ state other event, related state other → ¬ condition state event →
      ¬ related (step state event).1 (step' other event).1)
    {state : σ} {other : τ} (initially : related state other) (events : List ε) :
    (∀ past, past <+: events → related (final step state past) (final step' other past)) ↔
      Always step condition state events := by
  induction events generalizing state other with
  | nil =>
    refine ⟨fun _ => trivial, fun _ past start => ?_⟩
    rw [List.prefix_nil.mp start]
    exact initially
  | cons event rest ih =>
    constructor
    · intro all
      have now : condition state event := by
        by_contra fails
        exact lost state other event initially fails (all [event] ⟨rest, rfl⟩)
      refine ⟨now, (ih (kept state other event initially now)).mp fun past start => ?_⟩
      exact all (event :: past) (List.cons_prefix_cons.mpr ⟨rfl, start⟩)
    · rintro ⟨now, later⟩ past start
      cases past with
      | nil => exact initially
      | cons first past =>
        obtain ⟨rfl, shorter⟩ := List.cons_prefix_cons.mp start
        exact (ih (kept state other first initially now)).mpr later past shorter

/-- Two systems that show the same in every step show the same in every run. -/
theorem seen_eq_of_always {τ : Type} {step' : τ → ε → τ × List ο} {condition : σ → ε → Prop} {related : σ → τ → Prop}
    (followed : ∀ state other event, related state other → condition state event →
      related (step state event).1 (step' other event).1 ∧ (step state event).2 = (step' other event).2)
    {state : σ} {other : τ} (initially : related state other) {events : List ε}
    (always : Always step condition state events) : seen step state events = seen step' other events := by
  induction events generalizing state other with
  | nil => rfl
  | cons event rest ih =>
    obtain ⟨relates, same⟩ := followed state other event initially always.1
    rw [seen, seen, same, ih relates always.2]

/-- A preorder that every step follows under an invariant relates the ends of every run. -/
theorem related_of_step {invariant : σ → Prop} {relation : σ → σ → Prop} (reflexive : ∀ state, relation state state)
    (transitive : ∀ {first second third}, relation first second → relation second third →
      relation first third)
    (followed : ∀ state event, invariant state → invariant (step state event).1 ∧ relation state (step state event).1)
    {state : σ} (initially : invariant state) (events : List ε) : relation state (final step state events) := by
  induction events generalizing state with
  | nil => exact reflexive state
  | cons event rest ih =>
    obtain ⟨kept, related⟩ := followed state event initially
    exact transitive related (ih kept)

theorem countP_eq_some {ν : Type} [DecidableEq ν] (visible : ο → Option ν) (value : ν) (observed : List ο) :
    observed.countP (fun item => visible item = some value) = (observed.filterMap visible).count value := by
  rw [List.count_filterMap]
  exact List.countP_congr fun _ _ => by simp

/-- What is seen only on spending something that stays spent is seen at most once. -/
theorem seen_at_most_once {invariant : σ → Prop} (spent : σ → Prop) (visible : ο → Bool)
    (preserved : ∀ state event, invariant state → invariant (step state event).1)
    (stable : ∀ state event, invariant state → spent state → spent (step state event).1)
    (spends : ∀ state event, invariant state → 0 < (step state event).2.countP visible →
      (step state event).2.countP visible = 1 ∧ ¬ spent state ∧ spent (step state event).1)
    {state : σ} (initially : invariant state) (events : List ε) :
    (seen step state events).countP visible ≤ 1 ∧
      (spent state → (seen step state events).countP visible = 0) := by
  induction events generalizing state with
  | nil => simp [seen]
  | cons event rest ih =>
    obtain ⟨once, never⟩ := ih (preserved state event initially)
    simp only [seen, List.countP_append]
    by_cases now : 0 < (step state event).2.countP visible
    · obtain ⟨single, fresh, after⟩ := spends state event initially now
      exact ⟨by have := never after; omega, fun before => absurd before fresh⟩
    · exact ⟨by omega, fun before => by have := never (stable state event initially before); omega⟩

/-- Values that each lie above a level which never falls, and raise it, come in increasing order. -/
theorem seen_increasing {ν : Type} [LinearOrder ν] {invariant : σ → Prop} (level : σ → ν) (visible : ο → Option ν)
    (preserved : ∀ state event, invariant state → invariant (step state event).1)
    (rising : ∀ state event, invariant state → level state ≤ level (step state event).1)
    (raises : ∀ state event, invariant state → ((step state event).2.filterMap visible = [] ∨
      ∃ value, (step state event).2.filterMap visible = [value] ∧ level state < value ∧
        value ≤ level (step state event).1))
    {state : σ} (initially : invariant state) (events : List ε) :
    ((seen step state events).filterMap visible).Pairwise (· < ·) ∧
      ∀ value ∈ (seen step state events).filterMap visible, level state < value := by
  induction events generalizing state with
  | nil => simp [seen]
  | cons event rest ih =>
    obtain ⟨sorted, above⟩ := ih (preserved state event initially)
    have rise := rising state event initially
    simp only [seen, List.filterMap_append]
    rcases raises state event initially with silent | ⟨value, single, higher, reached⟩
    · rw [silent]
      exact ⟨sorted, fun value member => lt_of_le_of_lt rise (above value member)⟩
    · rw [single]
      refine ⟨List.pairwise_cons.mpr ⟨fun later member => lt_of_le_of_lt reached (above later member), sorted⟩, ?_⟩
      intro later member
      rcases List.mem_cons.mp member with rfl | member
      · exact higher
      · exact lt_of_le_of_lt rise (above later member)

/-- What holds of a state, of the events that have led to it and of what was seen of them. -/
theorem past_of_step {invariant : σ → List ε → List ο → Prop}
    (preserved : ∀ state past shown event, invariant state past shown →
      invariant (step state event).1 (past ++ [event]) (shown ++ (step state event).2))
    {state : σ} (initially : invariant state [] []) (events : List ε) :
    invariant (final step state events) events (seen step state events) := by
  have general (rest : List ε) : ∀ state past shown, invariant state past shown →
      invariant (final step state rest) (past ++ rest) (shown ++ seen step state rest) := by
    induction rest with
    | nil => intro state past shown now; simpa [final, seen] using now
    | cons event rest ih =>
      intro state past shown now
      have later := ih _ _ _ (preserved state past shown event now)
      rwa [List.append_assoc, List.append_assoc] at later
  exact general events state [] [] initially

/-- What holds at the end of a run has held from its start, or one of its events has caused it. -/
theorem cause_of_step {invariant fact : σ → Prop} {cause : σ → ε → Prop}
    (preserved : ∀ state event, invariant state → invariant (step state event).1)
    (arises : ∀ state event, invariant state → fact (step state event).1 → fact state ∨ cause state event)
    {state : σ} (initially : invariant state) {events : List ε} (now : fact (final step state events)) :
    fact state ∨ ∃ past event rest, events = past ++ event :: rest ∧ cause (final step state past) event := by
  induction events generalizing state with
  | nil => exact .inl now
  | cons event rest ih =>
    rcases ih (preserved state event initially) now with before | ⟨past, later, behind, rfl, caused⟩
    · rcases arises state event initially before with earlier | caused
      · exact .inl earlier
      · exact .inr ⟨[], event, rest, rfl, caused⟩
    · exact .inr ⟨event :: past, later, behind, rfl, caused⟩

/-- A system whose every step is a run of another one makes runs of the other one only. -/
theorem run_of_step {τ ε' ο' : Type} {step' : τ → ε' → τ × List ο'} {invariant : σ → Prop} (project : σ → τ)
    (visible : ο → Option ο') (preserved : ∀ state event, invariant state → invariant (step state event).1)
    (goes : ∀ state event, invariant state → ∃ events', project (step state event).1 = final step' (project state) events' ∧
      (step state event).2.filterMap visible = seen step' (project state) events')
    {state : σ} (initially : invariant state) (events : List ε) :
    ∃ events', project (final step state events) = final step' (project state) events' ∧
      (seen step state events).filterMap visible = seen step' (project state) events' := by
  induction events generalizing state with
  | nil => exact ⟨[], rfl, rfl⟩
  | cons event rest ih =>
    obtain ⟨first, reached, shown⟩ := goes state event initially
    obtain ⟨later, reached', shown'⟩ := ih (preserved state event initially)
    rw [reached] at reached' shown'
    refine ⟨first ++ later, ?_, ?_⟩
    · rw [final_append]
      exact reached'
    · rw [seen_append, seen, List.filterMap_append, shown, shown']

/-! ## What is owed

An observation may owe an item, which is then held by the state until another observation
pays for it. -/

section Owed

variable {τ : Type} {condition : σ → ε → Prop} {invariant : σ → Prop} {paid owes : ο → τ → Prop} {held : σ → τ → Prop}

/-- What is held stays so until it is paid for. -/
theorem held_of_step
    (preserved : ∀ state event, invariant state → condition state event → invariant (step state event).1)
    (keeps : ∀ state event item, invariant state → held state item →
      held (step state event).1 item ∨ ∃ observed ∈ (step state event).2, paid observed item)
    {state : σ} (initially : invariant state) {events : List ε} (always : Always step condition state events) {item : τ}
    (now : held state item) :
    held (final step state events) item ∨ ∃ observed ∈ seen step state events, paid observed item := by
  induction events generalizing state with
  | nil => exact .inl now
  | cons event rest ih =>
    rcases keeps state event item initially now with after | ⟨observed, member, pays⟩
    · rcases ih (preserved state event initially always.1) always.2 after with last | ⟨observed, member, pays⟩
      · exact .inl last
      · exact .inr ⟨observed, List.mem_append_right _ member, pays⟩
    · exact .inr ⟨observed, List.mem_append_left _ member, pays⟩

/-- What an observation of a run owes is held at its end, or has been paid for since. -/
theorem owed_of_step
    (preserved : ∀ state event, invariant state → condition state event → invariant (step state event).1)
    (keeps : ∀ state event item, invariant state → held state item →
      held (step state event).1 item ∨ ∃ observed ∈ (step state event).2, paid observed item)
    (takes : ∀ state event item before observed later, invariant state →
      (step state event).2 = before ++ observed :: later → owes observed item → held (step state event).1 item ∨ ∃ observed ∈ later, paid observed item)
    {state : σ} (initially : invariant state) {events : List ε} (always : Always step condition state events)
    {before later : List ο} {observed : ο} {item : τ}
    (split : seen step state events = before ++ observed :: later) (owed : owes observed item) :
    held (final step state events) item ∨ ∃ observed ∈ later, paid observed item := by
  induction events generalizing state before with
  | nil => simp [seen] at split
  | cons event rest ih =>
    have kept := preserved state event initially always.1
    simp only [seen, final] at split ⊢
    rcases split_append split with ⟨middle, where_, rfl⟩ | ⟨middle, _, tail⟩
    · -- the observation is one of this step
      rcases takes state event item before observed middle initially where_ owed with now | ⟨other, member, pays⟩
      · rcases held_of_step preserved keeps kept always.2 now with last | ⟨other, member, pays⟩
        · exact .inl last
        · exact .inr ⟨other, List.mem_append_right _ member, pays⟩
      · exact .inr ⟨other, List.mem_append_left _ member, pays⟩
    · exact ih kept always.2 tail

end Owed

/-! ## What an observer accepts

An observer goes from one of its own states to the next one with each observation, or rejects it.
-/

section Observer

variable {τ : Type} {condition : σ → ε → Prop} {advance : τ → ο → Option τ} {related : σ → τ → Prop}

/-- An observer that keeps up with every step accepts all that is seen of a run. -/
theorem observed_of_always
    (followed : ∀ state event phase, related state phase → condition state event →
      ∃ next, (step state event).2.foldlM advance phase = some next ∧ related (step state event).1 next)
    {state : σ} {phase : τ} (initially : related state phase) {events : List ε}
    (always : Always step condition state events) :
    ∃ next, (seen step state events).foldlM advance phase = some next ∧ related (final step state events) next := by
  induction events generalizing state phase with
  | nil => exact ⟨phase, rfl, initially⟩
  | cons event rest ih =>
    obtain ⟨middle, accepted, relates⟩ := followed state event phase initially always.1
    obtain ⟨last, later, ends⟩ := ih relates always.2
    refine ⟨last, ?_, ends⟩
    rw [seen, List.foldlM_append, accepted]
    exact later

end Observer

/-! ## Histories

What may be observed next is a matter of what was observed before.
-/

/-- Everything that was observed was lawful after what came before it. -/
def Lawful (law : List ο → ο → Prop) (past : List ο) : Prop :=
  ∀ before observed, before ++ [observed] <+: past → law before observed

theorem lawful_nil (law : List ο → ο → Prop) : Lawful law [] := by
  intro before observed start
  have length := start.length_le
  simp at length

theorem Lawful.concat {law : List ο → ο → Prop} {past : List ο} {observed : ο} (lawful : Lawful law past)
    (next : law past observed) : Lawful law (past ++ [observed]) := by
  intro before other start
  rcases List.prefix_concat_iff.mp start with same | earlier
  · obtain ⟨rfl, equal⟩ := List.append_inj' same rfl
    cases equal
    exact next
  · exact lawful before other earlier

theorem Lawful.split {law : List ο → ο → Prop} {past before later : List ο} {observed : ο} (lawful : Lawful law past)
    (split : past = before ++ observed :: later) : law before observed := by
  apply lawful
  rw [split]
  exact ⟨later, by simp⟩

theorem always_true (state : σ) (events : List ε) : Always step (fun _ _ => True) state events := by
  induction events generalizing state with
  | nil => trivial
  | cons event rest ih => exact ⟨trivial, ih _⟩

/-! ## Systems with a part for each key -/

section Keyed

variable {κ : Type} [DecidableEq κ] (step : σ → ε → σ × List ο)

def keyedStep (parts : κ → σ) (event : κ × ε) : (κ → σ) × List ο :=
  (Function.update parts event.1 (step (parts event.1) event.2).1, (step (parts event.1) event.2).2)

/-- The events of one key. -/
def eventsAt (key : κ) (events : List (κ × ε)) : List ε := (events.filter (·.1 = key)).map (·.2)

variable {step}

/-- A part goes through the events of its own key. -/
theorem final_keyedStep (parts : κ → σ) (events : List (κ × ε)) (key : κ) :
    final (keyedStep step) parts events key = final step (parts key) (eventsAt key events) := by
  induction events generalizing parts with
  | nil => rfl
  | cons event rest ih =>
    rw [final, ih]
    by_cases here : event.1 = key
    · subst here
      simp [eventsAt, keyedStep, final]
    · simp [eventsAt, keyedStep, here, Function.update_of_ne (Ne.symm here)]

/-- A condition on the events of one key is one on the run of its part. -/
theorem always_keyedStep {condition : σ → ε → Prop} {key : κ} (parts : κ → σ) (events : List (κ × ε)) :
    Always (keyedStep step) (fun parts event => event.1 = key → condition (parts key) event.2) parts events ↔
      Always step condition (parts key) (eventsAt key events) := by
  induction events generalizing parts with
  | nil => exact Iff.rfl
  | cons event rest ih =>
    rw [Always, ih]
    by_cases here : event.1 = key
    · subst here
      simp [eventsAt, keyedStep, Always]
    · simp [eventsAt, keyedStep, here, Function.update_of_ne (Ne.symm here)]

/-- The pasts of a part are its shares of the pasts of the whole. -/
theorem forall_prefix_eventsAt {motive : List ε → Prop} (key : κ) (events : List (κ × ε)) :
    (∀ past, past <+: events → motive (eventsAt key past)) ↔ ∀ past, past <+: eventsAt key events → motive past := by
  constructor
  · intro all past start
    obtain ⟨share, shorter, rfl⟩ := List.prefix_map_iff.mp start
    obtain ⟨whole, first, rfl⟩ := List.prefix_filter_iff.mp shorter
    exact all whole first
  · intro all past start
    exact all _ ((start.filter _).map _)

end Keyed

end Umbilical.Interleaving
