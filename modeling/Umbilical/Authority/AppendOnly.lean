import Umbilical.Authority.Durability

set_option autoImplicit false

/-!
# Durable history is append-only

No step of any process takes back what an earlier one made durable, so whatever
can be won is won once in a run.
-/

namespace Umbilical.Authority

open Python Execution Interleaving

variable {isabs : Str → Bool} {sha256 : List UInt8 → Text} {π : Type} [DecidableEq π]

/-- One durable state after another in the life of a store. -/
inductive Grows : Option Database → Option Database → Prop
  | same (store : Option Database) : Grows store store
  | reserved : Grows none (some .empty)
  | created {database : Database} (held : database.Holds 5 .empty) : Grows (some .empty) (some database)
  | appended {before after : Database} {version version' : Nat} {ledger later : Ledger}
      (held : before.Holds version ledger) (known : version ≤ version') (held' : after.Holds version' later)
      (appends : ledger.Appends later) : Grows (some before) (some after)

theorem initialized_holds {database : Database} {nothing : Unit}
    (ran : initializationBody.eval .empty = .ok nothing database) : database.Holds 5 .empty := by
  rw [initializationBody_eval] at ran
  cases ran
  exact Ledger.database_holds .empty

omit [DecidableEq π] in
theorem Stored.grows {before after : Option Database} {seen : List (Observation isabs sha256 π)}
    (stored : Stored before after seen) : Grows before after := by
  cases stored with
  | kept => exact .same before
  | reserved => exact .reserved
  | initialized ran => exact .created (initialized_holds ran)
  | @served durable database request response _ ran =>
    rcases Request.effect_of_eval ran with ⟨_, rfl⟩ | ⟨ledger, later, held, effect, rfl⟩
    · exact .same _
    · exact .appended held le_rfl (held.store later) effect.appends
  | @migrated durable database migration _ ran =>
    obtain ⟨⟨ledger, held⟩, rfl⟩ := migration.body_ok.mp ran
    exact .appended held (Nat.le_succ _) (migration.migrate_holds held) (.refl ledger)

/-- A valid store stays one, of no earlier version. -/
theorem Grows.version {before : Database} {after : Option Database} (grows : Grows (some before) after) {version : Nat}
    {ledger : Ledger} (since : 1 ≤ version) (held : before.Holds version ledger) :
    ∃ database version' later, after = some database ∧ database.Holds version' later ∧ version ≤ version' := by
  cases grows with
  | same => exact ⟨before, version, ledger, rfl, held, le_rfl⟩
  | created => exact absurd held (Database.empty_not_holds since)
  | @appended _ after version' version'' _ later held' known holds _ =>
    obtain ⟨rfl, _⟩ := held.unique held'
    exact ⟨after, version'', later, rfl, holds, known⟩

/-- What an observation says to have been won. -/
def Observation.won : Observation isabs sha256 π → Option Fact
  | .returned _ request response => request.won response
  | _ => none

omit [DecidableEq π] in
theorem Observation.Silent.won {observed : Observation isabs sha256 π} (silent : observed.Silent) : observed.won = none := by
  cases observed with
  | returned | entered => cases silent
  | _ => rfl

omit [DecidableEq π] in
theorem filterMap_won_silent {seen : List (Observation isabs sha256 π)} (silent : ∀ observed ∈ seen, observed.Silent) :
    seen.filterMap Observation.won = [] :=
  List.filterMap_eq_nil_iff.mpr fun observed member => (silent observed member).won

omit [DecidableEq π] in
/-- A step wins at most one thing, which was not there before. -/
theorem Transition.wins {stage next : Stage isabs sha256} {before after : Ledger} {process : π} {event : Event isabs}
    {seen : List (Observation isabs sha256 π)} (transition : Transition stage before process event next after seen) :
    before.Appends after ∧ (seen.filterMap Observation.won = [] ∨
      ∃ fact, seen.filterMap Observation.won = [fact] ∧ ¬ fact.In before ∧ fact.In after) := by
  cases transition with
  | @answered request response _ _ asks served =>
    refine ⟨served.effect.appends, ?_⟩
    cases won : request.won response with
    | none => exact .inl (by simp [Observation.won, won])
    | some fact => exact .inr ⟨fact, by simp [Observation.won, won], served.effect.wins won⟩
  | failed asks uncertain silent =>
    refine ⟨?_, .inl (filterMap_won_silent silent)⟩
    rcases uncertain with rfl | ⟨response, served⟩
    · exact .refl _
    · exact served.effect.appends
  | entered launching => exact ⟨.refl before, .inl rfl⟩
  | aside turns silent => exact ⟨.refl before, .inl (filterMap_won_silent silent)⟩

namespace World

/-- A step that shows that something was won spends it. -/
theorem Sound.spends {world : World isabs sha256 π} (sound : world.Sound world.ledger) (event : π × Event isabs) (fact : Fact)
    (shown : 0 < (world.step event).2.countP fun observed => observed.won = some fact) :
    ((world.step event).2.countP fun observed => observed.won = some fact) = 1 ∧ ¬ fact.In world.ledger ∧
      fact.In (world.step event).1.ledger := by
  rw [countP_eq_some] at shown ⊢
  rcases (sound.follows event).transition.wins.2 with silent | ⟨other, single, fresh, there⟩
  · rw [silent] at shown
    cases shown
  · obtain rfl : other = fact := by
      by_contra different
      rw [single, List.count_singleton, if_neg (by simpa using different)] at shown
      cases shown
    exact ⟨by rw [single, List.count_singleton_self], fresh, there⟩

/-- Every step of every run leaves the durable history in place, and nothing is won twice. -/
theorem appends_only (store : Option Database) (events : List (π × Event isabs)) :
    (∀ event : π × Event isabs, Grows (final step (start store : World isabs sha256 π) events).store
      (step (final step (start store : World isabs sha256 π) events) event).1.store) ∧
    ∀ fact, (seen step (start store : World isabs sha256 π) events).countP (fun observed => observed.won = some fact) ≤ 1 := by
  refine ⟨fun event => ((reachable_sound store events).step_stored event).grows, fun fact => ?_⟩
  have once := seen_at_most_once (fun world : World isabs sha256 π => fact.In world.ledger)
    (fun observed => observed.won = some fact) step_sound
    (fun world event sound there => (sound.follows event).transition.wins.1.keeps there)
    (fun world event sound => sound.spends event fact) (start_sound_any store) events
  exact once.1

end World

end Umbilical.Authority
