import Umbilical.Authority.Calm
import Umbilical.Authority.Refinement
import Umbilical.Authority.Service

set_option autoImplicit false

/-!
# What a failed call leaves behind

A call that raises before its `COMMIT` changes nothing, unless a string argument
without a UTF-8 encoding gets as far as a statement: nothing catches the error of
binding it, and the transaction stays open.
-/

namespace Umbilical.Authority

open Python

/-- Before `COMMIT` an error leaves the durable state and the handle as they were, or the handle spent. -/
def Request.FailsCleanly (request : Request) : Prop :=
  ∀ (call : Call) (error : PyError) (after : Call), call.transaction = none → call.commitStarted = false →
    request.run call = .error error after → error ≠ .processDied → after.commitStarted = false →
      after.durable = call.durable ∧ (after.handle = call.handle ∨ after.handle = .spent)

theorem Binds.caught {str : Str} (encodable : str.Encodable) : Binds Caught str := .of_encodable encodable

/-- No error that the `except` clauses miss. -/
def ConcludesCleanly (call : Call) {α : Type} (_ : Statements α) (result : EStateM.Result PyError Call α) : Prop :=
  ∀ error after, result = .error error after → error ≠ .processDied → after.commitStarted = false →
    after.durable = call.durable ∧ after.handle.Settled

theorem Concluded.cleanly {α : Type} {body : Statements α} {call : Call} {result : EStateM.Result PyError Call α}
    (raises : body.RaisesOnly Caught Caught) (concluded : Concluded body call result) :
    ConcludesCleanly call body result := by
  intro error after same alive unstarted
  cases concluded with
  | committed => cases same
  | uncertain evaluated started =>
    cases same
    rw [started] at unstarted
    cases unstarted
  | refused kept settled =>
    cases same
    exact ⟨kept, settled.resolve_right alive⟩
  | abandoned kept evaluated uncaught =>
    cases same
    exact absurd ((raises.eval evaluated).elim id id) uncaught

theorem cleanly_concludes (call : Call) : Concludes Caught call (ConcludesCleanly call) where
  map f body run cleanly := by
    intro error after failed
    rw [map_run] at failed
    generalize run call = result at cleanly failed
    cases result with
    | ok value reached => cases failed
    | error other reached =>
      cases failed
      exact cleanly error after rfl
  ordinary immediate message raises usable :=
    (ordinary_concluded (raises.mono (fun _ _ => trivial) fun _ => id) usable immediate message).cleanly raises
  consequential operation raises usable :=
    (consequential_concluded (raises.mono (fun _ _ => trivial) fun _ => id) usable operation).cleanly raises

theorem Request.failsCleanly_of_binds {request : Request} (binds : request.Binds Str.Encodable) :
    request.FailsCleanly := by
  intro call error after outside unstarted failed alive uncommitted
  have answered := request.run_answered (fun _ => id) (binds.mono fun _ => .caught) (cleanly_concludes call)
  rw [failed] at answered
  generalize same : EStateM.Result.error error after = result at answered
  cases answered with
  | concluded usable cleanly =>
    obtain ⟨kept, settled⟩ := cleanly error after same.symm alive uncommitted
    refine ⟨kept, settled.imp (fun ready => ?_) id⟩
    rcases Handle.usable_iff.mp usable with before | ⟨transaction, before⟩
    · rw [ready, before]
    · rw [Call.transaction, before] at outside
      cases outside
  | unusable | rejected =>
    cases same
    exact ⟨rfl, .inl rfl⟩
  | immediate => cases same

section Abandonment

/-- Statements that end with the error nothing catches. -/
def Abandons {α : Type} (database : Database) (body : Statements α) : Prop :=
  body.eval database = .error .unicodeEncodeError database

variable {α β : Type} {database : Database} {body : Statements α} {next : α → Statements β}

theorem Abandons.bind (abandons : Abandons database body) : Abandons database (body >>= next) := by
  rw [Abandons, Script.eval_bind, abandons]

theorem Abandons.map {f : α → β} (abandons : Abandons database body) : Abandons database (f <$> body) := by
  rw [Abandons, Script.eval_map, abandons]

theorem Abandons.after {value : α} (evaluated : body.eval database = .ok value database)
    (abandons : Abandons database (next value)) : Abandons database (body >>= next) := by
  rw [Abandons, Script.eval_bind, evaluated]
  exact abandons

theorem Abandons.accepted {checked : Except PyError α} {accepted : α} (valid : checked = .ok accepted)
    (abandons : Abandons database (next accepted)) : Abandons database (Script.lift checked >>= next) := by
  rw [valid]
  exact .after rfl abandons

/-- With an engine that does not fail and no other user of the store, the call leaves its transaction open. -/
theorem Request.not_failsCleanly {request : Request} (abandons : Abandons database request.body) :
    ¬ request.FailsCleanly := by
  intro cleanly
  let call : Call := ⟨database, false, .ready, [], false⟩
  have answered : Answered call _ request.body (request.run call) := request.run_calm Calm.nil rfl
  generalize same : request.run call = result at answered
  cases answered with
  | concluded usable concluded =>
    cases concluded with
    | committed evaluated => cases abandons.symm.trans evaluated
    | refused evaluated caught =>
      cases abandons.symm.trans evaluated
      cases caught
    | @abandoned error after contents evaluated uncaught kept left unstarted =>
      cases abandons.symm.trans evaluated
      obtain ⟨transaction, inside⟩ := left
      obtain ⟨_, unchanged | spent⟩ := cleanly call _ _ rfl rfl same nofun unstarted
      · rw [inside] at unchanged
        cases unchanged
      · rw [inside] at spent
        cases spent
    | blocked blocked =>
      rcases blocked with transaction | locked
      · cases transaction
      · cases locked
  | unusable unusable => exact unusable Handle.ready_usable
  | rejected usable invalid evaluated =>
    cases abandons.symm.trans evaluated
    cases invalid
  | immediate usable evaluated => cases abandons.symm.trans evaluated

variable {ledger : Ledger} (held : database.Holds 5 ledger) {str : Str} (unencodable : ¬ str.Encodable)
include held unencodable

theorem afterSelect_abandons (table : Table) (rest : Option Row → Statements α) :
    Abandons database (do validateStore; let row ← Statements.select table str; rest row) :=
  .after (validateStore_eval held) (.bind (select_unencodable table unencodable))

theorem afterRegistered_abandons (message : String) (rest : Unit → Statements α) :
    Abandons database (do validateStore; let nothing ← requireRegistered str message; rest nothing) :=
  .after (validateStore_eval held) (.bind (.bind (select_unencodable .executionKeys unencodable)))

theorem afterLaunch_abandons {hash : Str} {state : ExecutionLaunchState} {missing mismatch illegal : String}
    (rest : ExecutionLaunch → Statements α) :
    Abandons database (do
      validateStore
      let launch ← requireLaunch str hash state missing mismatch illegal
      rest launch) :=
  .after (validateStore_eval held) (.bind (.bind (select_unencodable .executionLaunches unencodable)))

/-- The scope is looked up once the key is known to be bound. -/
theorem admitExecutionBody_abandons {key : Text} (bound : (ledger.binding key).isSome) (generation : Int) :
    Abandons database (admitExecutionBody (Str.ofText key) str generation) := by
  obtain ⟨binding, found⟩ := Option.isSome_iff_exists.mp bound
  have registered := requireRegistered_checks held key "execution admission requires a registered ExecutionKey"
  rw [if_pos (ledger.registered_of_binding found)] at registered
  have hash := requireBinding_checks held key "execution admission requires an immutable CommandSpecHash binding"
  rw [found] at hash
  exact .after (validateStore_eval held) (.after registered (.after hash
    (.bind (.bind (select_unencodable .controllerGenerations unencodable)))))

end Abandonment

/-- A ledger in which a key is registered and bound to a command. -/
def Ledger.bound (key : Named) : Ledger :=
  (Ledger.empty.register key.val key.named rfl).bind ⟨key.val, ['h']⟩ (by simp)
    ((Ledger.registered_iff _).mpr (by simp [Ledger.register, Ledger.empty])) rfl

theorem Request.binds_of_failsCleanly {request : Request} (cleanly : request.FailsCleanly) :
    request.Binds Str.Encodable := by
  by_contra unbound
  have held := Ledger.database_holds .empty
  have dirty {request : Request} (cleanly : request.FailsCleanly)
      (abandons : Abandons Ledger.empty.database request.body) : False := Request.not_failsCleanly abandons cleanly
  cases request with
  | acquireGeneration scope | readGeneration scope =>
    simp only [Binds, not_forall] at unbound
    obtain ⟨accepted, valid, unencodable⟩ := unbound
    exact dirty cleanly (.accepted valid (.map (afterSelect_abandons held unencodable _ _)))
  | isCurrentGeneration scope generation =>
    simp only [Binds, not_forall] at unbound
    obtain ⟨exact_, accepted, valid, unencodable⟩ := unbound
    obtain ⟨number, same⟩ := Option.isSome_iff_exists.mp exact_
    refine dirty cleanly (.accepted valid (.map ?_))
    rw [isCurrentGenerationBody, same]
    exact .map (afterSelect_abandons held unencodable _ _)
  | registerExecutionKey key | executionKeyExists key =>
    simp only [Binds, not_forall] at unbound
    obtain ⟨accepted, valid, unencodable⟩ := unbound
    exact dirty cleanly (.accepted valid (.map (afterSelect_abandons held unencodable _ _)))
  | readCommandSpecHash key | readExecutionAdmission key | readExecutionLaunch key =>
    simp only [Binds, not_forall] at unbound
    obtain ⟨accepted, valid, unencodable⟩ := unbound
    exact dirty cleanly (.accepted valid (.map (afterRegistered_abandons held unencodable _ _)))
  | bindCommandSpecHash key hash =>
    simp only [Binds, not_forall] at unbound
    obtain ⟨accepted, valid, unencodable⟩ := unbound
    exact dirty cleanly (.accepted valid (.map (afterRegistered_abandons held unencodable _ _)))
  | claimExecutionLaunch key scope generation hash =>
    simp only [Binds, not_forall] at unbound
    obtain ⟨accepted, valid, unencodable⟩ := unbound
    exact dirty cleanly (.accepted valid (.map (afterRegistered_abandons held unencodable _ _)))
  | markExecutionLaunchUnknown key hash =>
    simp only [Binds, not_forall] at unbound
    obtain ⟨accepted, valid, unencodable⟩ := unbound
    exact dirty cleanly (.accepted valid (.map (afterLaunch_abandons held unencodable _)))
  | recordExecutionTerminalResult key hash exitCode =>
    simp only [Binds, not_forall] at unbound
    obtain ⟨accepted, valid, unencodable⟩ := unbound
    exact dirty cleanly (.accepted valid (.map (afterLaunch_abandons held unencodable _)))
  | admitExecution key scope generation =>
    simp only [Binds, not_forall] at unbound
    obtain ⟨accepted, valid, unencodable⟩ := unbound
    by_cases stored : accepted.1.Encodable
    · obtain ⟨text, same⟩ := Str.encodable_iff.mp stored
      have named : text ≠ [] := by
        rintro rfl
        exact (validateExecutionKey_ok.mp (validateAdmission_ok valid).1).2 same
      have bound : ((Ledger.bound ⟨text, named⟩).binding text).isSome := by
        simp [Ledger.binding, Ledger.bound, Ledger.bind, Ledger.register, Ledger.empty, Keyed.lookup]
      have held := Ledger.database_holds (.bound ⟨text, named⟩)
      have abandons := admitExecutionBody_abandons held (fun both => unencodable ⟨stored, both⟩)
        bound accepted.2.2
      rw [← same] at abandons
      have whole : Abandons (Ledger.bound ⟨text, named⟩).database (admitExecution key scope generation).body :=
        .accepted valid (.map abandons)
      exact Request.not_failsCleanly whole cleanly
    · exact dirty cleanly (.accepted valid (.map (afterRegistered_abandons held stored _ _)))

/-- Exactly the requests that bind no string without an encoding fail cleanly. -/
theorem Request.failsCleanly_iff (request : Request) : request.FailsCleanly ↔ request.Binds Str.Encodable :=
  ⟨Request.binds_of_failsCleanly, Request.failsCleanly_of_binds⟩

/-- A key that is one lone surrogate passes the argument check of a registration and of nothing after it. -/
theorem registration_of_surrogate_not_clean : ¬ (Request.registerExecutionKey (.str [.surrogate 0])).FailsCleanly :=
  Request.not_failsCleanly (.accepted rfl (.map (afterSelect_abandons (Ledger.database_holds .empty) (by decide) _ _)))

end Umbilical.Authority
