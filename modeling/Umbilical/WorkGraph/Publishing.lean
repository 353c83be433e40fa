import Umbilical.Authority.AppendOnly
import Umbilical.WorkGraph.Preparing

set_option autoImplicit false

/-!
# Only what is terminal is published

A client publishes the exit code that it has read from the store or recorded in it,
and nobody takes back a terminal launch.
-/

namespace Umbilical.WorkGraph

open Python Authority Execution Program

variable {isabs : Str → Bool}

/-- Nothing is posted, and no result is reported to the store. -/
def Action.Mute : Action isabs → Prop
  | .ask (.post _ _ _) | .request (.recordExecutionTerminalResult _ _ _) => False
  | _ => True

theorem mute_of_asks {α : Type} {program : Client isabs α} {returns : α → Prop} (asks : program.Within Action.Asks returns) :
    program.Within Action.Mute returns := by
  refine asks.imp fun action asks => ?_
  cases action with
  | ask question =>
    cases question with
    | post => exact asks
    | _ => trivial
  | _ => exact asks.elim

theorem mute_bind {α β : Type} {first : Client isabs α} {next : α → Client isabs β} (mute : first.Within Action.Mute fun _ => True)
    (rest : ∀ value, (next value).Within Action.Mute fun _ => True) : (first >>= next).Within Action.Mute fun _ => True :=
  Within.bind mute fun value _ => rest value

theorem mute_inside {α : Type} (result : Except PyError α) : (inside result : Client isabs α).Within Action.Mute fun value => result = .ok value :=
  mute_of_asks (asks_inside result)

/-- The launch of the key is terminal. -/
def Ended (key hash : Str) (exitCode : Int) (ledger : Ledger) : Prop :=
  ∃ text launch, key = Str.ofText text ∧ ledger.launch text = some launch ∧ launch.state = .terminal ∧
    launch.exitCode = some exitCode ∧ hash = Str.ofText launch.commandSpecHash

/-- The status is that of a terminal launch, for the target and the contract of its key. -/
def Verdict (url : Text) (payload : StatusPayload) (ledger : Ledger) : Prop :=
  ∃ target contract key hash exitCode, target.Authentic target.revision ∧ executionKey target contract = .ok key ∧
    Ended key hash exitCode ledger ∧ url = statusUrl target ∧ payload = statusPayload exitCode

/-- A result that has an exit code has the one of its key. -/
def WorkGraphClientResult.Holds (result : WorkGraphClientResult) (ledger : Ledger) : Prop :=
  ∀ exitCode, result.exitCode = some exitCode → result.launchState = some .terminal ∧ result.publicationAttempted = true ∧
    ∃ hash, result.commandSpecHash = some hash ∧ Ended result.executionKey hash exitCode ledger

/-- Terminal launches stay. -/
def Remembers (before after : Ledger) : Prop :=
  ∀ key launch, before.launch key = some launch → launch.state = .terminal → after.launch key = some launch

theorem Remembers.refl (ledger : Ledger) : Remembers ledger ledger := fun _ _ found _ => found

theorem Remembers.of_appends {before after : Ledger} (appends : before.Appends after) : Remembers before after := by
  intro key launch found terminal
  obtain ⟨later, among, moves⟩ := appends.launches key launch found
  cases moves with
  | still => exact among
  | marked intended => cases intended.symm.trans terminal
  | ended unknown => cases unknown.symm.trans terminal

theorem Ended.remembered {key hash : Str} {exitCode : Int} {before after : Ledger} (ended : Ended key hash exitCode before)
    (remembers : Remembers before after) : Ended key hash exitCode after := by
  obtain ⟨text, launch, same, found, terminal, code⟩ := ended
  exact ⟨text, launch, same, remembers text launch found terminal, terminal, code⟩

/-- A key has one exit code. -/
theorem Ended.unique {key hash hash' : Str} {exitCode exitCode' : Int} {ledger : Ledger} (ended : Ended key hash exitCode ledger)
    (ended' : Ended key hash' exitCode' ledger) : exitCode = exitCode' ∧ hash = hash' := by
  obtain ⟨text, launch, rfl, found, _, code, rfl⟩ := ended
  obtain ⟨text', launch', same, found', _, code', rfl⟩ := ended'
  obtain rfl := Str.ofText_injective same
  cases found.symm.trans found'
  exact ⟨Option.some.inj (code.symm.trans code'), rfl⟩

/-- What an answer of the store says about it. -/
def Action.Tells : (action : Action isabs) → action.Answer → Ledger → Ledger → Prop
  | .request asked, reply, before, after => ∀ response, reply = .ok response → Served before asked response after
  | .execute key _ _ _, reply, _, after => ∀ result, reply = .ok result →
      ∀ text, key = .str text → Ended text result.commandSpecHash result.exitCode after
  | _, _, _, _ => True

/-- Only what is terminal is posted, and only `execute_local_command` reports results. -/
def Action.Allowed : Action isabs → Ledger → Prop
  | .ask (.post url _ payload), ledger => Verdict url payload ledger
  | .request (.recordExecutionTerminalResult _ _ _), _ => False
  | _, _ => True

/-- The client relies on what nobody can take back. -/
def contract : Contract (Action isabs) (Action.Answer isabs) Ledger where
  rely := Remembers
  may action before reply after := Remembers before after ∧ action.Tells reply before after
  allowed := Action.Allowed
  rely_trans first second key launch found terminal := second key launch (first key launch found terminal) terminal

/-- What nobody can take back. -/
def Lasting (known : Ledger → Prop) (ledger : Ledger) : Prop := ∀ later, Remembers ledger later → known later

theorem Ended.lasting {key hash : Str} {exitCode : Int} {ledger : Ledger} (ended : Ended key hash exitCode ledger) :
    Lasting (Ended key hash exitCode) ledger := fun _ remembers => ended.remembered remembers

section Safety

variable {α β : Type} {known : Ledger → Prop} {program : Client isabs α} {next : α → Client isabs β} {state : Ledger}

/-- What is known stays known, whatever the program comes to. -/
def Keeps (known : Ledger → Prop) (program : Client isabs α) (state : Ledger) : Prop :=
  program.Safe contract (fun _ => known) state

theorem Keeps.bind (first : Keeps known program state) (rest : ∀ value later, Lasting known later → Keeps known (next value) later) :
    Keeps known (program.bind next) state :=
  Safe.bind first rest fun _ _ => id

theorem Keeps.handle {handler : ClientError → Client isabs α} (first : Keeps known program state)
    (rest : ∀ error later, Lasting known later → Keeps known (handler error) later) : Keeps known (program.handle handler) state :=
  Safe.handle first (fun _ _ => id) rest

theorem keeps_lift (result : Except ClientError α) (lasting : Lasting known state) :
    Keeps known (lift result : Client isabs α) state := by
  cases result with
  | ok | error => exact lasting

theorem mute_harmless (action : Action isabs) (mute : action.Mute) (ledger : Ledger) :
    action.Allowed ledger ∧ ∀ reply after, Remembers ledger after ∧ action.Tells reply ledger after → Remembers ledger after := by
  refine ⟨?_, fun _ _ may => may.1⟩
  cases action with
  | ask question =>
    cases question with
    | post => cases mute
    | _ => trivial
  | request asked =>
    cases asked with
    | recordExecutionTerminalResult => cases mute
    | _ => trivial
  | _ => trivial

theorem keeps_mute {returns : α → Prop} (mute : program.Within Action.Mute returns) (lasting : Lasting known state) :
    Keeps known program state := by
  have safe : program.Safe contract _ state := mute.safe mute_harmless lasting
  exact safe.mono fun _ _ => And.left

/-- A terminal launch may be published, and stays terminal. -/
theorem keeps_publish {target : VerifiedWorkGraphTarget} {contractTree token : Text} {key hash : Str} {exitCode : Int}
    (authentic : target.Authentic target.revision) (derived : executionKey target contractTree = .ok key)
    (ended : Ended key hash exitCode state) :
    Keeps (Ended key hash exitCode) (publishTerminalStatus target exitCode token : Client isabs Unit) state := by
  refine (keeps_mute (mute_of_asks (verifyWorkgraphTarget_authentic _ _)) ended.lasting).bind fun current later ended => ?_
  split
  · exact ended
  · refine Keeps.bind (Keeps.handle ?_ fun error later ended => ?_) fun status later ended => ?_
    · -- the status is posted
      intro posting meanwhile
      have now := ended posting meanwhile
      refine ⟨⟨target, contractTree, key, hash, exitCode, authentic, derived, now, rfl, rfl⟩, fun reply after moved => ?_⟩
      exact keeps_lift _ (now.remembered moved.1).lasting
    · split <;> exact ended
    · split <;> exact ended

/-- The end of a run. -/
def Ends (result : Except ClientError WorkGraphClientResult) (ledger : Ledger) : Prop :=
  ∀ reported, result = .ok reported → reported.Holds ledger

theorem ends_error (error : ClientError) (ledger : Ledger) : Ends (.error error) ledger := by
  intro reported same
  cases same

theorem safe_mute {returns : α → Prop} {program : Client isabs α} {next : α → Client isabs WorkGraphClientResult}
    (mute : program.Within Action.Mute returns)
    (rest : ∀ value later, returns value → (next value).Safe contract Ends later) : (program.bind next).Safe contract Ends state := by
  have safe : program.Safe contract _ state := mute.safe mute_harmless (show Lasting (fun _ => True) state from fun _ _ => trivial)
  refine safe.bind (fun value later stably => ?_) fun error later _ => ends_error error later
  exact rest value later ((stably later (Remembers.refl later)).2 value rfl)

/-- A result with the exit code that has been published. -/
theorem safe_published {target : VerifiedWorkGraphTarget} {contractTree token : Text} {key hash : Str} {exitCode : Int}
    (authentic : target.Authentic target.revision) (derived : executionKey target contractTree = .ok key)
    (ended : Ended key hash exitCode state) {reported : WorkGraphClientResult}
    (same : reported = ⟨key, some hash, some exitCode, some .terminal, true⟩) :
    ((publishTerminalStatus target exitCode token).bind fun _ => pure reported : Client isabs _).Safe contract Ends state := by
  have publishing : Keeps (Ended key hash exitCode) (publishTerminalStatus target exitCode token : Client isabs Unit) state :=
    keeps_publish authentic derived ended
  refine Safe.bind publishing (fun _ later ended => ?_) fun error later _ => ends_error error later
  intro after remembers other returned
  cases returned
  subst same
  intro code shown
  cases shown
  exact ⟨rfl, rfl, hash, rfl, ended after remembers⟩

theorem safe_observe {target : VerifiedWorkGraphTarget} {contractTree token : Text} {key : Str} {prior : ExecutionLaunch}
    (authentic : target.Authentic target.revision) (derived : executionKey target contractTree = .ok key)
    (found : prior.state = .terminal → ∀ exitCode, prior.exitCode = some exitCode →
      Ended key (Str.ofText prior.commandSpecHash) exitCode state) :
    (observe target key token prior : Client isabs _).Safe contract Ends state := by
  unfold observe
  dsimp only
  split
  · intro later _ reported returned
    cases returned
    intro code shown
    cases shown
  · next terminal =>
    have terminal := not_not.mp terminal
    split
    · exact fun later _ => ends_error _ later
    · next exitCode has => exact safe_published authentic derived (found terminal exitCode has) (by rw [terminal])

theorem served_readLaunch {key : Str} {prior : ExecutionLaunch} {before after : Ledger}
    (served : Served before (.readExecutionLaunch (.str key)) (.launch (some prior)) after) :
    ∃ text, key = Str.ofText text ∧ after.launch text = some prior := by
  rcases served with ⟨⟨_, _, other⟩, _⟩ | served
  · cases other
  · obtain ⟨named, names, served⟩ := Option.bind_eq_some_iff.mp served
    obtain ⟨_, same, rfl⟩ := Ledger.serveRead_eq_some.mp served
    have exactly := (validateExecutionKey_ok.mp (named?_eq_some.mp names)).1
    exact ⟨named.val, PyValue.str.inj exactly, (Response.launch.inj same).symm⟩

/-- A terminal launch that was read is in the store. -/
theorem safe_readExecutionLaunch (key : Str) : (readExecutionLaunch (.str key) : Client isabs _).Safe contract
    (fun result ledger => ∀ prior, result = .ok (some prior) → prior.state = .terminal → ∀ exitCode,
      prior.exitCode = some exitCode → Ended key (Str.ofText prior.commandSpecHash) exitCode ledger) state := by
  intro later _
  refine ⟨trivial, fun reply after moved => ?_⟩
  cases reply with
  | error error =>
    intro _ _ prior same
    cases same
  | ok response =>
    cases response with
    | launch value =>
      intro reading remembers prior same terminal exitCode has
      cases same
      obtain ⟨text, rfl, found⟩ := served_readLaunch (moved.2 (.launch (some prior)) rfl)
      exact ⟨text, prior, rfl, remembers text prior found terminal, terminal, has, rfl⟩
    | _ =>
      intro _ _ prior same
      cases same

theorem mute_request (asked : Request) (mute : Action.Mute (.request asked : Action isabs)) :
    (request asked : Client isabs _).Within Action.Mute fun _ => True :=
  Within.bind (Within.act mute) fun _ _ => (mute_inside _).any

theorem mute_register (key : PyValue) (exists_ : Bool) : (register key exists_ : Client isabs _).Within Action.Mute fun _ => True := by
  unfold register
  split
  · exact mute_bind (mute_request _ trivial) fun _ => trivial
  · trivial

theorem mute_readGeneration (scope : PyValue) : (readGeneration scope : Client isabs _).Within Action.Mute fun _ => True := by
  unfold readGeneration
  refine mute_bind (mute_request _ trivial) fun response => ?_
  split <;> trivial

theorem mute_ensureAdmission (key : PyValue) (generation : Int) : (ensureAdmission key generation : Client isabs _).Within Action.Mute fun _ => True := by
  unfold ensureAdmission readExecutionAdmission
  refine mute_bind (mute_bind (mute_request _ trivial) fun response => ?_) fun admission => ?_
  · split <;> trivial
  · split
    · exact mute_bind (mute_request _ trivial) fun _ => trivial
    · split <;> trivial

theorem safe_launch {target : VerifiedWorkGraphTarget} {contractTree token : Text} {key : Str}
    (authentic : target.Authentic target.revision) (derived : executionKey target contractTree = .ok key) (exists_ : Bool)
    (command : LocalCommandSpec isabs × Str) : (launch target key token exists_ command).Safe contract Ends state := by
  unfold launch
  refine safe_mute (mute_register _ exists_) fun _ _ _ => safe_mute (mute_request _ trivial) fun _ _ _ =>
    safe_mute (mute_readGeneration _) fun generation later _ => ?_
  split
  · exact fun later _ => ends_error _ later
  · next generation =>
    refine safe_mute (mute_ensureAdmission _ generation) fun _ _ _ executing _ => ⟨trivial, fun reply after moved => ?_⟩
    -- the store has recorded what is published now
    cases reply with
    | error error => exact fun later _ => ends_error error later
    | ok execution => exact safe_published authentic derived (moved.2 execution rfl key rfl) rfl

variable (pathlib : Pathlib) (db : CharacterDatabase) (sha256 : List UInt8 → Text)

theorem mute_openStore (path : Path) : (openStore path : Client isabs _).Within Action.Mute fun _ => True :=
  Within.bind (Within.act trivial) fun _ _ => (mute_inside _).any

/-- The store is closed after what is done with it. -/
theorem safe_withStore {opens : Path → Client isabs Unit} {block : Client isabs WorkGraphClientResult}
    (mute : ∀ path, (opens path).Within Action.Mute fun _ => True) (safe : ∀ state, block.Safe contract Ends state) :
    (withStore pathlib opens block).Safe contract Ends state := by
  unfold withStore
  refine safe_mute (mute_of_asks (asks_authorityStorePath pathlib)) fun path _ _ =>
    safe_mute (mute_of_asks (asks_assertAuthorityStoreOutsideCheckouts pathlib path)) fun _ _ _ => safe_mute (mute path) fun _ later _ => ?_
  refine (safe later).ensure fun result ended stably closing meanwhile => ⟨trivial, fun reply after moved last remembers => ?_⟩
  exact stably last (contract.rely_trans (contract.rely_trans meanwhile moved.1) remembers)

theorem mute_executionKeyExists (value : PyValue) : (executionKeyExists value : Client isabs _).Within Action.Mute fun _ => True := by
  unfold executionKeyExists
  refine mute_bind (mute_request _ trivial) fun response => ?_
  split <;> trivial

theorem safe_useStore (asked : WorkGraphRequest) {target : VerifiedWorkGraphTarget} {contractTree : Text} (token : Text) {key : Str}
    (authentic : target.Authentic target.revision) (derived : executionKey target contractTree = .ok key) :
    (useStore pathlib db sha256 asked target contractTree token key : Client isabs _).Safe contract Ends state := by
  unfold useStore
  refine safe_mute (mute_executionKeyExists _) fun exists_ later _ => ?_
  · have reading : (readPrior (.str key) exists_ : Client isabs _).Safe contract (fun result ledger => ∀ prior,
        result = .ok (some prior) → prior.state = .terminal → ∀ exitCode, prior.exitCode = some exitCode →
          Ended key (Str.ofText prior.commandSpecHash) exitCode ledger) later := by
      unfold readPrior
      split
      · exact safe_readExecutionLaunch key
      · intro _ _ prior same
        cases same
    refine reading.bind (fun prior later stably => ?_) fun error later _ => ends_error error later
    cases prior with
    | some prior => exact safe_observe authentic derived (stably later (Remembers.refl later) prior rfl)
    | none => exact safe_mute (mute_of_asks (asks_prepareCommand pathlib db sha256 asked target contractTree key)) fun command _ _ =>
        safe_launch authentic derived exists_ command

/-- Whatever it is told, a run posts what is terminal, and reports it. -/
theorem safe_runWorkgraphClient (asked : WorkGraphRequest) :
    (runWorkgraphClient pathlib db sha256 asked : Client isabs _).Safe contract Ends state := by
  unfold runWorkgraphClient
  refine safe_mute (mute_inside _) fun _ _ _ => safe_mute (mute_of_asks asks_requireWindows) fun _ _ _ =>
    safe_mute (mute_of_asks asks_requireToken) fun token _ _ => safe_mute (mute_of_asks (verifyWorkgraphTarget_authentic _ token)) fun target _ authentic =>
      safe_mute (mute_of_asks (asks_contractTree pathlib db)) fun contractTree _ _ => safe_mute (mute_inside _) fun key _ derived => ?_
  rw [← authentic.commit] at authentic
  exact safe_withStore pathlib mute_openStore fun state => safe_useStore pathlib db sha256 asked token authentic derived

theorem mute_initializeWorkgraphClient : (initializeWorkgraphClient pathlib : Client isabs _).Within Action.Mute fun _ => True := by
  unfold initializeWorkgraphClient withStore
  refine mute_bind (mute_of_asks asks_requireWindows) fun _ => mute_bind (mute_of_asks (asks_authorityStorePath pathlib)) fun path =>
    mute_bind (mute_of_asks (asks_assertAuthorityStoreOutsideCheckouts pathlib path)) fun _ => mute_bind ?_ fun _ => ?_
  · exact mute_bind (mute_of_asks (asks_ask (.mkdir _) trivial)) fun _ => Within.bind (Within.act trivial) fun _ _ => (mute_inside _).any
  · refine Within.ensure ?_ (Within.act trivial)
    unfold acquireGeneration
    refine mute_bind (mute_request _ trivial) fun response => ?_
    split <;> trivial

end Safety

end Umbilical.WorkGraph
