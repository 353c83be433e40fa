import Umbilical.WorkGraph.Client

set_option autoImplicit false

/-!
# Before the store and beside it

Whatever the surroundings answer, nothing is posted before the end of a run, and a
target and a contract that come out of the checks are what they should be.
-/

namespace Umbilical.WorkGraph

open Python Authority Execution Program

variable {isabs : Str → Bool}

/-- The surroundings are asked: nothing is posted, and no stage is run. -/
def Action.Asks : Action isabs → Prop
  | .ask (.post _ _ _) | .ask (.runIn _ _) => False
  | .ask _ => True
  | _ => False

section Asks

variable {α β : Type} {returns : α → Prop} {first : Client isabs α} {next : α → Client isabs β}

theorem asks_bind (asks : first.Within Action.Asks fun _ => True) (rest : ∀ value, (next value).Within Action.Asks fun _ => True) :
    (first >>= next).Within Action.Asks fun _ => True := Within.bind asks fun value _ => rest value

theorem asks_pure (value : α) : (pure value : Client isabs α).Within Action.Asks fun _ => True := trivial

theorem asks_refuse (message : String) : (refuse message : Client isabs α).Within Action.Asks returns := trivial

theorem asks_inside (result : Except PyError α) : (inside result : Client isabs α).Within Action.Asks fun value => result = .ok value := by
  cases result with
  | ok value => exact rfl
  | error error => trivial

theorem asks_ask (question : Question isabs) (asks : Action.Asks (.ask question)) :
    (ask question).Within Action.Asks fun _ => True :=
  Within.bind (Within.act asks) fun _ _ => (Within.lift _).any

theorem asks_gitArgv (directory : Path) (arguments : List Text) :
    (gitArgv directory arguments : Client isabs _).Within Action.Asks fun _ => True := by
  unfold gitArgv
  refine asks_bind (asks_ask (.which "git".toList) trivial) fun executable => ?_
  split
  · trivial
  · split <;> trivial

variable (pathlib : Pathlib) (db : CharacterDatabase) (sha256 : List UInt8 → Text)

theorem asks_gitOutput (directory : Path) (arguments : List Text) :
    (gitOutput db directory arguments : Client isabs _).Within Action.Asks fun _ => True := by
  unfold gitOutput
  refine asks_bind (asks_gitArgv directory arguments) fun command => ?_
  split
  · trivial
  · next command =>
    refine asks_bind (Within.handle (asks_bind (asks_ask (.run command) trivial) fun _ => trivial) fun error => ?_)
      fun completed => ?_
    · split <;> trivial
    · split <;> trivial

theorem asks_runGit (directory : Path) (arguments : List Text) :
    (runGit db directory arguments : Client isabs _).Within Action.Asks fun _ => True := by
  unfold runGit
  refine asks_bind (asks_gitOutput db directory arguments) fun output => ?_
  split <;> trivial

theorem asks_committedCleanTree (repositoryRoot : Path) :
    (committedCleanTree pathlib db repositoryRoot : Client isabs _).Within Action.Asks fun _ => True := by
  unfold committedCleanTree
  refine asks_bind (asks_gitOutput db _ _) fun topLevel => asks_bind (asks_gitOutput db _ _) fun head =>
    asks_bind (asks_gitOutput db _ _) fun tree => asks_bind (asks_gitOutput db _ _) fun status => ?_
  split
  · trivial
  · refine asks_bind (asks_ask (.resolve _) trivial) fun actual => asks_bind (asks_ask (.resolve _) trivial) fun expected => ?_
    split <;> trivial

theorem asks_contractTree : (contractTree pathlib db : Client isabs _).Within Action.Asks fun _ => True := by
  unfold contractTree contractRoot
  refine asks_bind (asks_bind (asks_ask .moduleFile trivial) fun _ => asks_bind (asks_ask (.resolve _) trivial) fun _ => trivial)
    fun root => asks_bind (asks_committedCleanTree pathlib db root) fun tree => ?_
  split <;> trivial

theorem asks_githubJson (path token : Text) :
    (githubJson path token : Client isabs _).Within Action.Asks fun _ => True := by
  refine Within.handle (asks_ask (.urlopen _ _) trivial) fun error => ?_
  split <;> trivial

/-- A target is of the fixed repository and of the revision asked for. -/
structure VerifiedWorkGraphTarget.Authentic (target : VerifiedWorkGraphTarget) (revision : Text) : Prop where
  name : target.repositoryFullName = repository
  id : target.repositoryId = WorkGraph.repositoryId
  commit : target.revision = revision
  exact : IsRevision revision
  tree : IsRevision target.treeSha

theorem revisionText_isRevision {value : Option Json} {text : Text} (found : revisionText value = some text) :
    IsRevision text := by
  unfold revisionText at found
  split at found
  · simpa using (Option.filter_eq_some_iff.mp found).2
  · cases found

theorem verifyWorkgraphTarget_authentic (revision token : Text) :
    (verifyWorkgraphTarget revision token : Client isabs _).Within Action.Asks fun target => target.Authentic revision := by
  unfold verifyWorkgraphTarget
  split
  · trivial
  · next exact =>
    refine (asks_githubJson _ _).bind fun found _ => ?_
    split
    · trivial
    · split
      · trivial
      · refine (asks_githubJson _ _).bind fun commit _ => ?_
        split
        · trivial
        · split
          · trivial
          · next treeSha same =>
            exact ⟨rfl, rfl, rfl, not_not.mp exact, revisionText_isRevision same⟩

theorem asks_knownLocalAppData : (knownLocalAppData pathlib : Client isabs _).Within Action.Asks fun _ => True := by
  unfold knownLocalAppData
  refine asks_bind (asks_ask .localAppData trivial) fun path => ?_
  split
  · trivial
  · exact asks_ask (.resolve _) trivial

theorem asks_deploymentRoot : (deploymentRoot pathlib : Client isabs _).Within Action.Asks fun _ => True :=
  asks_bind (asks_knownLocalAppData pathlib) fun _ => asks_ask (.resolve _) trivial

theorem asks_authorityStorePath : (authorityStorePath pathlib : Client isabs _).Within Action.Asks fun _ => True :=
  asks_bind (asks_deploymentRoot pathlib) fun _ => trivial

theorem asks_checkoutRoot : (checkoutRoot pathlib : Client isabs _).Within Action.Asks fun _ => True :=
  asks_bind (asks_deploymentRoot pathlib) fun _ => trivial

theorem asks_assertAuthorityStoreOutsideCheckouts (path : Path) :
    (assertAuthorityStoreOutsideCheckouts pathlib path : Client isabs _).Within Action.Asks fun _ => True := by
  unfold assertAuthorityStoreOutsideCheckouts
  refine asks_bind (asks_checkoutRoot pathlib) fun _ => asks_bind (asks_ask (.resolve _) trivial) fun _ =>
    asks_bind (asks_ask (.resolve _) trivial) fun _ => ?_
  split <;> trivial

theorem asks_removeDisposableCheckout (checkout : Path) :
    (removeDisposableCheckout pathlib checkout : Client isabs _).Within Action.Asks fun _ => True := by
  unfold removeDisposableCheckout
  refine asks_bind (asks_ask (.resolve _) trivial) fun parent => ?_
  split
  · trivial
  · refine asks_bind (asks_checkoutRoot pathlib) fun _ => asks_bind (asks_ask (.resolve _) trivial) fun checkouts => ?_
    split
    · trivial
    · refine asks_bind (asks_ask (.isSymlink checkout) trivial) fun link => ?_
      split
      · exact asks_ask (.unlink checkout) trivial
      · refine asks_bind (asks_ask (.isDir checkout) trivial) fun directory => ?_
        split
        · exact asks_ask (.rmtree checkout) trivial
        · trivial

theorem asks_verifyCleanCheckout (checkout : Path) (target : VerifiedWorkGraphTarget) :
    (verifyCleanCheckout db checkout target : Client isabs _).Within Action.Asks fun _ => True := by
  unfold verifyCleanCheckout
  refine asks_bind (asks_runGit db checkout _) fun head => ?_
  split
  · trivial
  · refine asks_bind (asks_runGit db checkout _) fun tree => ?_
    split
    · trivial
    · refine asks_bind (asks_runGit db checkout _) fun status => ?_
      split <;> trivial

theorem asks_checkoutDirectory (executionKey : Str) :
    (checkoutDirectory pathlib sha256 executionKey : Client isabs _).Within Action.Asks fun _ => True :=
  asks_bind (asks_inside _).any fun _ => asks_bind (asks_checkoutRoot pathlib) fun _ => trivial

theorem asks_isPresent (path : Path) : (isPresent path : Client isabs _).Within Action.Asks fun _ => True := by
  unfold isPresent
  refine asks_bind (asks_ask (.exists_ path) trivial) fun present => ?_
  split
  · trivial
  · exact asks_ask (.isSymlink path) trivial

theorem asks_clearCheckout (checkout : Path) : (clearCheckout pathlib checkout : Client isabs _).Within Action.Asks fun _ => True := by
  unfold clearCheckout
  refine asks_bind (asks_isPresent checkout) fun present => ?_
  split
  · exact asks_removeDisposableCheckout pathlib checkout
  · trivial

theorem asks_cloneCheckout (target : VerifiedWorkGraphTarget) (source checkout : Path) :
    (cloneCheckout pathlib db target source checkout : Client isabs _).Within Action.Asks fun _ => True := by
  unfold cloneCheckout
  refine asks_bind (asks_ask (.mkdir _) trivial) fun _ => asks_bind (asks_gitArgv _ _) fun command => ?_
  split
  · trivial
  · next command =>
    refine asks_bind (asks_ask (.run command) trivial) fun completed => ?_
    split
    · trivial
    · exact asks_bind (asks_runGit db checkout _) fun _ => asks_bind (asks_runGit db checkout _) fun _ =>
        asks_verifyCleanCheckout db checkout target

theorem asks_prepareExactCheckout (target : VerifiedWorkGraphTarget) (source : Path) (executionKey : Str) :
    (prepareExactCheckout pathlib db sha256 target source executionKey : Client isabs _).Within Action.Asks fun _ => True := by
  unfold prepareExactCheckout
  refine asks_bind (asks_ask (.isDir source) trivial) fun present => ?_
  split
  · trivial
  · refine asks_bind (asks_runGit db source _) fun available => ?_
    split
    · trivial
    · exact asks_bind (asks_checkoutDirectory pathlib sha256 executionKey) fun checkout =>
        asks_bind (asks_clearCheckout pathlib checkout) fun _ =>
          asks_bind (asks_cloneCheckout pathlib db target source checkout) fun _ => trivial

theorem asks_commandEnvironment (authorityDb pythonExecutable : Path) :
    (commandEnvironment pathlib authorityDb pythonExecutable : Client isabs _).Within Action.Asks fun _ => True := by
  unfold commandEnvironment
  refine asks_bind (asks_ask (.environ _) trivial) fun systemRoot => ?_
  split
  · trivial
  · trivial
  · refine asks_bind (asks_ask (.mkdir _) trivial) fun _ => asks_bind (asks_gitArgv _ _) fun command => ?_
    split <;> trivial

theorem asks_buildCommandSpec (timeoutSeconds : Int) (target : VerifiedWorkGraphTarget) (checkout : Path) (contract : Text)
    (integrityOnly : Bool) :
    (buildCommandSpec pathlib timeoutSeconds target checkout contract integrityOnly : Client isabs _).Within Action.Asks
      fun _ => True :=
  asks_bind (asks_ask .moduleFile trivial) fun _ => asks_bind (asks_ask (.resolve _) trivial) fun _ =>
    asks_bind (asks_authorityStorePath pathlib) fun _ =>
      asks_bind (asks_bind (asks_ask .executable trivial) fun _ => asks_ask (.resolve _) trivial) fun _ =>
        asks_bind (asks_commandEnvironment pathlib _ _) fun _ => asks_bind (asks_inside _).any fun _ =>
          asks_bind (asks_inside _).any fun _ => (asks_inside _).any

theorem asks_runIntegrityPreflight (commandSpec : LocalCommandSpec isabs) :
    (runIntegrityPreflight commandSpec).Within Action.Asks fun _ => True := by
  unfold runIntegrityPreflight
  refine asks_bind (asks_ask (.launch commandSpec) trivial) fun exitCode => ?_
  split <;> trivial

/-- The command that a run prepares comes with its hash. -/
theorem asks_prepareCommand (request : WorkGraphRequest) (target : VerifiedWorkGraphTarget) (contract : Text) (key : Str) :
    (prepareCommand pathlib db sha256 request target contract key : Client isabs _).Within Action.Asks fun command =>
      commandSpecHash sha256 command.1.fields = .ok command.2 := by
  unfold prepareCommand
  refine (asks_prepareExactCheckout pathlib db sha256 target request.source key).bind fun checkout _ =>
    (asks_buildCommandSpec pathlib _ target checkout contract false).bind fun commandSpec _ =>
      (asks_buildCommandSpec pathlib _ target checkout contract true).bind fun preflightSpec _ =>
        (asks_runIntegrityPreflight preflightSpec).bind fun _ _ => (asks_contractTree pathlib db).bind fun again _ => ?_
  split
  · trivial
  · exact (asks_verifyCleanCheckout db checkout target).bind fun _ _ => (asks_inside _).bind fun _ same => same

theorem asks_requireWindows : (requireWindows : Client isabs _).Within Action.Asks fun _ => True := by
  unfold requireWindows
  refine asks_bind (asks_ask .osName trivial) fun name => ?_
  split <;> trivial

theorem asks_requireToken : (requireToken : Client isabs _).Within Action.Asks fun _ => True := by
  unfold requireToken
  refine asks_bind (asks_ask (.environ _) trivial) fun token => ?_
  split <;> trivial

end Asks

end Umbilical.WorkGraph
