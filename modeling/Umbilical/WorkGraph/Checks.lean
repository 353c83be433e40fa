import Umbilical.WorkGraph.Preparing

set_option autoImplicit false

/-!
# What a client has checked

The answers that a client has had before it comes to change the store: who GitHub
says the target is, what git says about the contract and the checkout, and how the
preflight has ended.
-/

namespace Umbilical.WorkGraph

open Python Authority Execution Program

variable {isabs : Str → Bool}

abbrev ClientHistory (isabs : Str → Bool) := History (Action.Answer isabs)

/-- A question was answered. -/
def Answered (history : ClientHistory isabs) (question : Question isabs) (reply : question.Answer isabs) : Prop :=
  ⟨.ask question, .ok reply⟩ ∈ history

/-- The store answered a request. -/
def Replied (history : ClientHistory isabs) (asked : Request) (response : Response) : Prop :=
  ⟨.request asked, .ok response⟩ ∈ history

theorem ask_told {history : ClientHistory isabs} {question : Question isabs} {rest : Client isabs (question.Answer isabs)}
    (told : (ask question).Told history rest) (ended : ∀ (action : Action isabs) (next : action.Answer → Client isabs (question.Answer isabs)), rest ≠ .perform action next) :
    ∃ answer, history = [⟨.ask question, answer⟩] ∧ rest = lift (Except.mapError .fault answer) := by
  cases told with
  | still => exact absurd rfl (ended _ _)
  | @answered _ _ answer _ _ told =>
    refine ⟨answer, ?_⟩
    cases answer with
    | ok =>
      cases told
      exact ⟨rfl, rfl⟩
    | error =>
      cases told
      exact ⟨rfl, rfl⟩

theorem ask_exact {history : ClientHistory isabs} {question : Question isabs} {reply : question.Answer isabs}
    (told : (ask question).Told history (done reply)) : history = [⟨.ask question, .ok reply⟩] := by
  obtain ⟨answer, rfl, same⟩ := ask_told told fun _ _ other => by cases other
  cases answer with
  | ok value =>
    cases same
    rfl
  | error => cases same

theorem ask_raised {history : ClientHistory isabs} {question : Question isabs} {error : ClientError}
    (told : (ask question).Told history (raise error)) : ∃ fault, error = .fault fault ∧ history = [⟨.ask question, .error fault⟩] := by
  obtain ⟨answer, rfl, same⟩ := ask_told told fun _ _ other => by cases other
  cases answer with
  | ok => cases same
  | error fault =>
    cases same
    exact ⟨fault, rfl, rfl⟩

theorem ask_done {history : ClientHistory isabs} {question : Question isabs} {reply : question.Answer isabs}
    (told : (ask question).Told history (done reply)) : Answered history question reply := by
  rw [ask_exact told]
  exact List.mem_singleton_self _

theorem inside_done {α : Type} {history : ClientHistory isabs} {result : Except PyError α} {value : α}
    (told : (inside result).Told history (done value)) : history = [] ∧ result = .ok value := by
  obtain ⟨rfl, same⟩ := told.lift_done
  cases result with
  | ok => cases same; exact ⟨rfl, rfl⟩
  | error => cases same

theorem request_done {history : ClientHistory isabs} {asked : Request} {response : Response}
    (told : (request asked).Told history (done response)) : Replied history asked response := by
  obtain ⟨first, later, answer, rfl, acted, lifted⟩ := told.bind_done
  obtain ⟨rfl, rfl⟩ := inside_done lifted
  obtain rfl := acted.act_done
  exact List.mem_singleton_self _

/-! ## Git -/

/-- The command line of git for a directory. -/
def gitCommand (executable : Text) (directory : Path) (arguments : List Text) : List Text :=
  executable :: "-c".toList :: "core.longpaths=true".toList :: "-C".toList :: directory :: arguments

/-- A git of an absolute path was run and has succeeded with an output. -/
def GitSaid (db : CharacterDatabase) (history : ClientHistory isabs) (directory : Path) (arguments : List Text) (output : Text) : Prop :=
  ∃ executable completed, isabs (Str.ofText executable) ∧ Answered history (.which "git".toList) (some executable) ∧
    Answered history (.run (gitCommand executable directory arguments)) completed ∧ completed.returncode = 0 ∧
      db.strip completed.stdout = output

section Git

variable {pathlib : Pathlib} {db : CharacterDatabase} {history more : ClientHistory isabs} {directory : Path} {arguments : List Text}
  {output : Text}

theorem Answered.mono {question : Question isabs} {reply : question.Answer isabs} (answered : Answered history question reply)
    (grows : history ⊆ more) : Answered more question reply := grows answered

theorem GitSaid.mono (said : GitSaid db history directory arguments output) (grows : history ⊆ more) :
    GitSaid db more directory arguments output := by
  obtain ⟨executable, completed, absolute, found, ran, rest⟩ := said
  exact ⟨executable, completed, absolute, found.mono grows, ran.mono grows, rest⟩

theorem gitArgv_done {command : List Text} (told : (gitArgv directory arguments).Told history (done (some command))) :
    ∃ executable, isabs (Str.ofText executable) ∧ Answered history (.which "git".toList) (some executable) ∧
      command = gitCommand executable directory arguments := by
  obtain ⟨first, later, found, rfl, asked, told⟩ := told.bind_done
  have answered := ask_done asked
  split at told
  · obtain ⟨_, other⟩ := told.done_done
    cases other
  · next executable =>
    split at told
    · next absolute =>
      obtain ⟨rfl, same⟩ := told.done_done
      exact ⟨executable, absolute, answered.mono (List.subset_append_left _ _), Option.some.inj same⟩
    · obtain ⟨_, other⟩ := told.done_done
      cases other

theorem gitOutput_done (told : (gitOutput db directory arguments).Told history (done (some output))) :
    GitSaid db history directory arguments output := by
  obtain ⟨first, later, command, rfl, argv, told⟩ := told.bind_done
  cases command with
  | none => cases told.done_done.2
  | some command =>
    obtain ⟨executable, absolute, found, rfl⟩ := gitArgv_done argv
    obtain ⟨second, last, completed, rfl, ran, told⟩ := told.bind_done
    cases completed with
    | none => cases told.done_done.2
    | some completed =>
      obtain ⟨rfl, same⟩ := told.done_done
      split at same
      · next succeeded =>
        cases same
        refine ⟨executable, completed, absolute, found.mono (List.subset_append_left _ _), ?_, succeeded, rfl⟩
        rcases ran.handle_done with ran | ⟨_, _, error, _, _, caught⟩
        · obtain ⟨third, fourth, between, rfl, asked, told⟩ := ran.bind_done
          obtain ⟨rfl, same⟩ := told.done_done
          cases same
          exact (ask_done asked).mono fun _ member => by simp [member]
        · split at caught
          · cases caught.done_done.2
          · exact caught.raise_done.elim
      · cases same

theorem runGit_done (told : (runGit db directory arguments).Told history (done output)) :
    GitSaid db history directory arguments output := by
  obtain ⟨first, later, answer, rfl, asked, told⟩ := told.bind_done
  cases answer with
  | none => exact told.raise_done.elim
  | some answer =>
    obtain ⟨rfl, rfl⟩ := told.done_done
    exact (gitOutput_done asked).mono (List.subset_append_left _ _)

/-- The checkout is at the target, and nothing in it is changed. -/
structure CheckoutClean (db : CharacterDatabase) (history : ClientHistory isabs) (checkout : Path) (target : VerifiedWorkGraphTarget) :
    Prop where
  head : GitSaid db history checkout headArguments target.revision
  tree : GitSaid db history checkout treeArguments target.treeSha
  status : GitSaid db history checkout statusArguments []

theorem CheckoutClean.mono {checkout : Path} {target : VerifiedWorkGraphTarget} (clean : CheckoutClean db history checkout target)
    (grows : history ⊆ more) : CheckoutClean db more checkout target :=
  ⟨clean.head.mono grows, clean.tree.mono grows, clean.status.mono grows⟩

theorem verifyCleanCheckout_done {checkout : Path} {target : VerifiedWorkGraphTarget} {nothing : Unit}
    (told : (verifyCleanCheckout db checkout target).Told history (done nothing)) : CheckoutClean db history checkout target := by
  obtain ⟨first, later, head, rfl, headed, told⟩ := told.bind_done
  split at told
  · exact told.raise_done.elim
  · next sameHead =>
    obtain ⟨second, later, tree, rfl, treed, told⟩ := told.bind_done
    split at told
    · exact told.raise_done.elim
    · next sameTree =>
      obtain ⟨third, later, status, rfl, listed, told⟩ := told.bind_done
      split at told
      · exact told.raise_done.elim
      · next empty =>
        rw [not_not] at sameHead sameTree empty
        subst sameHead sameTree empty
        exact ⟨(runGit_done headed).mono fun _ member => by simp [member], (runGit_done treed).mono fun _ member => by simp [member],
          (runGit_done listed).mono fun _ member => by simp [member]⟩

/-- The contract is committed as a tree, and nothing around it is changed. -/
structure ContractCommitted (db : CharacterDatabase) (history : ClientHistory isabs) (tree : Text) : Prop where
  exact : IsRevision tree
  git : ∃ root, GitSaid db history root treeArguments tree ∧ GitSaid db history root statusArguments []

theorem ContractCommitted.mono {tree : Text} (committed : ContractCommitted db history tree) (grows : history ⊆ more) :
    ContractCommitted db more tree := by
  obtain ⟨exact_, root, tree, status⟩ := committed
  exact ⟨exact_, root, tree.mono grows, status.mono grows⟩

theorem committedCleanTree_done {root : Path} {tree : Text}
    (told : (committedCleanTree pathlib db root).Told history (done (some tree))) : ContractCommitted db history tree := by
  obtain ⟨first, later, topLevel, rfl, _, told⟩ := told.bind_done
  obtain ⟨second, later, head, rfl, _, told⟩ := told.bind_done
  obtain ⟨third, later, answer, rfl, treed, told⟩ := told.bind_done
  obtain ⟨fourth, later, status, rfl, listed, told⟩ := told.bind_done
  cases topLevel with
  | none => cases told.done_done.2
  | some topLevel =>
    obtain ⟨fifth, later, actual, rfl, _, told⟩ := told.bind_done
    obtain ⟨sixth, later, expected, rfl, _, told⟩ := told.bind_done
    split at told
    · cases told.done_done.2
    · next clean =>
      obtain ⟨rfl, same⟩ := told.done_done
      push Not at clean
      obtain ⟨_, _, empty⟩ := clean
      obtain ⟨rfl, exact_⟩ := Option.filter_eq_some_iff.mp same.symm
      subst empty
      exact ⟨by simpa using exact_, root, (gitOutput_done treed).mono fun _ member => by simp [member],
        (gitOutput_done listed).mono fun _ member => by simp [member]⟩

theorem contractTree_done {tree : Text} (told : (contractTree pathlib db).Told history (done tree)) :
    ContractCommitted db history tree := by
  obtain ⟨first, later, root, rfl, _, told⟩ := told.bind_done
  obtain ⟨second, later, answer, rfl, asked, told⟩ := told.bind_done
  cases answer with
  | none => exact told.raise_done.elim
  | some answer =>
    obtain ⟨rfl, rfl⟩ := told.done_done
    exact (committedCleanTree_done asked).mono fun _ member => by simp [member]

end Git

/-! ## GitHub -/

/-- GitHub has named the fixed repository, and the target as one of its commits. -/
structure Attested (history : ClientHistory isabs) (token : Text) (target : VerifiedWorkGraphTarget) : Prop where
  repository : ∃ found, Answered history (.urlopen ("https://api.github.com".toList ++ ("/repos/".toList ++ repository)) token) found ∧
    isDict found ∧ equalsText repository (getItem "full_name" (some found)) ∧ equalsInt repositoryId (getItem "id" (some found))
  commit : ∃ commit, Answered history (.urlopen ("https://api.github.com".toList ++ ("/repos/".toList ++ WorkGraph.repository ++
      "/commits/".toList ++ target.revision)) token) commit ∧
    equalsText target.revision (getItem "sha" (some commit)) ∧
      revisionText (getItem "sha" (getItem "tree" (getItem "commit" (some commit)))) = some target.treeSha

section GitHub

variable {history more : ClientHistory isabs} {token : Text}

theorem Attested.mono {target : VerifiedWorkGraphTarget} (attested : Attested history token target) (grows : history ⊆ more) :
    Attested more token target := by
  obtain ⟨⟨found, asked, named⟩, commit, asked', named'⟩ := attested
  exact ⟨⟨found, asked.mono grows, named⟩, commit, asked'.mono grows, named'⟩

theorem githubJson_done {path : Text} {json : Json} (told : (githubJson path token).Told history (done json)) :
    Answered history (.urlopen ("https://api.github.com".toList ++ path) token) json := by
  rcases told.handle_done with asked | ⟨_, _, error, _, _, caught⟩
  · exact ask_done asked
  · split at caught <;> exact caught.raise_done.elim

theorem verifyWorkgraphTarget_done {revision : Text} {target : VerifiedWorkGraphTarget}
    (told : (verifyWorkgraphTarget revision token).Told history (done target)) :
    Attested history token target ∧ target.Authentic revision := by
  refine ⟨?_, (verifyWorkgraphTarget_authentic revision token).told told⟩
  unfold verifyWorkgraphTarget at told
  split at told
  · exact told.raise_done.elim
  · obtain ⟨first, later, found, rfl, asked, told⟩ := told.bind_done
    split at told
    · exact told.raise_done.elim
    · next dict =>
      split at told
      · exact told.raise_done.elim
      · next named =>
        obtain ⟨second, later, commit, rfl, asked', told⟩ := told.bind_done
        split at told
        · exact told.raise_done.elim
        · next exactly =>
          split at told
          · exact told.raise_done.elim
          · next treeSha same =>
            obtain ⟨rfl, rfl⟩ := told.done_done
            simp only [not_or, Bool.not_eq_false] at dict named exactly
            exact ⟨⟨found, (githubJson_done asked).mono fun _ member => by simp [member], dict, named⟩,
              commit, (githubJson_done asked').mono fun _ member => by simp [member], exactly.2, same⟩

end GitHub

/-! ## The command -/

/-- The command validates a checkout of the target under a contract. -/
structure Validates (command : LocalCommandSpec isabs) (target : VerifiedWorkGraphTarget) (contract : Text) (checkout : Path)
    (timeoutSeconds : Int) (integrityOnly : Bool) : Prop where
  argv : ∃ python wrapper argv, command.fields.executable = textValue python ∧ command.fields.argv = some argv ∧
    argv.items = ([python, wrapper, "--checkout-root".toList, checkout, "--expected-revision".toList, target.revision,
      "--expected-tree".toList, target.treeSha, "--expected-contract-tree".toList, contract] ++
        if integrityOnly then ["--integrity-only".toList] else []).map textValue
  directory : command.fields.workingDirectory = textValue checkout
  timeout : command.fields.timeoutSeconds = .int timeoutSeconds

/-- The preflight of the checkout has ended well, and after it the contract was still the same, and the checkout clean. -/
structure Preflown (db : CharacterDatabase) (history : ClientHistory isabs) (target : VerifiedWorkGraphTarget) (contract : Text)
    (checkout : Path) (timeoutSeconds : Int) : Prop where
  preflight : ∃ before later preflight, history = before ++ ⟨.ask (.launch preflight), .ok (0 : Int)⟩ :: later ∧
    Validates preflight target contract checkout timeoutSeconds true ∧ ContractCommitted db later contract ∧
      CheckoutClean db later checkout target

section Command

variable {pathlib : Pathlib} {db : CharacterDatabase} {sha256 : List UInt8 → Text} {history : ClientHistory isabs}
  {target : VerifiedWorkGraphTarget} {contract : Text} {checkout : Path} {timeoutSeconds : Int}

theorem Preflown.append (preflown : Preflown db history target contract checkout timeoutSeconds) (before later : ClientHistory isabs) :
    Preflown db (before ++ (history ++ later)) target contract checkout timeoutSeconds := by
  obtain ⟨past, since, preflight, rfl, validates, committed, clean⟩ := preflown.preflight
  exact ⟨before ++ past, since ++ later, preflight, by simp, validates, committed.mono (List.subset_append_left _ _),
    clean.mono (List.subset_append_left _ _)⟩

theorem toTuple_items {α : Type} {items : List α} {tuple : PyTuple α} (frozen : toTuple items = .ok tuple) : tuple.items = items := by
  unfold toTuple at frozen
  split_ifs at frozen
  cases frozen
  rfl

theorem buildCommandSpec_done {integrityOnly : Bool} {command : LocalCommandSpec isabs}
    (told : (buildCommandSpec pathlib timeoutSeconds target checkout contract integrityOnly).Told history (done command)) :
    Validates command target contract checkout timeoutSeconds integrityOnly := by
  obtain ⟨_, _, file, _, _, told⟩ := told.bind_done
  obtain ⟨_, _, wrapper, _, _, told⟩ := told.bind_done
  obtain ⟨_, _, authorityDb, _, _, told⟩ := told.bind_done
  obtain ⟨_, _, python, _, _, told⟩ := told.bind_done
  obtain ⟨_, _, environment, _, _, told⟩ := told.bind_done
  obtain ⟨_, _, argv, _, frozen, told⟩ := told.bind_done
  obtain ⟨_, _, items, _, _, told⟩ := told.bind_done
  obtain ⟨_, taken⟩ := inside_done told
  obtain ⟨argv', _, _, _, same, _, _, _, fields⟩ := snapshot_fields isabs taken
  cases same
  refine ⟨⟨python, wrapper, argv, ?_, ?_, toTuple_items (inside_done frozen).2⟩, ?_, ?_⟩ <;> rw [fields]

theorem runIntegrityPreflight_done {command : LocalCommandSpec isabs} {nothing : Unit}
    (told : (runIntegrityPreflight command).Told history (done nothing)) : history = [⟨.ask (.launch command), .ok (0 : Int)⟩] := by
  obtain ⟨first, later, exitCode, rfl, asked, told⟩ := told.bind_done
  split at told
  · exact told.raise_done.elim
  · next ended =>
    obtain ⟨rfl, _⟩ := told.done_done
    rw [ask_exact asked, not_not.mp ended]
    rfl

/-- The checkout and the command are as they should be. -/
structure Prepared (db : CharacterDatabase) (sha256 : List UInt8 → Text) (history : ClientHistory isabs) (target : VerifiedWorkGraphTarget)
    (contract : Text) (checkout : Path) (timeoutSeconds : Int) (command : LocalCommandSpec isabs × Str) : Prop where
  preflown : Preflown db history target contract checkout timeoutSeconds
  validates : Validates command.1 target contract checkout timeoutSeconds false
  hashed : commandSpecHash sha256 command.1.fields = .ok command.2

theorem Prepared.append {command : LocalCommandSpec isabs × Str}
    (prepared : Prepared db sha256 history target contract checkout timeoutSeconds command) (before later : ClientHistory isabs) :
    Prepared db sha256 (before ++ (history ++ later)) target contract checkout timeoutSeconds command :=
  ⟨prepared.preflown.append before later, prepared.validates, prepared.hashed⟩

theorem prepareCommand_done {asked : WorkGraphRequest} {key : Str} {command : LocalCommandSpec isabs × Str}
    (told : (prepareCommand pathlib db sha256 asked target contract key).Told history (done command)) :
    ∃ checkout, Prepared db sha256 history target contract checkout asked.timeoutSeconds command := by
  obtain ⟨first, later, checkout, rfl, _, told⟩ := told.bind_done
  obtain ⟨second, later, commandSpec, rfl, built, told⟩ := told.bind_done
  obtain ⟨third, later, preflight, rfl, builtToo, told⟩ := told.bind_done
  obtain ⟨fourth, later, _, rfl, flown, told⟩ := told.bind_done
  obtain ⟨fifth, later, tree, rfl, committed, told⟩ := told.bind_done
  split at told
  · exact told.raise_done.elim
  · next unchanged =>
    rw [not_not.mp unchanged] at committed
    obtain ⟨sixth, later, _, rfl, verified, told⟩ := told.bind_done
    obtain ⟨seventh, later, hash, rfl, hashed, told⟩ := told.bind_done
    obtain ⟨rfl, rfl⟩ := told.done_done
    obtain ⟨rfl, same⟩ := inside_done hashed
    obtain rfl := runIntegrityPreflight_done flown
    refine ⟨checkout, ⟨⟨first ++ (second ++ third), fifth ++ sixth, preflight, ?_, buildCommandSpec_done builtToo, ?_, ?_⟩⟩,
      buildCommandSpec_done built, same⟩
    · simp
    · exact (contractTree_done committed).mono fun _ member => by simp [member]
    · exact (verifyCleanCheckout_done verified).mono fun _ member => by simp [member]

end Command

end Umbilical.WorkGraph
