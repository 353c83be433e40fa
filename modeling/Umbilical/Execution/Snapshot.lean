import Mathlib.Data.List.Sort
import Umbilical.Execution.CommandEncoding

set_option autoImplicit false

/-!
# Snapshots of commands

`LocalCommandSpec.snapshot` freezes what a caller owns, and `__post_init__` checks what it made
of it once more.
-/

namespace Umbilical.Execution

open Python

/-- What is passed as `argv`. -/
inductive ArgvArgument where
  /-- a `str`, `bytes` or `bytearray` -/
  | text
  | notIterable
  | sequence (argv : PyTuple PyValue)
  deriving DecidableEq

/-- What is passed as `environment`, with the tuple of its `items()`. -/
inductive EnvironmentArgument where
  | notMapping
  /-- `items()` raises a `RuntimeError` or a `TypeError`. -/
  | unstable
  | mapping (items : PyTuple (Option (PyValue × PyValue)))
  deriving DecidableEq

structure CommandArguments where
  executable : PyValue
  argv : ArgvArgument
  workingDirectory : PyValue
  environment : EnvironmentArgument
  timeoutSeconds : PyValue
  deriving DecidableEq

def freezeArgv : ArgvArgument → Except PyError (PyTuple PyValue)
  | .text => .error (invalidSpec "argv must be a sequence of arguments")
  | .notIterable => .error (invalidSpec "argv must be iterable")
  | .sequence argv => .ok argv

def freezeEnvironment : EnvironmentArgument → Except PyError (PyTuple (Option (PyValue × PyValue)))
  | .notMapping => .error (invalidSpec "environment must be a mapping")
  | .unstable => .error (invalidSpec "environment could not be snapshotted deterministically")
  | .mapping items => .ok items

/-- The loop that fills `validated_items`. -/
def validateItems : Nat → List PyValue → List (Option (PyValue × PyValue)) →
    Except PyError (List (List UInt8 × PyValue × PyValue))
  | _, _, [] => .ok []
  | index, _, none :: _ =>
      .error (invalidSpec ("environment item " ++ toString index ++ " is not an exact pair"))
  | index, seenNames, some (name, value) :: rest => do
      let field := "environment[" ++ toString index ++ "]"
      let nameBytes ← validateText (field ++ ".name") name false true
      raiseIf (∃ text ∈ strOf name, CodePoint.scalar '=' ∈ text)
        (invalidSpec "environment variable names must not contain '='")
      let _ ← validateText (field ++ ".value") value true true
      raiseIf (name ∈ seenNames) (invalidSpec "environment variable names must be unique")
      let items ← validateItems (index + 1) (name :: seenNames) rest
      return (nameBytes, name, value) :: items

/-- The sort is stable. -/
def sortItems (items : List (List UInt8 × PyValue × PyValue)) : List (List UInt8 × PyValue × PyValue) :=
  items.insertionSort fun first second => first.1 ≤ second.1

/-- A tuple of a list, which is never too long for one. -/
def toTuple {α : Type} (items : List α) : Except PyError (PyTuple α) :=
  if fits : items.length ≤ maxSize then .ok ⟨items, fits⟩ else .error .overflowError

section Construction

variable (isabs : Str → Bool)

/-- The constructor. -/
def construct (fields : CommandFields) : Except PyError (LocalCommandSpec isabs) :=
  match checked : postInit isabs fields with
  | .error error => .error error
  | .ok () => .ok ⟨fields, checked⟩

def snapshot (command : CommandArguments) : Except PyError (LocalCommandSpec isabs) := do
  let frozenArgv ← freezeArgv command.argv
  let items ← freezeEnvironment command.environment
  let validatedItems ← validateItems 0 [] items.items
  let frozenEnvironment ← toTuple ((sortItems validatedItems).map fun item => some item.2)
  construct isabs
    { executable := command.executable
      argv := some frozenArgv
      workingDirectory := command.workingDirectory
      environment := some frozenEnvironment
      timeoutSeconds := command.timeoutSeconds }

end Construction

/-! ## What is accepted -/

/-- A check that passes where a condition holds, and raises an `InvalidLocalCommandSpecError` elsewhere. -/
def Decides {α : Type} (valid : Prop) (checked : Except PyError α) : Prop :=
  (valid ∧ ∃ value, checked = .ok value) ∨ (¬ valid ∧ ∃ message, checked = .error (invalidSpec message))

section Deciding

variable {α β : Type} {valid other : Prop} {checked : Except PyError α} {next : α → Except PyError β}

theorem Decides.ok (holds : valid) (value : α) : Decides valid (.ok value : Except PyError α) := .inl ⟨holds, value, rfl⟩

theorem Decides.error (fails : ¬ valid) (message : String) :
    Decides valid (.error (invalidSpec message) : Except PyError α) :=
  .inr ⟨fails, message, rfl⟩

theorem Decides.congr (decides : Decides valid checked) (same : valid ↔ other) : Decides other checked := by
  rwa [Decides, ← same]

theorem Decides.bind (first : Decides valid checked)
    (later : ∀ value, checked = .ok value → valid → Decides other (next value)) :
    Decides (valid ∧ other) (checked >>= next) := by
  rcases first with ⟨holds, value, rfl⟩ | ⟨fails, message, rfl⟩
  · rcases later value rfl holds with ⟨also, result⟩ | ⟨breaks, message⟩
    · exact .inl ⟨⟨holds, also⟩, result⟩
    · exact .inr ⟨fun both => breaks both.2, message⟩
  · exact .inr ⟨fun both => fails both.1, message, rfl⟩

theorem Decides.raiseIf (condition : Prop) [Decidable condition] (message : String) :
    Decides (¬ condition) (Python.raiseIf condition (invalidSpec message)) := by
  by_cases holds : condition
  · exact .inr ⟨not_not.mpr holds, message, if_pos holds⟩
  · exact .inl ⟨holds, (), if_neg holds⟩

theorem Decides.of_ok (decides : Decides valid checked) {value : α} (passes : checked = .ok value) : valid := by
  rcases decides with ⟨holds, _⟩ | ⟨_, message, raised⟩
  · exact holds
  · cases passes.symm.trans raised

end Deciding

def ValidText (allowEmpty : Bool) (value : PyValue) : Prop :=
  ∃ text, value = textValue text ∧ Acceptable allowEmpty text

theorem validateText_decides (name : String) (value : PyValue) (allowEmpty : Bool) :
    Decides (ValidText allowEmpty value) (validateText name value allowEmpty true) := by
  have onlySpec : ∀ error, validateText name value allowEmpty true = .error error → ∃ message, error = invalidSpec message := by
    intro error raised
    unfold validateText at raised
    cases value with
    | str text =>
      dsimp only at raised
      unfold Str.encode at raised
      split at raised
      · exact ⟨_, (Except.error.inj raised).symm⟩
      split at raised
      · exact ⟨_, (Except.error.inj raised).symm⟩
      cases decoded : Str.text? text with
      | none =>
        rw [decoded] at raised
        exact ⟨_, (Except.error.inj raised).symm⟩
      | some text =>
        rw [decoded] at raised
        dsimp only at raised
        split at raised
        · exact ⟨_, (Except.error.inj raised).symm⟩
        · cases raised
    | _ => exact ⟨_, (Except.error.inj raised).symm⟩
  cases checked : validateText name value allowEmpty true with
  | ok bytes =>
    obtain ⟨text, same, acceptable, _⟩ := validateText_ok.mp checked
    exact .ok ⟨text, same, acceptable⟩ bytes
  | error error =>
    obtain ⟨message, rfl⟩ := onlySpec error checked
    refine .error ?_ message
    rintro ⟨text, same, acceptable⟩
    cases checked.symm.trans (validateText_ok.mpr ⟨text, same, acceptable, rfl⟩)

section Fields

variable (isabs : Str → Bool)

def ValidPath (value : PyValue) : Prop := ValidText false value ∧ ∀ path ∈ strOf value, isabs path = true

theorem validateAbsolute_decides (name message : String) (value : PyValue) :
    Decides (ValidPath isabs value) (validateAbsolute isabs name message value) := by
  apply (validateText_decides name value false).bind
  intro _ _ _
  apply (Decides.raiseIf _ message).congr
  push Not
  exact forall_congr' fun path => imp_congr_right fun _ => Bool.ne_false_iff

theorem validateArguments_decides (index : Nat) (items : List PyValue) :
    Decides (∀ argument ∈ items, ValidText true argument) (validateArguments index items) := by
  induction items generalizing index with
  | nil => exact .ok (fun _ member => absurd member List.not_mem_nil) ()
  | cons argument rest ih =>
    apply ((validateText_decides _ argument true).bind fun _ _ _ => ih (index + 1)).congr
    exact List.forall_mem_cons.symm

def ValidArgv (argv : List PyValue) : Prop := argv ≠ [] ∧ ∀ argument ∈ argv, ValidText true argument

theorem validateArgv_decides (argv : Option (PyTuple PyValue)) :
    Decides (∃ tuple, argv = some tuple ∧ ValidArgv tuple.items) (validateArgv argv) := by
  cases argv with
  | none => exact .error (fun ⟨_, absent, _⟩ => nomatch absent) _
  | some tuple =>
    apply ((Decides.raiseIf (tuple.items = []) _).bind fun _ _ _ => validateArguments_decides 0 tuple.items).congr
    constructor
    · exact fun valid => ⟨tuple, rfl, valid⟩
    · rintro ⟨_, ⟨⟩, valid⟩
      exact valid

def ValidTimeout (value : PyValue) : Prop := ∃ timeout : Nat, value = .int timeout ∧ 0 < timeout ∧ timeout < 2 ^ 64

theorem validateTimeout_decides (value : PyValue) : Decides (ValidTimeout value) (validateTimeout value) := by
  cases value
  case int timeout =>
    unfold validateTimeout
    dsimp only
    split_ifs with nonpositive long
    · refine .error ?_ _
      rintro ⟨_, same, positive, _⟩
      cases same
      omega
    · refine .error ?_ _
      rintro ⟨_, same, _, short⟩
      cases same
      simp only [maxFramedBytes] at long
      omega
    · refine .ok ⟨timeout.toNat, ?_, ?_, ?_⟩ ()
      · rw [Int.toNat_of_nonneg (by omega)]
      · omega
      · simp only [maxFramedBytes] at long
        omega
  all_goals
    refine .error ?_ _
    rintro ⟨_, ⟨⟩, _⟩

end Fields

/-! ## Environments -/

/-- The name of a pair that was checked, as bytes. -/
def nameBytes : Option (PyValue × PyValue) → List UInt8
  | some (.str name, _) => ((Str.text? name).map utf8).getD []
  | _ => []

/-- Names that were checked are told apart by their bytes. -/
theorem nameBytes_eq_iff {first second : PyValue} (valid : ValidText false first) (also : ValidText false second)
    (value content : PyValue) : nameBytes (some (first, value)) = nameBytes (some (second, content)) ↔ first = second := by
  obtain ⟨text, rfl, _⟩ := valid
  obtain ⟨sibling, rfl, _⟩ := also
  simp only [nameBytes, textValue, Str.text?_ofText, Option.map_some, Option.getD_some]
  rw [utf8_injective.eq_iff, PyValue.str.injEq, Str.ofText_injective.eq_iff]

def ValidEntry (item : Option (PyValue × PyValue)) : Prop :=
  ∃ name value, item = some (name, value) ∧ ValidText false name ∧
    (∀ text ∈ strOf name, CodePoint.scalar '=' ∉ text) ∧ ValidText true value

/-- What both loops accept after they have seen some names. -/
structure ValidItems (seen : List PyValue) (items : List (Option (PyValue × PyValue))) : Prop where
  entries : ∀ item ∈ items, ValidEntry item
  fresh : ∀ item ∈ items, ∀ name ∈ seen, item.map Prod.fst ≠ some name
  distinct : (items.map (Option.map Prod.fst)).Nodup

/-- What `__post_init__` demands besides. -/
structure Ascending (previous : Option (List UInt8)) (items : List (Option (PyValue × PyValue))) : Prop where
  after : ∀ bytes ∈ previous, ∀ item ∈ items, bytes < nameBytes item
  sorted : (items.map nameBytes).Pairwise (· < ·)

variable {seen : List PyValue} {items rest : List (Option (PyValue × PyValue))} {name value : PyValue}

theorem validItems_nil : ValidItems seen [] :=
  ⟨fun _ member => absurd member List.not_mem_nil, fun _ member => absurd member List.not_mem_nil, List.nodup_nil⟩

theorem validItems_cons : ValidItems seen (some (name, value) :: rest) ↔
    ValidText false name ∧ (∀ text ∈ strOf name, CodePoint.scalar '=' ∉ text) ∧ ValidText true value ∧ name ∉ seen ∧
      ValidItems (name :: seen) rest := by
  constructor
  · rintro ⟨entries, fresh, distinct⟩
    obtain ⟨⟨_, _, ⟨⟩, named, unassigned, valued⟩, others⟩ := List.forall_mem_cons.mp entries
    obtain ⟨new, later⟩ := List.forall_mem_cons.mp fresh
    obtain ⟨once, apart⟩ := List.nodup_cons.mp distinct
    refine ⟨named, unassigned, valued, fun member => new name member rfl, others, ?_, apart⟩
    intro item member known among
    rcases List.mem_cons.mp among with rfl | old
    · intro same
      exact once (List.mem_map.mpr ⟨item, member, same⟩)
    · exact later item member known old
  · rintro ⟨named, unassigned, valued, new, entries, fresh, distinct⟩
    refine ⟨List.forall_mem_cons.mpr ⟨⟨name, value, rfl, named, unassigned, valued⟩, entries⟩,
      List.forall_mem_cons.mpr ⟨?_, ?_⟩, List.nodup_cons.mpr ⟨?_, distinct⟩⟩
    · intro known member same
      obtain rfl := Option.some.inj same
      exact new member
    · intro item member known old
      exact fresh item member known (List.mem_cons_of_mem _ old)
    · intro again
      obtain ⟨item, member, same⟩ := List.mem_map.mp again
      exact fresh item member name List.mem_cons_self same

theorem not_validItems_none : ¬ ValidItems seen (none :: rest) := by
  intro valid
  obtain ⟨_, _, absent, _⟩ := valid.entries none List.mem_cons_self
  cases absent

theorem ascending_cons {previous : Option (List UInt8)} {item : Option (PyValue × PyValue)} :
    Ascending previous (item :: rest) ↔ (∀ bytes ∈ previous, bytes < nameBytes item) ∧ Ascending (some (nameBytes item)) rest := by
  constructor
  · rintro ⟨after, sorted⟩
    obtain ⟨first, others⟩ := List.pairwise_cons.mp sorted
    refine ⟨fun bytes member => after bytes member item List.mem_cons_self, ?_, others⟩
    rintro _ ⟨⟩ other member
    exact first _ (List.mem_map_of_mem member)
  · rintro ⟨first, after, sorted⟩
    refine ⟨fun bytes member => List.forall_mem_cons.mpr ⟨first bytes member, ?_⟩, List.pairwise_cons.mpr ⟨?_, sorted⟩⟩
    · intro other among
      exact List.lt_trans (first bytes member) (after _ rfl other among)
    · intro bytes among
      obtain ⟨other, member, rfl⟩ := List.mem_map.mp among
      exact after _ rfl other member

/-- The checks that both loops make of a pair, before what only one of them does. -/
theorem entry_decides {α : Type} {other : Prop} (field : String) (name value : PyValue) (seen : List PyValue)
    {next : List UInt8 → Except PyError α}
    (later : ValidText false name → Decides other (next (nameBytes (some (name, value))))) :
    Decides (ValidText false name ∧ (∀ text ∈ strOf name, CodePoint.scalar '=' ∉ text) ∧ ValidText true value ∧
      name ∉ seen ∧ other) (do
        let bytes ← validateText (field ++ ".name") name false true
        raiseIf (∃ text ∈ strOf name, CodePoint.scalar '=' ∈ text)
          (invalidSpec "environment variable names must not contain '='")
        let _ ← validateText (field ++ ".value") value true true
        raiseIf (name ∈ seen) (invalidSpec "environment variable names must be unique")
        next bytes) := by
  apply (validateText_decides _ name false).bind
  intro bytes checked valid
  obtain ⟨text, rfl, _, rfl⟩ := validateText_ok.mp checked
  apply Decides.bind
  · apply (Decides.raiseIf _ _).congr
    push Not
    rfl
  intro _ _ _
  apply (validateText_decides _ value true).bind
  intro _ _ _
  apply (Decides.raiseIf _ _).bind
  intro _ _ _
  have bytes : nameBytes (some (textValue text, value)) = utf8 text := by
    simp only [nameBytes, textValue, Str.text?_ofText, Option.map_some, Option.getD_some]
  rw [← bytes]
  exact later valid

theorem validateItems_decides (index : Nat) (seen : List PyValue) (items : List (Option (PyValue × PyValue))) :
    Decides (ValidItems seen items) (validateItems index seen items) := by
  induction items generalizing index seen with
  | nil => exact .ok validItems_nil []
  | cons item rest ih =>
    cases item with
    | none => exact .error not_validItems_none _
    | some pair =>
      obtain ⟨name, value⟩ := pair
      refine Decides.congr (entry_decides _ name value seen fun _ => ?_) validItems_cons.symm
      apply ((ih (index + 1) (name :: seen)).bind fun _ _ _ => Decides.ok trivial _).congr
      exact iff_of_eq (and_true _)

theorem validateEnvironment_decides (index : Nat) (previous : Option (List UInt8)) (seen : List PyValue)
    (items : List (Option (PyValue × PyValue))) :
    Decides (ValidItems seen items ∧ Ascending previous items) (validateEnvironment index previous seen items) := by
  induction items generalizing index previous seen with
  | nil => exact .ok ⟨validItems_nil, fun _ _ _ member => absurd member List.not_mem_nil, List.Pairwise.nil⟩ ()
  | cons item rest ih =>
    cases item with
    | none => exact .error (fun both => not_validItems_none both.1) _
    | some pair =>
      obtain ⟨name, value⟩ := pair
      have later (_ : ValidText false name) : Decides ((∀ bytes ∈ previous, bytes < nameBytes (some (name, value))) ∧
          ValidItems (name :: seen) rest ∧ Ascending (some (nameBytes (some (name, value)))) rest) (do
            raiseIf (notAfter (nameBytes (some (name, value))) previous)
              (invalidSpec "environment must be sorted by exact UTF-8 name bytes")
            validateEnvironment (index + 1) (some (nameBytes (some (name, value)))) (name :: seen) rest) := by
        apply Decides.bind
        · apply (Decides.raiseIf _ _).congr
          unfold notAfter
          push Not
          exact forall_congr' fun bytes => imp_congr_right fun _ => List.not_le
        · exact fun _ _ _ => ih (index + 1) _ (name :: seen)
      apply (entry_decides _ name value seen later).congr
      rw [validItems_cons, ascending_cons]
      tauto

/-! ## What the sort makes of them -/

theorem validateItems_pairs {index : Nat} {validated : List (List UInt8 × PyValue × PyValue)}
    (checked : validateItems index seen items = .ok validated) :
    validated.map (fun item => some item.2) = items ∧ ∀ item ∈ validated, item.1 = nameBytes (some item.2) := by
  induction items generalizing index seen validated with
  | nil =>
    cases checked
    exact ⟨rfl, fun _ member => absurd member List.not_mem_nil⟩
  | cons item rest ih =>
    cases item with
    | none => cases checked
    | some pair =>
      obtain ⟨name, value⟩ := pair
      simp only [validateItems] at checked
      obtain ⟨bytes, named, checked⟩ := bind_eq_ok.mp checked
      obtain ⟨_, _, checked⟩ := bind_eq_ok.mp checked
      obtain ⟨_, _, checked⟩ := bind_eq_ok.mp checked
      obtain ⟨_, _, checked⟩ := bind_eq_ok.mp checked
      obtain ⟨others, later, result⟩ := bind_eq_ok.mp checked
      cases result
      obtain ⟨text, rfl, _, rfl⟩ := validateText_ok.mp named
      obtain ⟨same, bytes⟩ := ih later
      refine ⟨congrArg _ same, List.forall_mem_cons.mpr ⟨?_, bytes⟩⟩
      simp only [nameBytes, textValue, Str.text?_ofText, Option.map_some, Option.getD_some]

theorem ValidItems.perm (valid : ValidItems seen items) {other : List (Option (PyValue × PyValue))}
    (perm : other.Perm items) : ValidItems seen other where
  entries item member := valid.entries item (perm.subset member)
  fresh item member := valid.fresh item (perm.subset member)
  distinct := (perm.map _).nodup_iff.mpr valid.distinct

/-- Names in the order of their bytes are strictly ascending, since no two are the same. -/
theorem ValidItems.ascending (valid : ValidItems seen items)
    (ordered : items.Pairwise fun first second => nameBytes first ≤ nameBytes second) : Ascending none items := by
  refine ⟨nofun, List.pairwise_map.mpr ?_⟩
  have apart : items.Pairwise fun first second => first.map Prod.fst ≠ second.map Prod.fst := List.pairwise_map.mp valid.distinct
  refine List.Pairwise.imp_of_mem ?_ (ordered.and apart)
  rintro first second member also ⟨least, differ⟩
  apply List.not_le.mp
  intro most
  obtain ⟨name, value, rfl, named, _⟩ := valid.entries first member
  obtain ⟨sibling, content, rfl, other, _⟩ := valid.entries second also
  have same := (nameBytes_eq_iff named other value content).mp (List.le_antisymm least most)
  exact differ (congrArg some same)

/-- The frozen environment has the same pairs, and its names ascend. -/
theorem frozen_items {validated : List (List UInt8 × PyValue × PyValue)}
    (checked : validateItems 0 seen items = .ok validated) (valid : ValidItems seen items) :
    ((sortItems validated).map fun item => some item.2).Perm items ∧
      Ascending none ((sortItems validated).map fun item => some item.2) := by
  obtain ⟨same, bytes⟩ := validateItems_pairs checked
  have perm : (sortItems validated).Perm validated := List.perm_insertionSort _ validated
  have frozen : ((sortItems validated).map fun item => some item.2).Perm items := same ▸ perm.map _
  refine ⟨frozen, (valid.perm frozen).ascending (List.pairwise_map.mpr ?_)⟩
  refine List.Pairwise.imp_of_mem ?_ (List.pairwise_insertionSort (fun first second => first.1 ≤ second.1) validated)
  intro first second member also least
  rwa [bytes first (perm.subset member), bytes second (perm.subset also)] at least

section Construction

variable (isabs : Str → Bool)

structure CommandFields.Valid (fields : CommandFields) : Prop where
  executable : ValidPath isabs fields.executable
  argv : ∃ argv, fields.argv = some argv ∧ ValidArgv argv.items
  workingDirectory : ValidPath isabs fields.workingDirectory
  environment : ∃ environment, fields.environment = some environment ∧ ValidItems [] environment.items ∧
    Ascending none environment.items
  timeoutSeconds : ValidTimeout fields.timeoutSeconds

structure CommandArguments.Valid (command : CommandArguments) : Prop where
  executable : ValidPath isabs command.executable
  argv : ∃ argv, command.argv = .sequence argv ∧ ValidArgv argv.items
  workingDirectory : ValidPath isabs command.workingDirectory
  environment : ∃ items, command.environment = .mapping items ∧ ValidItems [] items.items
  timeoutSeconds : ValidTimeout command.timeoutSeconds

theorem postInit_decides (fields : CommandFields) : Decides (fields.Valid isabs) (postInit isabs fields) := by
  have last {rest : Except PyError Unit}
      (absent : fields.environment = none → rest = .error (invalidSpec "environment must be an exact tuple"))
      (present : ∀ environment, fields.environment = some environment →
        rest = (validateEnvironment 0 none [] environment.items >>= fun _ => validateTimeout fields.timeoutSeconds)) :
      Decides ((∃ environment, fields.environment = some environment ∧ ValidItems [] environment.items ∧
        Ascending none environment.items) ∧ ValidTimeout fields.timeoutSeconds) rest := by
    cases given : fields.environment with
    | none =>
      rw [absent given]
      refine .error ?_ _
      rintro ⟨⟨_, ⟨⟩, _⟩, _⟩
    | some environment =>
      rw [present environment given]
      apply ((validateEnvironment_decides 0 none [] environment.items).bind fun _ _ _ =>
        validateTimeout_decides fields.timeoutSeconds).congr
      refine and_congr_left fun _ => ⟨fun both => ⟨environment, rfl, both⟩, ?_⟩
      rintro ⟨_, ⟨⟩, both⟩
      exact both
  apply ((validateAbsolute_decides isabs _ _ fields.executable).bind fun _ _ _ =>
    (validateArgv_decides fields.argv).bind fun _ _ _ =>
      (validateAbsolute_decides isabs _ _ fields.workingDirectory).bind fun _ _ _ =>
        last (fun absent => by rw [absent]) (fun environment present => by rw [present])).congr
  constructor
  · rintro ⟨executable, argv, directory, environment, timeout⟩
    exact ⟨executable, argv, directory, environment, timeout⟩
  · rintro ⟨executable, argv, directory, environment, timeout⟩
    exact ⟨executable, argv, directory, environment, timeout⟩

theorem construct_decides (fields : CommandFields) : Decides (fields.Valid isabs) (construct isabs fields) := by
  have decides := postInit_decides isabs fields
  unfold construct
  split
  · rename_i error raised
    rcases decides with ⟨_, _, passed⟩ | ⟨fails, message, failed⟩
    · cases raised.symm.trans passed
    · obtain rfl := Except.error.inj (raised.symm.trans failed)
      exact .error fails message
  · rename_i passed
    exact .ok (decides.of_ok passed) _

theorem construct_fields {fields : CommandFields} {spec : LocalCommandSpec isabs}
    (made : construct isabs fields = .ok spec) : spec.fields = fields := by
  unfold construct at made
  split at made
  · cases made
  · cases made
    rfl

/-- What a successful snapshot holds. -/
theorem snapshot_fields {command : CommandArguments} {spec : LocalCommandSpec isabs}
    (taken : snapshot isabs command = .ok spec) : ∃ argv items validated environment,
      command.argv = .sequence argv ∧ command.environment = .mapping items ∧
      validateItems 0 [] items.items = .ok validated ∧ environment.items = (sortItems validated).map (fun item => some item.2) ∧
      spec.fields = ⟨command.executable, some argv, command.workingDirectory, some environment, command.timeoutSeconds⟩ := by
  obtain ⟨argv, frozen, taken⟩ := bind_eq_ok.mp taken
  obtain ⟨items, mapped, taken⟩ := bind_eq_ok.mp taken
  obtain ⟨validated, checked, taken⟩ := bind_eq_ok.mp taken
  obtain ⟨environment, tupled, taken⟩ := bind_eq_ok.mp taken
  have arguments : command.argv = .sequence argv := by
    cases given : command.argv with
    | sequence =>
      rw [given] at frozen
      cases frozen
      rfl
    | _ =>
      rw [given] at frozen
      cases frozen
  have entries : command.environment = .mapping items := by
    cases given : command.environment with
    | mapping =>
      rw [given] at mapped
      cases mapped
      rfl
    | _ =>
      rw [given] at mapped
      cases mapped
  refine ⟨argv, items, validated, environment, arguments, entries, checked, ?_, construct_fields isabs taken⟩
  unfold toTuple at tupled
  split at tupled
  · cases tupled
    rfl
  · cases tupled

theorem snapshot_decides (command : CommandArguments) : Decides (command.Valid isabs) (snapshot isabs command) := by
  obtain ⟨executable, argv, directory, environment, timeout⟩ := command
  cases argv with
  | sequence argv =>
    cases environment with
    | mapping items =>
      rcases validateItems_decides 0 [] items.items with ⟨valid, validated, checked⟩ | ⟨fails, message, failed⟩
      · obtain ⟨perm, ascending⟩ := frozen_items checked valid
        have fits : ((sortItems validated).map fun item => some item.2).length ≤ maxSize := perm.length_eq ▸ items.fits
        have same : snapshot isabs ⟨executable, .sequence argv, directory, .mapping items, timeout⟩ =
            construct isabs ⟨executable, some argv, directory, some ⟨_, fits⟩, timeout⟩ := by
          change validateItems 0 [] items.items >>= _ = _
          rw [checked]
          change toTuple _ >>= _ = _
          rw [toTuple, dif_pos fits]
          rfl
        rw [same]
        apply (construct_decides isabs _).congr
        constructor
        · rintro ⟨path, ⟨_, ⟨⟩, arguments⟩, place, _, time⟩
          exact ⟨path, ⟨argv, rfl, arguments⟩, place, ⟨items, rfl, valid⟩, time⟩
        · rintro ⟨path, ⟨_, ⟨⟩, arguments⟩, place, _, time⟩
          exact ⟨path, ⟨argv, rfl, arguments⟩, place, ⟨_, rfl, valid.perm perm, ascending⟩, time⟩
      · refine .inr ⟨?_, message, ?_⟩
        · rintro ⟨_, _, _, ⟨_, ⟨⟩, valid⟩, _⟩
          exact fails valid
        · change validateItems 0 [] items.items >>= _ = _
          rw [failed]
          rfl
    | _ => exact .error (fun ⟨_, _, _, ⟨_, other, _⟩, _⟩ => nomatch other) _
  | _ => exact .error (fun ⟨_, ⟨_, other, _⟩, _, _, _⟩ => nomatch other) _

/-- Two commands are the same but for the order in which the mapping is gone through. -/
structure CommandArguments.Same (command other : CommandArguments) : Prop where
  executable : command.executable = other.executable
  argv : command.argv = other.argv
  workingDirectory : command.workingDirectory = other.workingDirectory
  environment : ∀ item, (∃ items, command.environment = .mapping items ∧ item ∈ items.items) ↔
    ∃ items, other.environment = .mapping items ∧ item ∈ items.items
  timeoutSeconds : command.timeoutSeconds = other.timeoutSeconds

theorem snapshot_eq_iff {command other : CommandArguments} {spec twin : LocalCommandSpec isabs}
    (taken : snapshot isabs command = .ok spec) (also : snapshot isabs other = .ok twin) :
    spec = twin ↔ command.Same other := by
  have valid := (snapshot_decides isabs command).of_ok taken
  have sound := (snapshot_decides isabs other).of_ok also
  obtain ⟨argv, items, validated, environment, argvs, mapped, checked, frozen, fields⟩ := snapshot_fields isabs taken
  obtain ⟨argv', items', validated', environment', argvs', mapped', checked', frozen', fields'⟩ := snapshot_fields isabs also
  obtain ⟨_, mapping, entries⟩ := valid.environment
  cases mapped.symm.trans mapping
  obtain ⟨_, mapping', entries'⟩ := sound.environment
  cases mapped'.symm.trans mapping'
  obtain ⟨perm, ascending⟩ := frozen_items checked entries
  obtain ⟨perm', ascending'⟩ := frozen_items checked' entries'
  rw [← frozen] at perm ascending
  rw [← frozen'] at perm' ascending'
  have whole : spec = twin ↔ spec.fields = twin.fields := by
    cases spec
    cases twin
    simp
  rw [whole, fields, fields', CommandFields.mk.injEq]
  have environments : environment = environment' ↔ ∀ item, item ∈ items.items ↔ item ∈ items'.items := by
    constructor
    · rintro rfl item
      rw [← perm.mem_iff, ← perm'.mem_iff]
    · intro members
      have nodup : items.items.Nodup := entries.distinct.of_map _
      have nodup' : items'.items.Nodup := entries'.distinct.of_map _
      have together : environment.items.Perm environment'.items :=
        perm.trans (((List.perm_ext_iff_of_nodup nodup nodup').mpr members).trans perm'.symm)
      have equal : environment.items = environment'.items := by
        apply List.Perm.eq_of_pairwise _ (List.pairwise_map.mp ascending.sorted) (List.pairwise_map.mp ascending'.sorted)
          together
        intro first second _ _ less more
        exact absurd more (List.lt_asymm less)
      cases environment
      cases environment'
      cases equal
      rfl
  rw [Option.some.injEq, Option.some.injEq, environments]
  constructor
  · rintro ⟨executable, arguments, directory, members, timeout⟩
    refine ⟨executable, ?_, directory, fun item => ?_, timeout⟩
    · rw [argvs, argvs', arguments]
    · rw [mapped, mapped']
      simpa using members item
  · rintro ⟨executable, arguments, directory, members, timeout⟩
    refine ⟨executable, ?_, directory, fun item => ?_, timeout⟩
    · rw [argvs, argvs'] at arguments
      exact ArgvArgument.sequence.inj arguments
    · have member := members item
      rw [mapped, mapped'] at member
      simpa using member

/-- Both entry points accept what is valid and reject everything else, and a snapshot depends on the mapping alone. -/
theorem snapshot_canonical :
    (∀ command : CommandArguments, Decides (command.Valid isabs) (snapshot isabs command)) ∧
      (∀ fields : CommandFields, Decides (fields.Valid isabs) (postInit isabs fields)) ∧
      ∀ command other spec twin, snapshot isabs command = .ok spec → snapshot isabs other = .ok twin →
        (spec = twin ↔ command.Same other) :=
  ⟨snapshot_decides isabs, postInit_decides isabs, fun _ _ _ _ taken also => snapshot_eq_iff isabs taken also⟩

end Construction

/-- Every text is valid, and there is no time to run. -/
def timeless : CommandArguments where
  executable := textValue "/bin/true".toList
  argv := .sequence ⟨[textValue "true".toList], by decide⟩
  workingDirectory := textValue "/".toList
  environment := .mapping ⟨[], by decide⟩
  timeoutSeconds := .int 0

theorem timeless_rejected :
    ValidText false timeless.executable ∧ ValidText true (textValue "true".toList) ∧
      ValidText false timeless.workingDirectory ∧ ValidItems [] [] ∧
      ¬ ∃ spec, snapshot (fun path => path.head? = some (.scalar '/')) timeless = .ok spec := by
  have short (text : Text) (small : (utf8 text).length < 2 ^ 64) : text ∈ framable := small
  refine ⟨⟨"/bin/true".toList, rfl, .inr (by decide), by decide, short _ (by decide)⟩,
    ⟨"true".toList, rfl, .inl rfl, by decide, short _ (by decide)⟩,
    ⟨"/".toList, rfl, .inr (by decide), by decide, short _ (by decide)⟩, validItems_nil, ?_⟩
  rintro ⟨spec, taken⟩
  obtain ⟨_, same, positive, _⟩ := ((snapshot_decides _ timeless).of_ok taken).timeoutSeconds
  have none := PyValue.int.inj same
  omega

end Umbilical.Execution
