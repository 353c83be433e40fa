import Mathlib.Data.List.Sort
import Umbilical.Python.Text
import Umbilical.Shared.Keyed
import Umbilical.Shared.Replacing

set_option autoImplicit false

/-!
# Secrets

The values of secrets that were used are replaced by their names in what could be logged.
-/

namespace Umbilical.Process

open Python Replacing

/-- `str.isspace` -/
def isSpace (char : Char) : Bool :=
  char.val ∈ [0x20, 0x85, 0xA0, 0x1680, 0x2028, 0x2029, 0x202F, 0x205F, 0x3000] ||
    (0x09 ≤ char.val && char.val ≤ 0x0D) || (0x1C ≤ char.val && char.val ≤ 0x1F) ||
    (0x2000 ≤ char.val && char.val ≤ 0x200A)

/-- `_used_secrets`: values of secrets with what stands for them. -/
abbrev UsedSecrets := List (Text × Text)

namespace UsedSecrets

variable (used : UsedSecrets)

/-- Assignment to a key of the dictionary. -/
def set (secretValue replacement : Text) : UsedSecrets :=
  match Keyed.lookup Prod.fst used secretValue with
  | some _ => Keyed.revise Prod.fst (fun entry => (entry.1, replacement)) secretValue used
  | none => used ++ [(secretValue, replacement)]

def useSecret (secretValue secretName : Text) : UsedSecrets :=
  if secretValue.all isSpace then used else used.set secretValue ('<' :: (secretName ++ ['>']))

/-- The longest first, and those of one length in the order in which they were first used. -/
def byLength : UsedSecrets := used.insertionSort fun first second => second.1.length ≤ first.1.length

def cleanupTextFromSecrets (text : Text) : Text :=
  used.byLength.foldl (fun text secret => replace secret.1 secret.2 text) text

variable {used}

theorem mem_byLength {secret : Text × Text} : secret ∈ used.byLength ↔ secret ∈ used := List.mem_insertionSort _

/-- A text without secrets stays as it is. -/
theorem cleanup_of_absent {text : Text} (absent : ∀ secret ∈ used, ¬ secret.1 <:+: text) :
    used.cleanupTextFromSecrets text = text := by
  have all : ∀ secret ∈ used.byLength, ¬ secret.1 <:+: text := fun secret member => absent secret (mem_byLength.mp member)
  unfold cleanupTextFromSecrets
  generalize used.byLength = secrets at all
  induction secrets with
  | nil => rfl
  | cons secret rest ih =>
    rw [List.foldl_cons, replace_of_absent secret.2 (all secret List.mem_cons_self)]
    exact ih fun other member => all other (List.mem_cons_of_mem _ member)

/-- The secrets that were used, by value and name. -/
def ofUses (uses : List (Text × Text)) : UsedSecrets :=
  uses.foldl (fun used secret => used.useSecret secret.1 secret.2) []

/-- What `useSecret` records. -/
structure Recorded (used : UsedSecrets) : Prop where
  distinct : Keyed.Distinct Prod.fst used
  visible : ∀ secret ∈ used, ¬ secret.1.all isSpace
  named : ∀ secret ∈ used, ∃ name, secret.2 = '<' :: (name ++ ['>'])

theorem Recorded.useSecret (recorded : used.Recorded) (secretValue secretName : Text) :
    (used.useSecret secretValue secretName).Recorded := by
  unfold UsedSecrets.useSecret
  split
  · exact recorded
  rename_i visible
  unfold set
  split
  · have keeps (entry : Text × Text) : Prod.fst (entry.1, '<' :: (secretName ++ ['>'])) = Prod.fst entry := rfl
    refine ⟨(Keyed.distinct_revise _ keeps).mpr recorded.distinct, fun secret member => ?_, fun secret member => ?_⟩
    · rcases Keyed.mem_revise member with ⟨kept, _⟩ | ⟨old, kept, _, rfl⟩
      · exact recorded.visible secret kept
      · exact recorded.visible old kept
    · rcases Keyed.mem_revise member with ⟨kept, _⟩ | ⟨old, _, _, rfl⟩
      · exact recorded.named secret kept
      · exact ⟨secretName, rfl⟩
  · rename_i fresh
    refine ⟨Keyed.distinct_append.mpr ⟨recorded.distinct, fresh⟩, fun secret member => ?_, fun secret member => ?_⟩
    · rcases List.mem_append.mp member with kept | added
      · exact recorded.visible secret kept
      · rwa [List.mem_singleton.mp added]
    · rcases List.mem_append.mp member with kept | added
      · exact recorded.named secret kept
      · rw [List.mem_singleton.mp added]
        exact ⟨secretName, rfl⟩

theorem ofUses_recorded (uses : List (Text × Text)) : (ofUses uses).Recorded := by
  have start : Recorded [] := ⟨List.nodup_nil, nofun, nofun⟩
  unfold ofUses
  generalize ([] : UsedSecrets) = used at start
  induction uses generalizing used with
  | nil => exact start
  | cons secret rest ih => exact ih _ (start.useSecret secret.1 secret.2)

/-- No secret is in what stands for one, goes on into it or out of it, or has it inside. -/
def Separate (used : UsedSecrets) : Prop := ∀ secret ∈ used, ∀ other ∈ used, Detached secret.1 other.2

def Hidden (used : UsedSecrets) (text : Text) : Prop := ∀ secret ∈ used, ¬ secret.1 <:+: text

theorem Recorded.ne_nil (recorded : used.Recorded) {secret : Text × Text} (member : secret ∈ used) : secret.1 ≠ [] := by
  intro empty
  have visible := recorded.visible secret member
  rw [empty] at visible
  exact visible rfl

/-- No secret is left in a text that was cleaned up. -/
theorem Separate.hidden (separate : used.Separate) (recorded : used.Recorded) (text : Text) :
    used.Hidden (used.cleanupTextFromSecrets text) := by
  -- Each secret is gone when its turn is over, and later turns do not bring it back.
  have turns (secrets : List (Text × Text)) (among : ∀ secret ∈ secrets, secret ∈ used) (text : Text)
      (secret : Text × Text) (member : secret ∈ used) (gone : secret ∈ secrets ∨ ¬ secret.1 <:+: text) :
      ¬ secret.1 <:+: secrets.foldl (fun text secret => replace secret.1 secret.2 text) text := by
    induction secrets generalizing text with
    | nil => exact gone.resolve_left List.not_mem_nil
    | cons first rest ih =>
      have here := among first List.mem_cons_self
      apply ih (fun other later => among other (List.mem_cons_of_mem _ later))
      by_cases absent : secret.1 <:+: text
      · rcases List.mem_cons.mp (gone.resolve_right (not_not.mpr absent)) with rfl | later
        · exact .inr (not_infix_replace (recorded.ne_nil here) (separate _ here _ here) text)
        · exact .inl later
      · exact .inr fun inside => absent (infix_of_replace (recorded.ne_nil here) (separate _ member _ here) inside)
  intro secret member
  exact turns used.byLength (fun other listed => mem_byLength.mp listed) text secret member
    (.inl (mem_byLength.mpr member))

/-- A text that ends a line or ends with what stands for a secret. -/
def Closing (used : UsedSecrets) (text : Text) : Prop :=
  text.getLast? = some '\n' ∨ ∃ secret ∈ used, secret.2 <:+ text

theorem Separate.closing (separate : used.Separate) (recorded : used.Recorded) {text : Text}
    (closing : used.Closing text) : used.Closing (used.cleanupTextFromSecrets text) := by
  have among : ∀ secret ∈ used.byLength, secret ∈ used := fun secret member => mem_byLength.mp member
  unfold cleanupTextFromSecrets
  generalize used.byLength = secrets at among
  induction secrets generalizing text with
  | nil => exact closing
  | cons secret rest ih =>
    have member := among secret List.mem_cons_self
    refine ih ?_ fun other later => among other (List.mem_cons_of_mem _ later)
    rcases closing with newline | ⟨other, also, before, rfl⟩
    · rcases replace_ends (recorded.ne_nil member) newline with kept | last
      · exact .inl kept
      · exact .inr ⟨secret, member, last⟩
    · -- What stands for a secret stays at the end.
      have cut : replace secret.1 secret.2 (before ++ (other.2 ++ [])) = _ :=
        replace_apart (recorded.ne_nil member) (separate secret member other also) before []
      rw [List.append_nil, replace_nil, List.append_nil] at cut
      exact .inr ⟨other, also, _, cut.symm⟩

end UsedSecrets

end Umbilical.Process
