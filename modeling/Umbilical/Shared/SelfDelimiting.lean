import Mathlib.Data.Set.Function
import Mathlib.Data.Set.Prod
import Mathlib.Algebra.Group.Nat.Defs

set_option autoImplicit false

/-!
# Self-delimiting encodings

An encoding is self-delimiting on a domain when the code of a member can be
split off the front of any longer word in only one way. The closure rules below
follow the ways a payload is put together: fixed widths, tags, fields one after
another, counts and length frames.
-/

namespace Umbilical

variable {α β σ : Type}

def SelfDelimiting (domain : Set α) (encode : α → List σ) : Prop :=
  ∀ a ∈ domain, ∀ b ∈ domain, ∀ left right,
    encode a ++ left = encode b ++ right → a = b ∧ left = right

theorem SelfDelimiting.injOn {domain : Set α} {encode : α → List σ}
    (delimited : SelfDelimiting domain encode) : Set.InjOn encode domain := by
  intro a inside b insideB same
  exact (delimited a inside b insideB [] [] (by rw [same])).1

theorem SelfDelimiting.fixed_width {domain : Set α} {encode : α → List σ} (width : Nat)
    (widths : ∀ a ∈ domain, (encode a).length = width) (injective : Set.InjOn encode domain) :
    SelfDelimiting domain encode := by
  intro a inside b insideB left right same
  have lengths : (encode a).length = (encode b).length := by
    rw [widths a inside, widths b insideB]
  obtain ⟨codes, rests⟩ := List.append_inj same lengths
  exact ⟨injective inside insideB codes, rests⟩

theorem SelfDelimiting.tagged {domain : Set α} {encode : α → List σ} (tag : List σ)
    (delimited : SelfDelimiting domain encode) :
    SelfDelimiting domain (fun a => tag ++ encode a) := by
  intro a inside b insideB left right same
  rw [List.append_assoc, List.append_assoc] at same
  exact delimited a inside b insideB left right (List.append_cancel_left same)

theorem SelfDelimiting.in_turn {first : Set α} {second : Set β} {encode : α → List σ} {encode' : β → List σ}
    (delimited : SelfDelimiting first encode) (delimited' : SelfDelimiting second encode') :
    SelfDelimiting (first ×ˢ second) (fun pair => encode pair.1 ++ encode' pair.2) := by
  rintro ⟨a, a'⟩ ⟨inside, inside'⟩ ⟨b, b'⟩ ⟨insideB, insideB'⟩ left right same
  simp only [List.append_assoc] at same
  obtain ⟨firsts, same⟩ := delimited a inside b insideB _ _ same
  obtain ⟨seconds, rests⟩ := delimited' a' inside' b' insideB' _ _ same
  exact ⟨Prod.ext firsts seconds, rests⟩

theorem SelfDelimiting.comap {domain : Set α} {source : Set β} {encode : α → List σ} (view : β → α)
    (delimited : SelfDelimiting domain encode) (inside : ∀ b ∈ source, view b ∈ domain)
    (injective : Set.InjOn view source) : SelfDelimiting source (fun b => encode (view b)) := by
  intro a insideA b insideB left right same
  obtain ⟨views, rests⟩ := delimited _ (inside a insideA) _ (inside b insideB) left right same
  exact ⟨injective insideA insideB views, rests⟩

/-- With equal counts the items of a sequence can be split off one by one. -/
theorem SelfDelimiting.sequence {domain : Set α} {encode : α → List σ} (delimited : SelfDelimiting domain encode)
    (as bs : List α) (counts : as.length = bs.length) (inside : ∀ a ∈ as, a ∈ domain)
    (insideB : ∀ b ∈ bs, b ∈ domain) (left right : List σ)
    (same : as.flatMap encode ++ left = bs.flatMap encode ++ right) : as = bs ∧ left = right := by
  induction as generalizing bs with
  | nil =>
    obtain rfl : bs = [] := List.length_eq_zero_iff.mp counts.symm
    exact ⟨rfl, by simpa using same⟩
  | cons a as ih =>
    cases bs with
    | nil => simp at counts
    | cons b bs =>
      simp only [List.flatMap_cons, List.append_assoc] at same
      obtain ⟨heads, same⟩ := delimited a (inside a (by simp)) b (insideB b (by simp)) _ _ same
      obtain ⟨tails, rests⟩ := ih bs (by simpa using counts)
        (fun x member => inside x (List.mem_cons_of_mem _ member))
        (fun x member => insideB x (List.mem_cons_of_mem _ member)) same
      exact ⟨by rw [heads, tails], rests⟩

/-- A sequence behind a self-delimiting count of its items. -/
theorem SelfDelimiting.counted {domain : Set α} {sizes : Set Nat} {encode : α → List σ} {count : Nat → List σ}
    (delimitedCount : SelfDelimiting sizes count) (delimited : SelfDelimiting domain encode) :
    SelfDelimiting {as : List α | as.length ∈ sizes ∧ ∀ a ∈ as, a ∈ domain}
      (fun as => count as.length ++ as.flatMap encode) := by
  intro as inside bs insideB left right same
  simp only [List.append_assoc] at same
  obtain ⟨counts, same⟩ := delimitedCount _ inside.1 _ insideB.1 _ _ same
  exact delimited.sequence as bs counts inside.2 insideB.2 left right same

/-- A word behind a self-delimiting count of its letters. -/
theorem SelfDelimiting.framed {sizes : Set Nat} {count : Nat → List σ}
    (delimitedCount : SelfDelimiting sizes count) :
    SelfDelimiting {word : List σ | word.length ∈ sizes} (fun word => count word.length ++ word) := by
  intro word inside word' inside' left right same
  simp only [List.append_assoc] at same
  obtain ⟨lengths, same⟩ := delimitedCount _ inside _ inside' _ _ same
  exact List.append_inj same lengths

/-- Big-endian base-256 digits of the low `width` bytes of a number. -/
def bigEndian : Nat → Nat → List UInt8
  | 0, _ => []
  | width + 1, value => bigEndian width (value / 256) ++ [UInt8.ofNat (value % 256)]

@[simp] theorem bigEndian_length (width value : Nat) : (bigEndian width value).length = width := by
  induction width generalizing value with
  | zero => rfl
  | succ width ih => simp [bigEndian, ih]

theorem bigEndian_injOn (width : Nat) : Set.InjOn (bigEndian width) {value | value < 256 ^ width} := by
  induction width with
  | zero =>
    intro a inside b insideB _
    have smallA : a < 1 := inside
    have smallB : b < 1 := insideB
    omega
  | succ width ih =>
    intro a inside b insideB same
    have smallA : a < 256 ^ width * 256 := inside
    have smallB : b < 256 ^ width * 256 := insideB
    obtain ⟨high, low⟩ := List.append_inj' same rfl
    have quotients : a / 256 = b / 256 :=
      ih (show a / 256 < _ by omega) (show b / 256 < _ by omega) high
    have remainders : a % 256 = b % 256 := by
      have digits := congrArg UInt8.toNat (List.cons.inj low).1
      simpa [UInt8.toNat_ofNat', Nat.mod_eq_of_lt] using digits
    omega

theorem bigEndian_delimited (width : Nat) :
    SelfDelimiting {value | value < 256 ^ width} (bigEndian width) :=
  SelfDelimiting.fixed_width width (fun _ _ => bigEndian_length width _) (bigEndian_injOn width)

end Umbilical
