import Mathlib.Data.List.Basic

set_option autoImplicit false

/-!
# Netstrings

The length of a string in decimal digits, a colon, the string, and a comma.
-/

namespace Umbilical.Netstrings

def digits (length : Nat) : List UInt8 := (Nat.toDigits 10 length).map fun char => UInt8.ofNat char.toNat

def frame (string : List UInt8) : List UInt8 := digits string.length ++ 58 :: (string ++ [44])

/-- A length up to its colon. -/
def readLength (value : Nat) : List UInt8 → Option (Nat × List UInt8)
  | [] => none
  | byte :: rest =>
    if byte = 58 then some (value, rest)
    else if 48 ≤ byte.toNat ∧ byte.toNat ≤ 57 then readLength (10 * value + (byte.toNat - 48)) rest
    else none

def readOne (bytes : List UInt8) : Option (List UInt8 × List UInt8) :=
  match readLength 0 bytes with
  | none => none
  | some (length, rest) =>
    match rest.drop length with
    | 44 :: others => if length ≤ rest.length then some (rest.take length, others) else none
    | _ => none

/-- The strings of some bytes that are netstrings and nothing else; each takes a byte at least. -/
def readAll : Nat → List UInt8 → Option (List (List UInt8))
  | _, [] => some []
  | 0, _ => none
  | fuel + 1, bytes =>
    (readOne bytes).bind fun first => (readAll fuel first.2).map (first.1 :: ·)

theorem readLength_digits (text : List Char) (digital : ∀ char ∈ text, char.isDigit) (value : Nat) (rest : List UInt8) :
    readLength value (text.map (fun char => UInt8.ofNat char.toNat) ++ 58 :: rest) =
      some (Nat.ofDigitChars 10 text value, rest) := by
  induction text generalizing value with
  | nil => rfl
  | cons char text ih =>
    have bounds := Char.isDigit_iff_toNat.mp (digital char List.mem_cons_self)
    simp only [Char.reduceToNat] at bounds
    have same : (UInt8.ofNat char.toNat).toNat = char.toNat := by
      rw [UInt8.toNat_ofNat']
      exact Nat.mod_eq_of_lt (by omega)
    have colon : UInt8.ofNat char.toNat ≠ 58 := by
      intro equal
      rw [equal] at same
      have value : (58 : UInt8).toNat = 58 := rfl
      omega
    rw [List.map_cons, List.cons_append, readLength, if_neg colon, same, if_pos bounds, Nat.ofDigitChars_cons, ih]
    · rfl
    · intro other member
      exact digital other (List.mem_cons_of_mem _ member)

theorem readOne_frame (string rest : List UInt8) : readOne (frame string ++ rest) = some (string, rest) := by
  have length : readLength 0 (frame string ++ rest) = some (string.length, string ++ 44 :: rest) := by
    unfold frame digits
    rw [List.append_assoc, List.cons_append, List.append_assoc, readLength_digits]
    · rw [Nat.ofDigitChars_ten_toDigits]
      rfl
    · intro char member
      exact Nat.isDigit_of_mem_toDigits (by decide) (by decide) member
  rw [readOne, length]
  simp

theorem readAll_frames (strings : List (List UInt8)) {fuel : Nat} (enough : strings.length ≤ fuel) :
    readAll fuel (strings.flatMap frame) = some strings := by
  induction strings generalizing fuel with
  | nil => cases fuel <;> rfl
  | cons string strings ih =>
    cases fuel with
    | zero => cases enough
    | succ fuel =>
      rw [List.flatMap_cons]
      have something : frame string ++ strings.flatMap frame ≠ [] := by simp [frame]
      rw [readAll]
      · rw [readOne_frame, Option.bind_some, ih (Nat.le_of_succ_le_succ enough)]
        rfl
      · exact something

/-- Every string takes a byte of its own. -/
theorem length_le_frames (strings : List (List UInt8)) : strings.length ≤ (strings.flatMap frame).length := by
  induction strings with
  | nil => exact Nat.le_refl 0
  | cons string strings ih =>
    rw [List.flatMap_cons, List.length_append, List.length_cons]
    have something : 0 < (frame string).length := by
      rw [frame, List.length_append, List.length_cons]
      omega
    omega

end Umbilical.Netstrings
