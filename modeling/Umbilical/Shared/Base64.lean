import Mathlib.Data.List.Basic

set_option autoImplicit false

/-!
# Base64

The decoder is the one that is not strict: it passes over what is outside of the alphabet,
and stops where the padding is complete.
-/

namespace Umbilical.Base64

def character (value : Nat) : UInt8 :=
  if value < 26 then UInt8.ofNat (65 + value)
  else if value < 52 then UInt8.ofNat (71 + value)
  else if value < 62 then UInt8.ofNat (value - 4)
  else if value = 62 then 43
  else 47

def value (character : UInt8) : Option Nat :=
  if 65 ≤ character.toNat ∧ character.toNat ≤ 90 then some (character.toNat - 65)
  else if 97 ≤ character.toNat ∧ character.toNat ≤ 122 then some (character.toNat - 71)
  else if 48 ≤ character.toNat ∧ character.toNat ≤ 57 then some (character.toNat + 4)
  else if character = 43 then some 62
  else if character = 47 then some 63
  else none

/-- `=`. -/
def pad : UInt8 := 61

def encode : List UInt8 → List UInt8
  | [] => []
  | [a] => [character (a.toNat / 4), character (a.toNat % 4 * 16), pad, pad]
  | [a, b] =>
    [character (a.toNat / 4), character (a.toNat % 4 * 16 + b.toNat / 16), character (b.toNat % 16 * 4), pad]
  | a :: b :: c :: rest =>
    character (a.toNat / 4) :: character (a.toNat % 4 * 16 + b.toNat / 16) ::
      character (b.toNat % 16 * 4 + c.toNat / 64) :: character (c.toNat % 64) :: encode rest

/-- `quadPos` characters of a group of four are read; `left` are the bits of them that make no byte yet. -/
def decodeFrom (quadPos left pads : Nat) : List UInt8 → Option (List UInt8)
  | [] => if quadPos = 0 then some [] else none
  | first :: rest =>
    if first = pad then
      if quadPos < 2 then decodeFrom quadPos left pads rest
      else if 4 ≤ quadPos + (pads + 1) then some []
      else decodeFrom quadPos left (pads + 1) rest
    else
      match value first with
      | none => decodeFrom quadPos left pads rest
      | some value =>
        match quadPos with
        | 0 => decodeFrom 1 value 0 rest
        | 1 => (decodeFrom 2 (value % 16) 0 rest).map (UInt8.ofNat (left * 4 + value / 16) :: ·)
        | 2 => (decodeFrom 3 (value % 4) 0 rest).map (UInt8.ofNat (left * 16 + value / 4) :: ·)
        | _ => (decodeFrom 0 0 0 rest).map (UInt8.ofNat (left * 64 + value) :: ·)

def decode (bytes : List UInt8) : Option (List UInt8) := decodeFrom 0 0 0 bytes

theorem character_spec : ∀ code < 64,
    value (character code) = some code ∧ character code ≠ pad ∧ (character code).toNat < 128 := by
  decide

theorem decodeFrom_character {code : Nat} (small : code < 64) (quadPos left pads : Nat) (rest : List UInt8) :
    decodeFrom quadPos left pads (character code :: rest) =
      match quadPos with
      | 0 => decodeFrom 1 code 0 rest
      | 1 => (decodeFrom 2 (code % 16) 0 rest).map (UInt8.ofNat (left * 4 + code / 16) :: ·)
      | 2 => (decodeFrom 3 (code % 4) 0 rest).map (UInt8.ofNat (left * 16 + code / 4) :: ·)
      | _ => (decodeFrom 0 0 0 rest).map (UInt8.ofNat (left * 64 + code) :: ·) := by
  obtain ⟨found, plain, -⟩ := character_spec code small
  rw [decodeFrom, if_neg plain, found]

theorem decodeFrom_zero {code : Nat} (small : code < 64) (left pads : Nat) (rest : List UInt8) :
    decodeFrom 0 left pads (character code :: rest) =
      decodeFrom 1 code 0 rest :=
  decodeFrom_character small 0 left pads rest

theorem decodeFrom_one {code : Nat} (small : code < 64) (left pads : Nat) (rest : List UInt8) :
    decodeFrom 1 left pads (character code :: rest) =
      (decodeFrom 2 (code % 16) 0 rest).map (UInt8.ofNat (left * 4 + code / 16) :: ·) :=
  decodeFrom_character small 1 left pads rest

theorem decodeFrom_two {code : Nat} (small : code < 64) (left pads : Nat) (rest : List UInt8) :
    decodeFrom 2 left pads (character code :: rest) =
      (decodeFrom 3 (code % 4) 0 rest).map (UInt8.ofNat (left * 16 + code / 4) :: ·) :=
  decodeFrom_character small 2 left pads rest

theorem decodeFrom_three {code : Nat} (small : code < 64) (left pads : Nat) (rest : List UInt8) :
    decodeFrom 3 left pads (character code :: rest) =
      (decodeFrom 0 0 0 rest).map (UInt8.ofNat (left * 64 + code) :: ·) :=
  decodeFrom_character small 3 left pads rest

theorem ofNat_eq {byte : UInt8} {number : Nat} (same : number = byte.toNat) : UInt8.ofNat number = byte := by
  rw [same, UInt8.ofNat_toNat]

theorem decode_encode (bytes : List UInt8) : decode (encode bytes) = some bytes := by
  unfold decode
  induction bytes using encode.induct with
  | case1 => rfl
  | case2 a =>
    have small := a.toNat_lt
    have first : UInt8.ofNat (a.toNat / 4 * 4 + a.toNat % 4 * 16 / 16) = a := ofNat_eq (by omega)
    rw [encode, decodeFrom_zero (by omega), decodeFrom_one (by omega), first]
    rfl
  | case3 a b =>
    have small := a.toNat_lt
    have small' := b.toNat_lt
    have first : UInt8.ofNat (a.toNat / 4 * 4 + (a.toNat % 4 * 16 + b.toNat / 16) / 16) = a := ofNat_eq (by omega)
    have second : UInt8.ofNat ((a.toNat % 4 * 16 + b.toNat / 16) % 16 * 16 + b.toNat % 16 * 4 / 4) = b :=
      ofNat_eq (by omega)
    rw [encode, decodeFrom_zero (by omega), decodeFrom_one (by omega), decodeFrom_two (by omega), first, second]
    rfl
  | case4 a b c rest ih =>
    have small := a.toNat_lt
    have small' := b.toNat_lt
    have small'' := c.toNat_lt
    have first : UInt8.ofNat (a.toNat / 4 * 4 + (a.toNat % 4 * 16 + b.toNat / 16) / 16) = a := ofNat_eq (by omega)
    have second : UInt8.ofNat ((a.toNat % 4 * 16 + b.toNat / 16) % 16 * 16 + (b.toNat % 16 * 4 + c.toNat / 64) / 4) = b :=
      ofNat_eq (by omega)
    have third : UInt8.ofNat ((b.toNat % 16 * 4 + c.toNat / 64) % 4 * 64 + c.toNat % 64) = c := ofNat_eq (by omega)
    rw [encode, decodeFrom_zero (by omega), decodeFrom_one (by omega), decodeFrom_two (by omega),
      decodeFrom_three (by omega), ih, first, second, third]
    rfl

/-- An encoding is ASCII. -/
theorem encode_ascii (bytes : List UInt8) : ∀ byte ∈ encode bytes, byte.toNat < 128 := by
  induction bytes using encode.induct with
  | case1 => simp [encode]
  | case2 a =>
    have small := a.toNat_lt
    rw [encode]
    simp only [List.forall_mem_cons]
    refine ⟨(character_spec _ (by omega)).2.2, (character_spec _ (by omega)).2.2, by decide, by decide, by simp⟩
  | case3 a b =>
    have small := a.toNat_lt
    have small' := b.toNat_lt
    rw [encode]
    simp only [List.forall_mem_cons]
    refine ⟨(character_spec _ (by omega)).2.2, (character_spec _ (by omega)).2.2, (character_spec _ (by omega)).2.2,
      by decide, by simp⟩
  | case4 a b c rest ih =>
    have small := a.toNat_lt
    have small' := b.toNat_lt
    have small'' := c.toNat_lt
    rw [encode]
    simp only [List.forall_mem_cons]
    exact ⟨(character_spec _ (by omega)).2.2, (character_spec _ (by omega)).2.2, (character_spec _ (by omega)).2.2,
      (character_spec _ (by omega)).2.2, ih⟩

end Umbilical.Base64
