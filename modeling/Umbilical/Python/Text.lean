import Umbilical.Shared.SelfDelimiting
import Mathlib.Tactic.NormNum
import Mathlib.Tactic.SplitIfs

set_option autoImplicit false

namespace Umbilical.Python

/-- One element of a Python `str`: a Unicode scalar value, or the lone surrogate `U+D800 + offset`. -/
inductive CodePoint where
  | scalar (char : Char)
  | surrogate (offset : Fin 2048)
  deriving DecidableEq

abbrev Str := List CodePoint

/-- What UTF-8 can carry. SQLite `TEXT` is kept as this. -/
abbrev Text := List Char

def Str.ofText (text : Text) : Str := text.map .scalar

def Str.literal (string : String) : Str := Str.ofText string.toList

def Str.text? : Str → Option Text
  | [] => some []
  | .scalar char :: rest => (Str.text? rest).map (char :: ·)
  | .surrogate _ :: _ => none

@[simp] theorem Str.text?_ofText (text : Text) : Str.text? (Str.ofText text) = some text := by
  induction text with
  | nil => rfl
  | cons char rest ih =>
    have tail : Str.text? (rest.map .scalar) = some rest := ih
    simp [Str.ofText, Str.text?, tail]

theorem Str.ofText_of_text? {str : Str} {text : Text} (decoded : Str.text? str = some text) :
    str = Str.ofText text := by
  induction str generalizing text with
  | nil => cases decoded; rfl
  | cons point rest ih =>
    cases point with
    | surrogate offset => cases decoded
    | scalar char =>
      obtain ⟨tail, found, rfl⟩ := Option.map_eq_some_iff.mp decoded
      rw [ih found]
      rfl

theorem Str.text?_eq_some {str : Str} {text : Text} :
    Str.text? str = some text ↔ str = Str.ofText text :=
  ⟨Str.ofText_of_text?, fun same => same ▸ Str.text?_ofText text⟩

theorem Str.ofText_injective : Function.Injective Str.ofText := by
  intro left right same
  have decoded := congrArg Str.text? same
  simpa using decoded

/-- No lone surrogate, so that strict UTF-8 encoding succeeds. -/
def Str.Encodable (str : Str) : Prop := (Str.text? str).isSome

instance (str : Str) : Decidable str.Encodable := inferInstanceAs (Decidable (_ = true))

theorem Str.encodable_iff {str : Str} : str.Encodable ↔ ∃ text, str = Str.ofText text := by
  simp only [Str.Encodable, Option.isSome_iff_exists, Str.text?_eq_some]

def utf8 (text : Text) : List UInt8 := text.flatMap String.utf8EncodeChar

/-- Strict decoding. -/
def decodeUtf8 (bytes : List UInt8) : Option Text := bytes.toByteArray.utf8Decode?.map Array.toList

@[simp] theorem decodeUtf8_utf8 (text : Text) : decodeUtf8 (utf8 text) = some text := by
  have decoded := @List.utf8Decode?_utf8Encode text
  unfold List.utf8Encode at decoded
  rw [decodeUtf8, utf8, decoded]
  rfl

theorem utf8_of_decodeUtf8 {bytes : List UInt8} {text : Text} (decoded : decodeUtf8 bytes = some text) :
    utf8 text = bytes := by
  obtain ⟨chars, found, _⟩ := Option.map_eq_some_iff.mp decoded
  have valid : bytes.toByteArray.utf8Decode?.isSome := by rw [found]; rfl
  obtain ⟨text', encoded⟩ := ByteArray.isSome_utf8Decode?_iff.mp valid
  have same : bytes = utf8 text' := List.toByteArray_inj.mp encoded
  rw [same, decodeUtf8_utf8] at decoded
  rw [same, Option.some.inj decoded]

theorem utf8_append (left right : Text) : utf8 (left ++ right) = utf8 left ++ utf8 right := List.flatMap_append

theorem utf8_flatten (texts : List Text) : utf8 texts.flatten = (texts.map utf8).flatten := by
  induction texts with
  | nil => rfl
  | cons text texts ih => rw [List.flatten_cons, utf8_append, ih, List.map_cons, List.flatten_cons]

/-- UTF-8 code units of one character say where they end. -/
theorem utf8EncodeChar_delimited : SelfDelimiting Set.univ String.utf8EncodeChar := by
  intro a _ b _ left right same
  have decodes (char : Char) (tail : List UInt8) :
      ((String.utf8EncodeChar char).toByteArray ++ tail.toByteArray).utf8DecodeChar? 0 = some char :=
    ByteArray.utf8DecodeChar?_utf8EncodeChar_append
  have first := decodes a left
  have second := decodes b right
  rw [← List.toByteArray_append, same, List.toByteArray_append, second] at first
  obtain rfl : a = b := (Option.some.inj first).symm
  exact ⟨rfl, List.append_cancel_left same⟩

theorem utf8_injective : Function.Injective utf8 := by
  intro left right same
  induction left generalizing right with
  | nil =>
    cases right with
    | nil => rfl
    | cons char rest =>
      have empty : String.utf8EncodeChar char = [] := (List.append_eq_nil_iff.mp same.symm).1
      exact absurd empty String.utf8EncodeChar_ne_nil
  | cons char rest ih =>
    cases right with
    | nil =>
      have empty : String.utf8EncodeChar char = [] := (List.append_eq_nil_iff.mp same).1
      exact absurd empty String.utf8EncodeChar_ne_nil
    | cons char' rest' =>
      obtain ⟨heads, tails⟩ := utf8EncodeChar_delimited char trivial char' trivial _ _ same
      rw [heads, ih tails]

/-- `sys.maxsize`, the largest length of a Python object. -/
def maxSize : Nat := 2 ^ 63 - 1

/-- Bytes CPython stores for each element of a string that holds this one. -/
def CodePoint.width : CodePoint → Nat
  | .scalar char => if char.toNat < 0x100 then 1 else if char.toNat < 0x10000 then 2 else 4
  | .surrogate _ => 2

def Str.width (str : Str) : Nat := (str.map CodePoint.width).foldr max 1

/-- A string CPython can hold: its element storage has an object's size. -/
structure PyStr where
  points : Str
  fits : points.length * Str.width points ≤ maxSize
  deriving DecidableEq

theorem CodePoint.width_le {str : Str} {point : CodePoint} (member : point ∈ str) :
    point.width ≤ Str.width str := by
  induction str with
  | nil => cases member
  | cons head rest ih =>
    rcases List.mem_cons.mp member with rfl | member
    · exact le_max_left _ _
    · exact le_trans (ih member) (le_max_right _ _)

theorem utf8Size_le_width (char : Char) : char.utf8Size ≤ 2 * (CodePoint.scalar char).width := by
  unfold Char.utf8Size CodePoint.width
  have bytes (limit : UInt32) : char.val ≤ limit ↔ char.toNat ≤ limit.toNat := UInt32.le_iff_toNat_le
  simp only [bytes]
  norm_num
  split_ifs <;> omega

theorem utf8_length_le (text : Text) (width : Nat)
    (bound : ∀ char ∈ text, (CodePoint.scalar char).width ≤ width) :
    (utf8 text).length ≤ 2 * (text.length * width) := by
  induction text with
  | nil => simp [utf8]
  | cons char rest ih =>
    have head : char.utf8Size ≤ 2 * width :=
      le_trans (utf8Size_le_width char) (Nat.mul_le_mul_left 2 (bound char (by simp)))
    have tail := ih (fun other member => bound other (List.mem_cons_of_mem _ member))
    simp only [utf8, List.flatMap_cons, List.length_append, String.length_utf8EncodeChar,
      List.length_cons, Nat.add_mul] at tail ⊢
    omega

/-- UTF-8 at most doubles what CPython stores, so the length of an encoding fits 64 bits. -/
theorem PyStr.utf8_length_lt (str : PyStr) {text : Text} (decoded : Str.text? str.points = some text) :
    (utf8 text).length < 2 ^ 64 := by
  obtain ⟨points, fits⟩ := str
  obtain rfl : points = Str.ofText text := Str.ofText_of_text? decoded
  have bound := utf8_length_le text (Str.width (Str.ofText text))
    (fun char member => CodePoint.width_le (List.mem_map_of_mem member))
  have length : (Str.ofText text).length = text.length := List.length_map _
  rw [length] at fits
  simp only [maxSize] at fits
  omega

end Umbilical.Python
