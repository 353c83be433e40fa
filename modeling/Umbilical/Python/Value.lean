import Umbilical.Python.Text
import Umbilical.Shared.Script

set_option autoImplicit false

namespace Umbilical.Python

/-- A Python object as an argument check sees it. A `bool` is not an exact `int`. -/
inductive PyValue where
  | none
  | bool (value : Bool)
  | int (value : Int)
  | str (value : Str)
  | strSubclass (value : Str)
  | other
  deriving DecidableEq

/-- `AuthorityStoreError` and the classes derived from it. -/
inductive StoreError where
  | authorityStoreError
  | authorityStoreExistsError
  | authorityStoreMissingError
  | authorityStoreMalformedError
  | authorityStoreVersionError
  | authorityStoreMigrationRequiredError
  | generationOverflowError
  | executionKeyNotRegisteredError
  | commandSpecConflictError
  | executionKeyNotCommandBoundError
  | commandSpecHashMismatchError
  | controllerGenerationNotCurrentError
  | executionAdmissionConflictError
  | executionAdmissionMissingError
  | executionAdmissionMismatchError
  | executionLaunchAlreadyClaimedError
  | executionLaunchStateError
  deriving DecidableEq

/-- `isinstance(error, AuthorityStoreMalformedError)`. -/
def StoreError.isMalformed : StoreError → Bool
  | .authorityStoreMalformedError | .authorityStoreVersionError
  | .authorityStoreMigrationRequiredError => true
  | _ => false

/-- The `ValueError` classes raised for rejected arguments. -/
inductive InvalidArgument where
  | invalidAuthorityScopeError
  | invalidExecutionKeyError
  | invalidCommandSpecHashError
  | invalidControllerGenerationError
  | invalidProcessExitCodeError
  | invalidExecutionIdentityError
  | invalidLocalCommandSpecError
  deriving DecidableEq

/-- What a call can end with instead of returning. `processDied` is no exception: nothing catches it,
and no code of the process runs after it. -/
inductive PyError where
  | store (kind : StoreError) (message : String)
  | invalid (kind : InvalidArgument) (message : String)
  | databaseError
  | unicodeEncodeError
  | overflowError
  | osError
  | typeError (message : String)
  | workGraphClientError (message : String)
  | publicationError (message : String)
  | processDied
  deriving DecidableEq

/-- What a rejected argument raises. -/
def PyError.Invalid : PyError → Prop
  | .invalid _ _ => True
  | _ => False

theorem bind_eq_ok {ε α β : Type} {x : Except ε α} {f : α → Except ε β} {b : β} :
    x >>= f = .ok b ↔ ∃ a, x = .ok a ∧ f a = .ok b := by
  cases x with
  | error e =>
    constructor
    · intro raised
      cases raised
    · rintro ⟨a, returned, _⟩
      cases returned
  | ok a =>
    constructor
    · exact fun returned => ⟨a, rfl, returned⟩
    · rintro ⟨_, same, returned⟩
      cases same
      exact returned

theorem toOption_eq_some {ε α : Type} {result : Except ε α} {value : α} :
    result.toOption = some value ↔ result = .ok value := by
  cases result <;> simp [Except.toOption]

/-- `if condition: raise error`. -/
def raiseIf (condition : Prop) [Decidable condition] (error : PyError) : Except PyError Unit :=
  if condition then .error error else .ok ()

theorem raiseIf_ok {condition : Prop} [Decidable condition] {error : PyError} {nothing : Unit} :
    raiseIf condition error = .ok nothing ↔ ¬ condition := by
  by_cases holds : condition <;> simp [raiseIf, holds]

theorem raiseIf_failsOnly {allowed : PyError → Prop} {condition : Prop} [Decidable condition] {error : PyError}
    (permitted : allowed error) : FailsOnly allowed (raiseIf condition error) := .ite (.error permitted) (.pure _)

/-- `value.encode("utf-8", errors="strict")`. -/
def Str.encode (str : Str) : Except PyError (List UInt8) :=
  match Str.text? str with
  | none => .error .unicodeEncodeError
  | some text => .ok (utf8 text)

@[simp] theorem Str.encode_ofText (text : Text) : Str.encode (Str.ofText text) = .ok (utf8 text) := by
  simp [Str.encode]

theorem Str.encode_eq_ok {str : Str} {bytes : List UInt8} :
    Str.encode str = .ok bytes ↔ ∃ text, str = Str.ofText text ∧ bytes = utf8 text := by
  constructor
  · intro encoded
    unfold Str.encode at encoded
    cases decoded : Str.text? str with
    | none => simp [decoded] at encoded
    | some text =>
      simp only [decoded, Except.ok.injEq] at encoded
      exact ⟨text, Str.ofText_of_text? decoded, encoded.symm⟩
  · rintro ⟨text, rfl, rfl⟩
    exact Str.encode_ofText text

/-- `value.to_bytes(width, byteorder="big", signed=False)`. -/
def toBytes (value width : Nat) : Except PyError (List UInt8) :=
  if value < 256 ^ width then .ok (bigEndian width value) else .error .overflowError

theorem toBytes_of_lt {value : Nat} (small : value < 2 ^ 64) :
    toBytes value 8 = .ok (bigEndian 8 value) := by
  have inside : value < 256 ^ 8 := by norm_num at small ⊢; exact small
  simp only [toBytes, inside, if_true]

/-- A `bytes` literal of Latin-1 characters. -/
def bytesLiteral (string : String) : List UInt8 := string.toList.map fun char => UInt8.ofNat char.toNat

/-- `base64`'s URL-safe alphabet. -/
def alphabet : List Char :=
  "ABCDEFGHIJKLMNOPQRSTUVWXYZabcdefghijklmnopqrstuvwxyz0123456789-_".toList

def digit (value : Nat) : Char := alphabet.getD value '='

/-- `base64.urlsafe_b64encode(payload).decode("ascii")`. -/
def urlsafeB64Encode : List UInt8 → List Char
  | [] => []
  | [a] => [digit (a.toNat / 4), digit (a.toNat % 4 * 16), '=', '=']
  | [a, b] =>
      [digit (a.toNat / 4), digit (a.toNat % 4 * 16 + b.toNat / 16), digit (b.toNat % 16 * 4), '=']
  | a :: b :: c :: rest =>
      digit (a.toNat / 4) :: digit (a.toNat % 4 * 16 + b.toNat / 16) ::
        digit (b.toNat % 16 * 4 + c.toNat / 64) :: digit (c.toNat % 64) :: urlsafeB64Encode rest

theorem digit_injOn {a b : Nat} (smallA : a < 64) (smallB : b < 64) (same : digit a = digit b) :
    a = b := by
  have distinct : ∀ a b : Fin 64, digit a = digit b → a = b := by decide +kernel
  exact congrArg Fin.val (distinct ⟨a, smallA⟩ ⟨b, smallB⟩ same)

theorem digit_ne_padding {a : Nat} (small : a < 64) : digit a ≠ '=' := by
  have distinct : ∀ a : Fin 64, digit a ≠ '=' := by decide +kernel
  exact distinct ⟨a, small⟩

theorem urlsafeB64Encode_injective : Function.Injective urlsafeB64Encode := by
  intro left right same
  have byte (value : UInt8) : value.toNat < 256 := value.toNat_lt
  induction left using urlsafeB64Encode.induct generalizing right with
  | case1 =>
    match right with
    | [] => rfl
    | [_] | [_, _] | _ :: _ :: _ :: _ => simp [urlsafeB64Encode] at same
  | case2 a =>
    have := byte a
    match right with
    | [] => simp [urlsafeB64Encode] at same
    | [a'] =>
      have := byte a'
      simp only [urlsafeB64Encode, List.cons.injEq] at same
      have high := digit_injOn (by omega) (by omega) same.1
      have low := digit_injOn (by omega) (by omega) same.2.1
      rw [show a = a' from UInt8.toNat_inj.mp (by omega)]
    | [a', b'] =>
      have := byte b'
      simp only [urlsafeB64Encode, List.cons.injEq] at same
      exact absurd same.2.2.1.symm (digit_ne_padding (by omega))
    | a' :: b' :: c' :: rest =>
      have := byte c'
      simp only [urlsafeB64Encode, List.cons.injEq] at same
      exact absurd same.2.2.2.1.symm (digit_ne_padding (by omega))
  | case3 a b =>
    have := byte a
    have := byte b
    match right with
    | [] => simp [urlsafeB64Encode] at same
    | [a'] =>
      simp only [urlsafeB64Encode, List.cons.injEq] at same
      exact absurd same.2.2.1 (digit_ne_padding (by omega))
    | [a', b'] =>
      have := byte a'
      have := byte b'
      simp only [urlsafeB64Encode, List.cons.injEq] at same
      have high := digit_injOn (by omega) (by omega) same.1
      have middle := digit_injOn (by omega) (by omega) same.2.1
      have low := digit_injOn (by omega) (by omega) same.2.2.1
      rw [show a = a' from UInt8.toNat_inj.mp (by omega), show b = b' from UInt8.toNat_inj.mp (by omega)]
    | a' :: b' :: c' :: rest =>
      have := byte c'
      simp only [urlsafeB64Encode, List.cons.injEq] at same
      exact absurd same.2.2.2.1.symm (digit_ne_padding (by omega))
  | case4 a b c rest ih =>
    have := byte a
    have := byte b
    have := byte c
    match right with
    | [] => simp [urlsafeB64Encode] at same
    | [a'] =>
      simp only [urlsafeB64Encode, List.cons.injEq] at same
      exact absurd same.2.2.2.1 (digit_ne_padding (by omega))
    | [a', b'] =>
      simp only [urlsafeB64Encode, List.cons.injEq] at same
      exact absurd same.2.2.2.1 (digit_ne_padding (by omega))
    | a' :: b' :: c' :: rest' =>
      have := byte a'
      have := byte b'
      have := byte c'
      simp only [urlsafeB64Encode, List.cons.injEq] at same
      have first := digit_injOn (by omega) (by omega) same.1
      have second := digit_injOn (by omega) (by omega) same.2.1
      have third := digit_injOn (by omega) (by omega) same.2.2.1
      have fourth := digit_injOn (by omega) (by omega) same.2.2.2.1
      rw [show a = a' from UInt8.toNat_inj.mp (by omega), show b = b' from UInt8.toNat_inj.mp (by omega),
        show c = c' from UInt8.toNat_inj.mp (by omega), ih same.2.2.2.2]

end Umbilical.Python
