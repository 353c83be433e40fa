import Umbilical.Python.Text

set_option autoImplicit false

/-!
# Integers in texts

What `int` reads: blanks around it, a sign, and decimal digits with single underscores
between them. Which characters beyond ASCII are blanks or digits is left to the database.
-/

namespace Umbilical.Python

/-- What Python knows about characters. -/
structure CharacterDatabase where
  isSpace : Char → Bool
  decimal : Char → Option Nat
  decimal_ascii : ∀ char : Char, char.toNat < 128 →
    decimal char = if char.isDigit then some (char.toNat - 48) else none
  space_ascii : ∀ char : Char, char.toNat < 128 →
    isSpace char = decide (char.toNat = 32 ∨ 9 ≤ char.toNat ∧ char.toNat ≤ 13 ∨ 28 ≤ char.toNat ∧ char.toNat ≤ 31)
  decimal_lt : ∀ char digit, decimal char = some digit → digit < 10
  decimal_space : ∀ char, isSpace char → decimal char = none

namespace CharacterDatabase

variable (db : CharacterDatabase)

def strip (text : Text) : Text :=
  ((text.dropWhile db.isSpace).reverse.dropWhile db.isSpace).reverse

/-- The digits after one, with their value. -/
def readDigits (value : Nat) : Text → Option Nat
  | [] => some value
  | '_' :: char :: rest => (db.decimal char).bind fun digit => readDigits (10 * value + digit) rest
  | char :: rest => (db.decimal char).bind fun digit => readDigits (10 * value + digit) rest

def readNumber : Text → Option Nat
  | [] => none
  | char :: rest => (db.decimal char).bind fun digit => db.readDigits digit rest

/-- `sys.get_int_max_str_digits()`. -/
def maxDigits : Nat := 4300

def readInt (text : Text) : Option Int :=
  if maxDigits < text.countP (fun char => (db.decimal char).isSome) then none
  else
    match text with
    | '+' :: rest => (db.readNumber rest).map Int.ofNat
    | '-' :: rest => (db.readNumber rest).map fun value : Nat => -(value : Int)
    | text => (db.readNumber text).map Int.ofNat

/-- `int(text)`, or nothing for `ValueError`. -/
def int (text : Text) : Option Int := db.readInt (db.strip text)

variable {db}

theorem strip_shape (text : Text) :
    ∃ before after, text = before ++ (db.strip text ++ after) ∧
      (∀ char ∈ before, db.isSpace char) ∧ ∀ char ∈ after, db.isSpace char := by
  have whole : text.takeWhile db.isSpace ++ text.dropWhile db.isSpace = text := List.takeWhile_append_dropWhile
  have rest :
      (text.dropWhile db.isSpace).reverse.takeWhile db.isSpace ++
        (text.dropWhile db.isSpace).reverse.dropWhile db.isSpace = (text.dropWhile db.isSpace).reverse :=
    List.takeWhile_append_dropWhile
  refine ⟨text.takeWhile db.isSpace, ((text.dropWhile db.isSpace).reverse.takeWhile db.isSpace).reverse, ?_, ?_, ?_⟩
  · rw [strip, ← List.reverse_append, rest, List.reverse_reverse, whole]
  · intro char member
    exact List.all_eq_true.mp List.all_takeWhile char member
  · intro char member
    exact List.all_eq_true.mp List.all_takeWhile char (List.mem_reverse.mp member)

theorem strip_eq_self {text : Text} (solid : ∀ char ∈ text, db.isSpace char = false) : db.strip text = text := by
  have keeps (text : Text) (solid : ∀ char ∈ text, db.isSpace char = false) : text.dropWhile db.isSpace = text := by
    cases text with
    | nil => rfl
    | cons head rest => rw [List.dropWhile_cons, solid head List.mem_cons_self]; rfl
  rw [strip, keeps text solid, keeps, List.reverse_reverse]
  intro char member
  exact solid char (List.mem_reverse.mp member)

/-- Characters `readNumber` goes over. -/
def InNumber (db : CharacterDatabase) (char : Char) : Prop := char = '_' ∨ (db.decimal char).isSome

theorem readDigits_shape {value result : Nat} {text : Text} (read : db.readDigits value text = some result) :
    ∀ char ∈ text, db.InNumber char := by
  induction value, text using readDigits.induct with
  | case1 => intro char member; cases member
  | case2 value head rest ih =>
    obtain ⟨digit, decimal, read⟩ := Option.bind_eq_some_iff.mp read
    intro char member
    rcases List.mem_cons.mp member with rfl | member
    · exact .inl rfl
    rcases List.mem_cons.mp member with rfl | member
    · exact .inr (by rw [decimal]; rfl)
    · exact ih digit read char member
  | case3 value head rest single ih =>
    rw [readDigits] at read
    · obtain ⟨digit, decimal, read⟩ := Option.bind_eq_some_iff.mp read
      intro char member
      rcases List.mem_cons.mp member with rfl | member
      · exact .inr (by rw [decimal]; rfl)
      · exact ih digit read char member
    · exact single

theorem readNumber_shape {result : Nat} {text : Text} (read : db.readNumber text = some result) :
    ∀ char ∈ text, db.InNumber char := by
  cases text with
  | nil => cases read
  | cons head rest =>
    obtain ⟨digit, decimal, read⟩ := Option.bind_eq_some_iff.mp read
    intro char member
    rcases List.mem_cons.mp member with rfl | member
    · exact .inr (by rw [decimal]; rfl)
    · exact readDigits_shape read char member

/-- Only the first character can be a sign. -/
theorem readInt_shape {result : Int} {text : Text} (read : db.readInt text = some result) :
    (∀ char ∈ text.tail, db.InNumber char) ∧
      ∀ head, text.head? = some head → db.InNumber head ∨ head = '+' ∨ head = '-' := by
  unfold readInt at read
  split at read
  · cases read
  split at read
  next rest =>
    obtain ⟨value, read, -⟩ := Option.map_eq_some_iff.mp read
    exact ⟨readNumber_shape read, by simp⟩
  next rest =>
    obtain ⟨value, read, -⟩ := Option.map_eq_some_iff.mp read
    exact ⟨readNumber_shape read, by simp⟩
  next =>
    obtain ⟨value, read, -⟩ := Option.map_eq_some_iff.mp read
    have all := readNumber_shape read
    refine ⟨fun char member => all char (List.mem_of_mem_tail member), fun head first => .inl (all head ?_)⟩
    exact List.mem_of_mem_head? (by rw [first]; rfl)

/-- Within a text that does not begin in a blank or a sign, `int` takes digits, underscores and blanks only. -/
theorem int_shape {result : Int} {head : Char} {rest : Text} (read : db.int (head :: rest) = some result)
    (solid : db.isSpace head = false) :
    (db.InNumber head ∨ head = '+' ∨ head = '-') ∧ ∀ char ∈ rest, db.InNumber char ∨ db.isSpace char := by
  obtain ⟨before, after, whole, blanks, trailing⟩ := @strip_shape db (head :: rest)
  obtain ⟨tail, first⟩ := readInt_shape read
  cases before with
  | cons blank before =>
    obtain ⟨rfl, -⟩ := List.cons.inj whole
    rw [blanks head List.mem_cons_self] at solid
    cases solid
  | nil =>
    rw [List.nil_append] at whole
    generalize db.strip (head :: rest) = stripped at whole tail first
    cases stripped with
    | nil =>
      have blank := trailing head (by rw [List.nil_append] at whole; rw [← whole]; exact List.mem_cons_self)
      rw [blank] at solid
      cases solid
    | cons kept stripped =>
      obtain ⟨rfl, rfl⟩ := List.cons.inj whole
      refine ⟨first head rfl, ?_⟩
      intro char member
      rcases List.mem_append.mp member with member | member
      · exact .inl (tail char member)
      · exact .inr (trailing char member)

theorem isDigit_lt {char : Char} (digit : char.isDigit) : char.toNat < 128 := by
  have upper : char.val ≤ 57 := by
    simp only [Char.isDigit, Bool.and_eq_true, decide_eq_true_eq] at digit
    exact digit.2
  have bound : char.val.toNat ≤ 57 := UInt32.le_iff_toNat_le.mp upper
  exact Nat.lt_of_le_of_lt bound (by decide)

theorem decimal_of_isDigit {char : Char} (digit : char.isDigit) : db.decimal char = some (char.toNat - 48) := by
  rw [db.decimal_ascii char (isDigit_lt digit), if_pos digit]

theorem isSpace_of_isDigit {char : Char} (digit : char.isDigit) : db.isSpace char = false := by
  cases blank : db.isSpace char with
  | false => rfl
  | true =>
    have nothing := db.decimal_space char blank
    rw [decimal_of_isDigit digit] at nothing
    cases nothing

theorem readDigits_digits (value : Nat) {text : Text} (digits : ∀ char ∈ text, char.isDigit) :
    db.readDigits value text = some (text.foldl (fun value char => 10 * value + (char.toNat - 48)) value) := by
  induction text generalizing value with
  | nil => rfl
  | cons head rest ih =>
    have digit := digits head List.mem_cons_self
    rw [readDigits, decimal_of_isDigit digit, Option.bind_some, ih]
    · rfl
    · intro char member
      exact digits char (List.mem_cons_of_mem _ member)
    · rintro next others rfl
      cases digit

/-- The number decimal digits are read as. -/
def digitsValue (text : Text) : Nat := text.foldl (fun value char => 10 * value + (char.toNat - 48)) 0

theorem int_digits {text : Text} (digits : ∀ char ∈ text, char.isDigit) (something : text ≠ []) :
    db.int text = if maxDigits < text.length then none else some (digitsValue text : Int) := by
  have solid : db.strip text = text :=
    strip_eq_self fun char member => isSpace_of_isDigit (digits char member)
  have counted : text.countP (fun char => (db.decimal char).isSome) = text.length := by
    apply List.countP_eq_length.mpr
    intro char member
    rw [decimal_of_isDigit (digits char member)]
    rfl
  cases text with
  | nil => exact absurd rfl something
  | cons head rest =>
    have digit := digits head List.mem_cons_self
    have number : db.readNumber (head :: rest) = some (digitsValue (head :: rest)) := by
      rw [readNumber, decimal_of_isDigit digit, Option.bind_some,
        readDigits_digits _ fun char member => digits char (List.mem_cons_of_mem _ member), digitsValue, List.foldl_cons,
        Nat.mul_zero, Nat.zero_add]
    rw [int, solid, readInt, counted, number]
    · rfl
    -- a sign is no digit
    · rintro others same
      obtain ⟨rfl, -⟩ := List.cons.inj same
      cases digit
    · rintro others same
      obtain ⟨rfl, -⟩ := List.cons.inj same
      cases digit

/-- The characters `int` reads. -/
theorem mem_of_int {result : Int} {text : Text} (read : db.int text = some result) {char : Char} (member : char ∈ text) :
    db.InNumber char ∨ db.isSpace char ∨ char = '+' ∨ char = '-' := by
  obtain ⟨before, after, whole, blanks, trailing⟩ := @strip_shape db text
  obtain ⟨tail, first⟩ := readInt_shape read
  rw [whole] at member
  rcases List.mem_append.mp member with member | member
  · exact .inr (.inl (blanks char member))
  rcases List.mem_append.mp member with member | member
  · cases stripped : db.strip text with
    | nil => rw [stripped] at member; cases member
    | cons head rest =>
      rw [stripped] at member tail first
      rcases List.mem_cons.mp member with rfl | member
      · rcases first char rfl with digit | sign
        · exact .inl digit
        · exact .inr (.inr sign)
      · exact .inl (tail char member)
  · exact .inr (.inl (trailing char member))

theorem ascii_of_int {result : Int} {text : Text} (read : db.int text = some result) {char : Char} (member : char ∈ text)
    (ascii : char.toNat < 128) :
    char.isDigit ∨ char.toNat ≤ 32 ∨ char ∈ ['_', '+', '-'] := by
  rcases mem_of_int read member with inNumber | blank | sign
  · rcases inNumber with rfl | decimal
    · decide
    · rw [db.decimal_ascii char ascii] at decimal
      split at decimal
      next digit => exact .inl digit
      next => cases decimal
  · rw [db.space_ascii char ascii] at blank
    have small := of_decide_eq_true blank
    exact .inr (.inl (by omega))
  · rcases sign with rfl | rfl <;> decide

/-- No blanks or digits beyond ASCII. -/
def ascii : CharacterDatabase where
  isSpace char := char.toNat = 32 ∨ 9 ≤ char.toNat ∧ char.toNat ≤ 13 ∨ 28 ≤ char.toNat ∧ char.toNat ≤ 31
  decimal char := if char.isDigit then some (char.toNat - 48) else none
  decimal_ascii _ _ := rfl
  space_ascii _ _ := rfl
  decimal_lt := by
    intro char digit decimal
    split at decimal
    next isDigit =>
      have upper : char.toNat ≤ 57 := by
        simp only [Char.isDigit, Bool.and_eq_true, decide_eq_true_eq] at isDigit
        exact UInt32.le_iff_toNat_le.mp isDigit.2
      have same := Option.some.inj decimal
      omega
    next => cases decimal
  decimal_space := by
    intro char blank
    rw [if_neg]
    intro isDigit
    have lower : 48 ≤ char.toNat := by
      simp only [Char.isDigit, Bool.and_eq_true, decide_eq_true_eq] at isDigit
      exact UInt32.le_iff_toNat_le.mp isDigit.1
    have small := of_decide_eq_true blank
    omega

end CharacterDatabase

/-- `str` of an integer. -/
def decimalText : Int → Text
  | .ofNat value => Nat.toDigits 10 value
  | .negSucc value => '-' :: Nat.toDigits 10 (value + 1)

end Umbilical.Python
