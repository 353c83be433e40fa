import Umbilical.Python.Integers
import Umbilical.Shared.WeekField
import Mathlib.Tactic.IntervalCases

set_option autoImplicit false

/-!
# Days of the week of `Nightly`

The documented numbering begins with Monday, croniter's with Sunday.
-/

namespace Umbilical.Schedulers

open Umbilical.Python
open WeekField WeekField.Numbering

/-- A time field of the scheduler's configuration. -/
inductive CronTime where
  | int (value : Int)
  | str (text : Text)
  | list (values : List Int)
  deriving DecidableEq

/-- What `_timeToCron` returns. -/
inductive CronField where
  | int (value : Int)
  | str (text : Text)
  deriving DecidableEq

/-- `str` of it. -/
def CronField.text : CronField → Text
  | int value => decimalText value
  | str text => text

namespace CronTime

variable (db : CharacterDatabase)

def convertDay (time : Int) : Int := (time + 1) % 7

def convertItem (timeVal : Text) : Text :=
  match db.int timeVal with
  | some value => decimalText (convertDay value)
  -- all non-int values are kept
  | none => timeVal

def timeToCron (isDayOfWeek : Bool) : CronTime → CronField
  | int time => .int (if isDayOfWeek then convertDay time else time)
  | str time => .str (if isDayOfWeek then [','].intercalate ((time.splitOn ',').map (convertItem db)) else time)
  | list time => .str ([','].intercalate ((if isDayOfWeek then time.map convertDay else time).map decimalText))

def timesToCronLine (minute hour dayOfMonth month dayOfWeek : CronTime) : Text :=
  [' '].intercalate
    [(timeToCron db false minute).text, (timeToCron db false hour).text, (timeToCron db false dayOfMonth).text,
      (timeToCron db false month).text, (timeToCron db true dayOfWeek).text]

def weekday (time : Int) : Day := Fin.ofNat 7 (time % 7).toNat

/-- The days an argument stands for, when it has a meaning. -/
def days? (wraps : Bool) : CronTime → Option (Finset Day)
  | int time => some {weekday time}
  | str time => mondayZero.fieldDays wraps time
  | list time => some (time.map weekday).toFinset

/-- A field as it was configured. -/
def written : CronTime → Text
  | int time => decimalText time
  | str time => time
  | list time => [','].intercalate (time.map decimalText)

/-- What is said in numbers and is not a number by itself: ranges and steps. -/
def loose (part : Text) : Bool := (db.int part).isNone && (item part).any Item.numbered

/-- The loose items name the same days in both numberings, apart from days that others name as well. -/
def Unmoved (wraps : Bool) : CronTime → Prop
  | int _ => True
  | list time => time ≠ []
  | str time =>
    ∀ fixed meant, mondayZero.partsDays wraps ((time.splitOn ',').filter fun part => !loose db part) = some fixed →
      mondayZero.partsDays wraps ((time.splitOn ',').filter (loose db)) = some meant →
      ∃ read, sundayZero.partsDays wraps ((time.splitOn ',').filter (loose db)) = some read ∧ read ∪ fixed = meant ∪ fixed

variable {db} {wraps : Bool}

theorem int_eq_none_of_isAlpha {text : Text} {char : Char} (member : char ∈ text) (letter : char.isAlpha) :
    db.int text = none := by
  cases read : db.int text with
  | none => rfl
  | some result =>
    obtain ⟨low, high⟩ := bounds_of_isAlpha letter
    rcases CharacterDatabase.ascii_of_int read member (by omega) with digit | small | sign
    · have bounds := Char.isDigit_iff_toNat.mp digit
      simp only [Char.reduceToNat] at bounds
      omega
    · omega
    · simp only [List.mem_cons, List.not_mem_nil, or_false] at sign
      rcases sign with rfl | rfl | rfl <;> cases letter

theorem int_eq_none_of_mem {text : Text} {char : Char} (member : char ∈ text) (mark : char = '*' ∨ char = '/') :
    db.int text = none := by
  cases read : db.int text with
  | none => rfl
  | some result => rcases mark with rfl | rfl <;> simpa using CharacterDatabase.ascii_of_int read member (by decide)

theorem number_eq_some {text : Text} {result : Nat} (read : number text = some result) :
    text ≠ [] ∧ (∀ char ∈ text, char.isDigit) ∧ CharacterDatabase.digitsValue text = result := by
  unfold number at read
  split at read
  next digits => exact ⟨digits.1, List.all_eq_true.mp digits.2, Option.some.inj read⟩
  next => cases read

/-- A range is no integer. -/
theorem int_of_span {step : Option Nat} {text : Text} {found : Item} (read : span step text = some found) :
    db.int text = none := by
  unfold span at read
  split at read
  next star =>
    subst star
    exact int_eq_none_of_mem List.mem_cons_self (.inl rfl)
  split at read
  next low high parts =>
    obtain ⟨first, lowValue, -⟩ := Option.bind_eq_some_iff.mp read
    have whole := splitOn_pair parts
    rcases value_eq_some lowValue with ⟨number, digits, -⟩ | ⟨day, named, -⟩
    · obtain ⟨something, digits, -⟩ := number_eq_some digits
      cases low with
      | nil => exact absurd rfl something
      | cons head low =>
        -- after a digit a dash is no sign
        cases read : db.int text with
        | none => rfl
        | some result =>
          rw [whole, List.cons_append] at read
          have solid : db.isSpace head = false :=
            CharacterDatabase.isSpace_of_isDigit (digits head List.mem_cons_self)
          obtain ⟨-, rest⟩ := CharacterDatabase.int_shape read solid
          rcases rest '-' (List.mem_append_right _ List.mem_cons_self) with inNumber | blank
          · rcases inNumber with same | decimal
            · cases same
            · rw [db.decimal_ascii '-' (by decide)] at decimal
              cases decimal
          · rw [db.space_ascii '-' (by decide)] at blank
            cases blank
    · obtain ⟨char, member, alpha⟩ := exists_isAlpha_of_name named
      apply int_eq_none_of_isAlpha _ alpha
      rw [whole]
      exact List.mem_append_left _ member
  next => cases read

/-- The only items that are integers are numbers. -/
theorem single_of_int {part : Text} {found : Item} {result : Int} (read : item part = some found)
    (integer : db.int part = some result) : ∃ value : Nat, found = .single (.number value) ∧ result = value := by
  unfold item at read
  split at read
  next whole parts =>
    have same : part = whole := by
      have joined : ['/'].intercalate (part.splitOn '/') = part := List.intercalate_splitOn '/'
      rw [parts] at joined
      simpa [List.intercalate] using joined.symm
    subst same
    split at read
    next value valued =>
      cases read
      rcases value_eq_some valued with ⟨value, numbered, rfl⟩ | ⟨day, named, -⟩
      · obtain ⟨something, digits, rfl⟩ := number_eq_some numbered
        rw [CharacterDatabase.int_digits digits something] at integer
        split at integer
        · cases integer
        · exact ⟨_, rfl, (Option.some.inj integer).symm⟩
      · obtain ⟨char, member, alpha⟩ := exists_isAlpha_of_name named
        rw [int_eq_none_of_isAlpha member alpha] at integer
        cases integer
    next =>
      rw [int_of_span read] at integer
      cases integer
  next whole step parts =>
    have slash : '/' ∈ part := by
      rw [splitOn_pair parts]
      exact List.mem_append_right _ List.mem_cons_self
    rw [int_eq_none_of_mem slash (.inr rfl)] at integer
    cases integer
  next => cases read

/-- A converted number is one digit. -/
theorem partDays_convertDay (wraps : Bool) (time : Int) :
    sundayZero.partDays wraps (decimalText (convertDay time)) = some {weekday time} ∧
      ',' ∉ decimalText (convertDay time) := by
  have digits : ∀ day : Fin 7,
      sundayZero.partDays wraps (decimalText (day.val : Int)) = some {Fin.ofNat 7 (day.val + 6)} ∧
        ',' ∉ decimalText (day.val : Int) := by
    cases wraps <;> decide
  have low := Int.emod_nonneg (time + 1) (by decide : (7 : Int) ≠ 0)
  have high := Int.emod_lt_of_pos (time + 1) (by decide : (0 : Int) < 7)
  have cast : (((time + 1) % 7).toNat : Int) = (time + 1) % 7 := Int.toNat_of_nonneg low
  have converted := digits ⟨((time + 1) % 7).toNat, by omega⟩
  have same : Fin.ofNat 7 (((time + 1) % 7).toNat + 6) = weekday time := by
    apply Fin.ext
    simp only [weekday, Fin.ofNat]
    omega
  rw [same, cast] at converted
  exact converted

theorem partsDays_decimals {times : List Int} :
    sundayZero.partsDays wraps ((times.map convertDay).map decimalText) = some (times.map weekday).toFinset := by
  induction times with
  | nil => rfl
  | cons time times ih =>
    rw [List.map_cons]
    apply together_cons.mpr
    exact ⟨{weekday time}, _, (partDays_convertDay wraps time).1, ih, by rw [List.map_cons, List.toFinset_cons]; rfl⟩

theorem convertItem_loose {part : Text} (isLoose : loose db part) : convertItem db part = part := by
  have kept := (Bool.and_eq_true_iff.mp isLoose).1
  rw [convertItem, Option.isNone_iff_eq_none.mp kept]

/-- Numbers are converted, and names need not be. -/
theorem convertItem_fixed {part : Text} (fixed : (!loose db part) = true) (days : Finset Day)
    (found : mondayZero.partDays wraps part = some days) :
    sundayZero.partDays wraps (convertItem db part) = some days := by
  obtain ⟨read, itemized, meant⟩ := Option.bind_eq_some_iff.mp found
  cases integer : db.int part with
  | some result =>
    obtain ⟨value, rfl, rfl⟩ := single_of_int itemized integer
    have alone : mondayZero.itemDays wraps (.single (.number value)) = some {weekday value} := by
      have same : mondayZero.day value = weekday value := by
        apply Fin.ext
        simp only [Numbering.day, weekday, monday, Fin.ofNat]
        omega
      rw [← same]
      rfl
    rw [alone] at meant
    rw [convertItem, integer, ← meant]
    exact (partDays_convertDay wraps value).1
  | none =>
    have named : read.numbered = false := by
      cases numbered : read.numbered with
      | false => rfl
      | true => simp [loose, integer, itemized, numbered] at fixed
    rw [convertItem, integer, partDays, itemized]
    exact itemDays_named named meant

theorem comma_convertItem {part : Text} (bare : ',' ∉ part) : ',' ∉ convertItem db part := by
  unfold convertItem
  split
  · exact (partDays_convertDay true _).2
  · exact bare

/-- The field is read item by item. -/
theorem splitOn_timeToCron (time : Text) :
    (timeToCron db true (.str time)).text.splitOn ',' = (time.splitOn ',').map (convertItem db) := by
  apply List.splitOn_intercalate
  · intro part member
    obtain ⟨original, among, rfl⟩ := List.mem_map.mp member
    exact comma_convertItem (not_mem_of_mem_splitOn among)
  · simp

theorem str_matched_iff (time : Text) :
    (∀ days, mondayZero.fieldDays wraps time = some days →
      sundayZero.fieldDays wraps (timeToCron db true (.str time)).text = some days) ↔ Unmoved db wraps (.str time) := by
  have matched : sundayZero.fieldDays wraps (timeToCron db true (.str time)).text =
      together (sundayZero.partDays wraps ∘ convertItem db) (time.splitOn ',') := by
    rw [fieldDays, splitOn_timeToCron, partsDays, together_map]
  rw [matched, Unmoved]
  unfold fieldDays partsDays
  generalize time.splitOn ',' = parts
  -- the two kinds of items, after conversion
  have fixedRead {fixed : Finset Day}
      (found : together (mondayZero.partDays wraps) (parts.filter fun part => !loose db part) = some fixed) :
      together (sundayZero.partDays wraps ∘ convertItem db) (parts.filter fun part => !loose db part) = some fixed :=
    together_mono (fun part member => convertItem_fixed (List.mem_filter.mp member).2) found
  have looseRead {read : Finset Day} :
      together (sundayZero.partDays wraps ∘ convertItem db) (parts.filter (loose db)) = some read ↔
        together (sundayZero.partDays wraps) (parts.filter (loose db)) = some read := by
    have same : ∀ part ∈ parts.filter (loose db), convertItem db part = part := fun part member =>
      convertItem_loose (List.mem_filter.mp member).2
    constructor
    · apply together_mono
      intro part member days found
      rw [Function.comp_apply, same part member] at found
      exact found
    · apply together_mono
      intro part member days found
      rw [Function.comp_apply, same part member]
      exact found
  constructor
  · intro right fixed meant fixedFound meantFound
    have all := right _ ((together_partition (loose db)).mpr ⟨meant, fixed, meantFound, fixedFound, rfl⟩)
    obtain ⟨read, others, readFound, othersFound, same⟩ := (together_partition (loose db)).mp all
    rw [fixedRead fixedFound] at othersFound
    obtain rfl := Option.some.inj othersFound
    exact ⟨read, looseRead.mp readFound, same.symm⟩
  · intro unmoved days found
    obtain ⟨meant, fixed, meantFound, fixedFound, rfl⟩ := (together_partition (loose db)).mp found
    obtain ⟨read, readFound, same⟩ := unmoved fixed meant fixedFound meantFound
    apply (together_partition (loose db)).mpr
    exact ⟨read, fixed, looseRead.mpr readFound, fixedRead fixedFound, same.symm⟩

theorem list_matched_iff (time : List Int) :
    sundayZero.fieldDays wraps (timeToCron db true (.list time)).text = some (time.map weekday).toFinset ↔ time ≠ [] := by
  constructor
  · rintro matched rfl
    cases matched
  · intro something
    have parts : (timeToCron db true (.list time)).text.splitOn ',' = (time.map convertDay).map decimalText := by
      apply List.splitOn_intercalate
      · intro part member
        obtain ⟨day, converted, rfl⟩ := List.mem_map.mp member
        obtain ⟨day, -, rfl⟩ := List.mem_map.mp converted
        exact (partDays_convertDay wraps day).2
      · simpa using something
    rw [fieldDays, parts, partsDays_decimals]

/-- What the field for the days matches is what the argument says exactly when no loose item moves it. -/
theorem days_kept_iff (db : CharacterDatabase) (wraps : Bool) (minute hour dayOfMonth month dayOfWeek : CronTime) :
    ((∀ days, dayOfWeek.days? wraps = some days →
        sundayZero.fieldDays wraps (timeToCron db true dayOfWeek).text = some days) ∧
      timesToCronLine db minute hour dayOfMonth month dayOfWeek =
        [' '].intercalate [minute.written, hour.written, dayOfMonth.written, month.written,
          (timeToCron db true dayOfWeek).text]) ↔
    Unmoved db wraps dayOfWeek := by
  have others : timesToCronLine db minute hour dayOfMonth month dayOfWeek =
      [' '].intercalate [minute.written, hour.written, dayOfMonth.written, month.written,
        (timeToCron db true dayOfWeek).text] := by
    have plain (time : CronTime) : (timeToCron db false time).text = time.written := by cases time <;> rfl
    rw [timesToCronLine, plain, plain, plain, plain]
  simp only [others, and_true]
  cases dayOfWeek with
  | int time =>
    constructor
    · intro _
      trivial
    · intro _ days meant
      rw [← meant]
      -- a number alone is a list of one
      have single : sundayZero.fieldDays wraps (timeToCron db true (.list [time])).text = some {weekday time} :=
        (list_matched_iff [time]).mpr (List.cons_ne_nil _ _)
      simp only [timeToCron, if_true, List.map_cons, List.map_nil, CronField.text, List.intercalate_singleton] at single
      exact single
  | str time => exact str_matched_iff time
  | list time =>
    constructor
    · intro right
      exact (list_matched_iff time).mp (right _ rfl)
    · intro something days meant
      rw [← meant]
      exact (list_matched_iff time).mpr something

/-- Monday to Friday is read as Sunday to Thursday. -/
theorem workdays_moved :
    (str ['0', '-', '4']).days? true = some {0, 1, 2, 3, 4} ∧
      sundayZero.fieldDays true (timeToCron .ascii true (.str ['0', '-', '4'])).text ≠ some {0, 1, 2, 3, 4} := by
  decide

end CronTime

end Umbilical.Schedulers
