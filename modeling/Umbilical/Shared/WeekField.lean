import Umbilical.Shared.Refusals
import Mathlib.Algebra.GroupWithZero.Nat
import Mathlib.Data.Finset.Lattice.Fold
import Mathlib.Data.Fintype.Basic
import Mathlib.Data.Fin.Basic

set_option autoImplicit false

/-!
# Cron fields for the day of the week

A field is a list of items between commas: `*`, a value, a range of values, or one of the
first and the last with a step. A value is a number or a name.
-/

namespace Umbilical.WeekField

/-- `0` is Monday. -/
abbrev Day := Fin 7

instance sevenDays : NeZero 7 := ⟨Nat.succ_ne_zero 6⟩

inductive Value where
  | number (value : Nat)
  | name (day : Day)
  deriving DecidableEq

inductive Item where
  | star (step : Option Nat)
  | single (value : Value)
  | range (low high : Value) (step : Option Nat)
  deriving DecidableEq

section Syntax

def number (text : List Char) : Option Nat :=
  if text ≠ [] ∧ text.all Char.isDigit then
    some (text.foldl (fun value char => 10 * value + (char.toNat - 48)) 0)
  else none

def name (text : List Char) : Option Day :=
  match text.map Char.toLower with
  | ['m', 'o', 'n'] => some 0
  | ['t', 'u', 'e'] => some 1
  | ['w', 'e', 'd'] => some 2
  | ['t', 'h', 'u'] => some 3
  | ['f', 'r', 'i'] => some 4
  | ['s', 'a', 't'] => some 5
  | ['s', 'u', 'n'] => some 6
  | _ => none

def value (text : List Char) : Option Value :=
  match number text with
  | some value => some (.number value)
  | none => (name text).map .name

def span (step : Option Nat) (text : List Char) : Option Item :=
  if text = ['*'] then some (.star step)
  else
    match text.splitOn '-' with
    | [low, high] => (value low).bind fun low => (value high).map fun high => .range low high step
    | _ => none

def item (text : List Char) : Option Item :=
  match text.splitOn '/' with
  | [whole] =>
    match value whole with
    | some value => some (.single value)
    | none => span none whole
  | [whole, step] => (number step).bind fun step => if step = 0 then none else span (some step) whole
  | _ => none

theorem isAlpha_of_toLower {char : Char} (letter : char.toLower.isAlpha) : char.isAlpha := by
  unfold Char.toLower at letter
  split at letter
  next upper =>
    change (char.isUpper || char.isLower) = true
    rw [Bool.or_eq_true]
    exact .inl (decide_eq_true upper)
  next => exact letter

theorem bounds_of_isAlpha {char : Char} (letter : char.isAlpha) : 65 ≤ char.toNat ∧ char.toNat ≤ 122 := by
  rcases (Bool.or_eq_true char.isUpper char.isLower).mp letter with upper | lower
  · obtain ⟨above, below⟩ := of_decide_eq_true upper
    rw [ge_iff_le, UInt32.le_iff_toNat_le] at above
    rw [UInt32.le_iff_toNat_le] at below
    exact ⟨above, le_trans below (by decide)⟩
  · obtain ⟨above, below⟩ := (Bool.and_eq_true _ _).mp lower
    have above := UInt32.le_iff_toNat_le.mp (of_decide_eq_true above)
    have below := UInt32.le_iff_toNat_le.mp (of_decide_eq_true below)
    exact ⟨le_trans (by decide) above, below⟩

theorem exists_isAlpha_of_name {text : List Char} {day : Day} (named : name text = some day) :
    ∃ char ∈ text, char.isAlpha := by
  have first : ∃ letter ∈ text.map Char.toLower, letter.isAlpha := by
    unfold name at named
    split at named
    case h_8 => cases named
    all_goals
      next same =>
        rw [same]
        exact ⟨_, List.mem_cons_self, by decide⟩
  obtain ⟨letter, member, alpha⟩ := first
  obtain ⟨char, among, rfl⟩ := List.mem_map.mp member
  exact ⟨char, among, isAlpha_of_toLower alpha⟩

theorem value_eq_some {text : List Char} {result : Value} (read : value text = some result) :
    (∃ found, number text = some found ∧ result = .number found) ∨ ∃ day, name text = some day ∧ result = .name day := by
  unfold value at read
  split at read
  next found number => exact .inl ⟨found, number, (Option.some.inj read).symm⟩
  next =>
    obtain ⟨day, named, same⟩ := Option.map_eq_some_iff.mp read
    exact .inr ⟨day, named, same.symm⟩

theorem splitOn_pair {mark : Char} {text left right : List Char} (parts : text.splitOn mark = [left, right]) :
    text = left ++ mark :: right := by
  have whole : [mark].intercalate (text.splitOn mark) = text := List.intercalate_splitOn mark
  rw [parts] at whole
  rw [← whole]
  simp [List.intercalate]

theorem not_mem_of_mem_splitOn {mark : Char} {text part : List Char} (member : part ∈ text.splitOn mark) :
    mark ∉ part := by
  induction text generalizing part with
  | nil =>
    rw [List.splitOn_nil] at member
    simp only [List.mem_singleton] at member
    rw [member]
    exact List.not_mem_nil
  | cons char text ih =>
    rw [List.splitOn_cons_eq_if_modifyHead] at member
    split at member
    · rcases List.mem_cons.mp member with rfl | member
      · exact List.not_mem_nil
      · exact ih member
    next other =>
      cases parts : text.splitOn mark with
      | nil => exact absurd parts (List.splitOn_ne_nil mark text)
      | cons first rest =>
        rw [parts] at member
        rcases List.mem_cons.mp member with rfl | member
        · intro among
          rcases List.mem_cons.mp among with rfl | among
          · exact other BEq.rfl
          · exact ih (by rw [parts]; exact List.mem_cons_self) among
        · exact ih (by rw [parts]; exact List.mem_cons_of_mem _ member)

end Syntax

section Meaning

inductive Numbering where
  | mondayZero
  /-- Sunday is `7` too. -/
  | sundayZero
  deriving DecidableEq

/-- The days of several, when each has days. -/
def together {α : Type} (read : α → Option (Finset Day)) (parts : List α) : Option (Finset Day) :=
  (parts.mapM read).map fun days => days.foldr (· ∪ ·) ∅

namespace Numbering

variable (numbering : Numbering)

def monday : Numbering → Nat
  | mondayZero => 0
  | sundayZero => 1

def last : Nat := 6 + numbering.monday

def day (value : Nat) : Day := Fin.ofNat 7 (value + (7 - numbering.monday))

/-- Whether a number may stand alone. In the numbering from Monday numbers go on around the week. -/
def admits (value : Nat) : Bool := numbering = mondayZero ∨ value ≤ numbering.last

/-- How far a range reaches, if it is one; `wraps` says that it may go around the end of the week. -/
def reach (wraps : Bool) (low high : Nat) : Option Nat :=
  if numbering.last < low ∨ numbering.last < high then none
  else if low ≤ high then some (high - low)
  else if wraps ∨ numbering = sundayZero ∧ high = 0 then some (high + 7 - low)
  else none

/-- Each `step`th day from one to another that is `length` days later. -/
def stepDays (low length step : Nat) : Finset Day :=
  ((Finset.range (length + 1)).filter (step ∣ ·)).image fun distance => numbering.day (low + distance)

def index : Value → Nat
  | .number value => value
  | .name day => (day + numbering.monday) % 7

def itemDays (wraps : Bool) : Item → Option (Finset Day)
  | .star step => some (numbering.stepDays 0 6 (step.getD 1))
  | .single value =>
    if numbering.admits (numbering.index value) then some {numbering.day (numbering.index value)} else none
  | .range low high step =>
    (numbering.reach wraps (numbering.index low) (numbering.index high)).map fun length =>
      numbering.stepDays (numbering.index low) length (step.getD 1)

def partDays (wraps : Bool) (part : List Char) : Option (Finset Day) := (item part).bind (numbering.itemDays wraps)

/-- The days of some items, if each is one. -/
def partsDays (wraps : Bool) (parts : List (List Char)) : Option (Finset Day) :=
  together (numbering.partDays wraps) parts

def fieldDays (wraps : Bool) (text : List Char) : Option (Finset Day) := numbering.partsDays wraps (text.splitOn ',')

end Numbering

/-- Whether what an item stands for is said in numbers. -/
def Item.numbered : Item → Bool
  | .star step => step.isSome
  | .single (.number _) => true
  | .single (.name _) => false
  | .range (.name _) (.name _) _ => false
  | .range _ _ _ => true

end Meaning

section Together

variable {α : Type} {read other : α → Option (Finset Day)} {part : α} {parts : List α} {days : Finset Day}

theorem together_cons :
    together read (part :: parts) = some days ↔
      ∃ first rest, read part = some first ∧ together read parts = some rest ∧ days = first ∪ rest := by
  unfold together
  rw [List.mapM_cons]
  constructor
  · intro found
    obtain ⟨all, mapped, rfl⟩ := Option.map_eq_some_iff.mp found
    obtain ⟨first, head, mapped⟩ := Option.bind_eq_some_iff.mp mapped
    obtain ⟨rest, tail, same⟩ := Option.bind_eq_some_iff.mp mapped
    cases same
    exact ⟨first, _, head, by rw [tail]; rfl, rfl⟩
  · rintro ⟨first, rest, head, tail, rfl⟩
    obtain ⟨all, mapped, rfl⟩ := Option.map_eq_some_iff.mp tail
    rw [head, mapped]
    rfl

/-- Two kinds of parts can be read apart. -/
theorem together_partition (kind : α → Bool) :
    together read parts = some days ↔
      ∃ left right, together read (parts.filter kind) = some left ∧
        together read (parts.filter fun part => !kind part) = some right ∧ days = left ∪ right := by
  induction parts generalizing days with
  | nil => simp [together, eq_comm]
  | cons part parts ih =>
    rw [together_cons]
    cases which : kind part with
    | true =>
      rw [List.filter_cons_of_pos which, List.filter_cons_of_neg (by simp [which])]
      constructor
      · rintro ⟨first, rest, head, tail, rfl⟩
        obtain ⟨left, right, lefts, rights, rfl⟩ := ih.mp tail
        exact ⟨first ∪ left, right, together_cons.mpr ⟨first, left, head, lefts, rfl⟩, rights, by
          rw [Finset.union_assoc]⟩
      · rintro ⟨left, right, lefts, rights, rfl⟩
        obtain ⟨first, rest, head, others, rfl⟩ := together_cons.mp lefts
        exact ⟨first, rest ∪ right, head, ih.mpr ⟨rest, right, others, rights, rfl⟩, by rw [Finset.union_assoc]⟩
    | false =>
      rw [List.filter_cons_of_neg (by simp [which]), List.filter_cons_of_pos (by simp [which])]
      constructor
      · rintro ⟨first, rest, head, tail, rfl⟩
        obtain ⟨left, right, lefts, rights, rfl⟩ := ih.mp tail
        exact ⟨left, first ∪ right, lefts, together_cons.mpr ⟨first, right, head, rights, rfl⟩, by
          rw [Finset.union_left_comm]⟩
      · rintro ⟨left, right, lefts, rights, rfl⟩
        obtain ⟨first, rest, head, others, rfl⟩ := together_cons.mp rights
        exact ⟨first, left ∪ rest, head, ih.mpr ⟨left, rest, lefts, others, rfl⟩, by rw [Finset.union_left_comm]⟩

theorem together_mono (same : ∀ part ∈ parts, ∀ days, read part = some days → other part = some days)
    (found : together read parts = some days) : together other parts = some days := by
  induction parts generalizing days with
  | nil => exact found
  | cons part parts ih =>
    obtain ⟨first, rest, head, tail, rfl⟩ := together_cons.mp found
    apply together_cons.mpr
    refine ⟨first, rest, same part List.mem_cons_self first head, ?_, rfl⟩
    exact ih (fun part member => same part (List.mem_cons_of_mem _ member)) tail

theorem together_map {β : Type} {read : β → Option (Finset Day)} {convert : α → β} :
    together read (parts.map convert) = together (read ∘ convert) parts := by
  unfold together
  rw [List.mapM_map]

end Together

namespace Numbering

variable {numbering : Numbering} {wraps : Bool}

theorem stepDays_congr {other : Numbering} {low low' : Nat}
    (same : ∀ distance, numbering.day (low + distance) = other.day (low' + distance)) (length step : Nat) :
    numbering.stepDays low length step = other.stepDays low' length step := by
  unfold stepDays
  apply Finset.image_congr
  intro distance _
  exact same distance

theorem reach_names (wraps : Bool) (low high : Day) {length : Nat}
    (reaches : mondayZero.reach wraps (mondayZero.index (.name low)) (mondayZero.index (.name high)) = some length) :
    sundayZero.reach wraps (sundayZero.index (.name low)) (sundayZero.index (.name high)) = some length := by
  have agree : ∀ wraps low high,
      (mondayZero.reach wraps (mondayZero.index (.name low)) (mondayZero.index (.name high))).isSome →
        sundayZero.reach wraps (sundayZero.index (.name low)) (sundayZero.index (.name high)) =
          mondayZero.reach wraps (mondayZero.index (.name low)) (mondayZero.index (.name high)) := by decide
  rw [agree wraps low high (by rw [reaches]; rfl), reaches]

/-- What is said in names is the same in both numberings. -/
theorem itemDays_named {item : Item} (named : item.numbered = false) {days : Finset Day}
    (found : mondayZero.itemDays wraps item = some days) : sundayZero.itemDays wraps item = some days := by
  have around (day : Day) (distance : Nat) :
      mondayZero.day (mondayZero.index (.name day) + distance) =
        sundayZero.day (sundayZero.index (.name day) + distance) := by
    apply Fin.ext
    have bound := day.isLt
    simp only [Numbering.day, index, monday, Fin.ofNat]
    omega
  cases item with
  | star step =>
    cases step with
    | some step => cases named
    | none =>
      have whole : mondayZero.stepDays 0 6 1 = sundayZero.stepDays 0 6 1 := by decide
      rw [← found]
      exact congrArg some whole.symm
  | single value =>
    cases value with
    | number value => cases named
    | name day =>
      have alone : ∀ day,
          sundayZero.itemDays wraps (.single (.name day)) = mondayZero.itemDays wraps (.single (.name day)) := by
        cases wraps <;> decide
      rw [alone, found]
  | range low high step =>
    cases low with
    | number low => cases named
    | name low =>
    cases high with
    | number high => cases named
    | name high =>
    obtain ⟨length, reaches, rfl⟩ := Option.map_eq_some_iff.mp found
    rw [itemDays, reach_names wraps low high reaches, Option.map_some, stepDays_congr (around low)]

end Numbering

end Umbilical.WeekField
