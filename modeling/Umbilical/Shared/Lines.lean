import Mathlib.Data.List.Basic
import Mathlib.Tactic.SplitIfs

set_option autoImplicit false

/-!
# Lines of text

Reading line by line, universal newlines, and the lines of a range, over any
alphabet with a newline and a carriage return.
-/

namespace Umbilical.Lines

variable {α β : Type} [DecidableEq α] (newline carriage : α)

/-- Each line with the newline that ends it; what comes after the last newline is a line too. -/
def readLines : List α → List (List α)
  | [] => []
  | char :: rest =>
      if char = newline then [newline] :: readLines rest
      else match readLines rest with
        | [] => [[char]]
        | line :: lines => (char :: line) :: lines

theorem readLines_flatten (text : List α) : (readLines newline text).flatten = text := by
  induction text with
  | nil => rfl
  | cons char rest ih =>
    unfold readLines
    split_ifs with ends
    · simp [ends, ih]
    · split
      next none => simpa [none] using ih
      next line lines some => simpa [some] using ih

theorem readLines_append (before after : List α) :
    readLines newline (before ++ newline :: after) =
      readLines newline (before ++ [newline]) ++ readLines newline after := by
  induction before with
  | nil => simp [readLines]
  | cons char rest ih =>
    simp only [List.cons_append, readLines, ih]
    split_ifs with ends
    · rfl
    · -- a line goes on at least to the newline
      cases lines : readLines newline (rest ++ [newline]) with
      | nil =>
        have whole := readLines_flatten newline (rest ++ [newline])
        rw [lines] at whole
        simp at whole
      | cons line lines => rfl

theorem readLines_line {body : List α} (unbroken : newline ∉ body) :
    readLines newline (body ++ [newline]) = [body ++ [newline]] := by
  induction body with
  | nil => simp [readLines]
  | cons char rest ih =>
    obtain ⟨different, unbroken⟩ := not_or.mp (mt List.mem_cons.mpr unbroken)
    simp [readLines, ih unbroken, Ne.symm different]

theorem length_readLines (body : List α) :
    (readLines newline (body ++ [newline])).length = body.count newline + 1 := by
  induction body with
  | nil => simp [readLines]
  | cons char rest ih =>
    simp only [List.cons_append, readLines, List.count_cons]
    split_ifs with ends same
    · simp [ih]
    · simp [ends] at same
    · rename_i same
      exact absurd (by simpa using same) ends
    · cases lines : readLines newline (rest ++ [newline]) with
      | nil => simp [lines] at ih
      | cons line lines => simpa [lines] using ih

/-- The lines of a text that ends with a newline are what its newlines end. -/
theorem ended_of_mem_readLines {body line : List α} (member : line ∈ readLines newline (body ++ [newline])) :
    ∃ inside, newline ∉ inside ∧ line = inside ++ [newline] := by
  induction body generalizing line with
  | nil =>
    obtain rfl : line = [newline] := by simpa [readLines] using member
    exact ⟨[], by simp, rfl⟩
  | cons char rest ih =>
    simp only [List.cons_append, readLines] at member
    split_ifs at member with ends
    · rcases List.mem_cons.mp member with rfl | member
      · exact ⟨[], by simp, rfl⟩
      · exact ih member
    · cases lines : readLines newline (rest ++ [newline]) with
      | nil =>
        have length := length_readLines newline rest
        simp [lines] at length
      | cons first others =>
        rw [lines] at member ih
        rcases List.mem_cons.mp member with rfl | member
        · obtain ⟨inside, unbroken, rfl⟩ := ih List.mem_cons_self
          exact ⟨char :: inside, by simp [unbroken, Ne.symm ends], rfl⟩
        · exact ih (List.mem_cons_of_mem _ member)

theorem readLines_map {γ : Type} [DecidableEq γ] {encode : α → γ} (injective : Function.Injective encode) (text : List α) :
    readLines (encode newline) (text.map encode) = (readLines newline text).map (List.map encode) := by
  induction text with
  | nil => rfl
  | cons char rest ih =>
    simp only [List.map_cons, readLines, ih, injective.eq_iff]
    split_ifs
    · rfl
    · cases readLines newline rest <;> rfl

/-- Reading with universal newlines: `after` says that a carriage return came before. -/
def universal : Bool → List α → List α
  | _, [] => []
  | after, char :: rest =>
      if char = carriage then newline :: universal true rest
      else if char = newline ∧ after = true then universal false rest
      else char :: universal false rest

/-- How many carriage returns no newline follows. -/
def lone : Bool → List α → Nat
  | _, [] => 0
  | after, char :: rest => (if after = true ∧ char ≠ newline then 1 else 0) + lone (char = carriage) rest

variable {newline carriage}

theorem carriage_not_mem_universal (distinct : newline ≠ carriage) (after : Bool) (text : List α) :
    carriage ∉ universal newline carriage after text := by
  induction text generalizing after with
  | nil => exact List.not_mem_nil
  | cons char rest ih =>
    unfold universal
    split_ifs with returns skipped
    · simp [ih, distinct.symm]
    · exact ih false
    · simp [ih, Ne.symm returns]

theorem universal_of_not_mem {text : List α} (none : carriage ∉ text) : universal newline carriage false text = text := by
  induction text with
  | nil => rfl
  | cons char rest ih =>
    obtain ⟨different, none⟩ := not_or.mp (mt List.mem_cons.mpr none)
    simp [universal, Ne.symm different, ih none]

theorem lone_of_not_mem {text : List α} (none : carriage ∉ text) : lone newline carriage false text = 0 := by
  induction text with
  | nil => rfl
  | cons char rest ih =>
    obtain ⟨different, none⟩ := not_or.mp (mt List.mem_cons.mpr none)
    simp [lone, Ne.symm different, ih none]

/-- Nothing carries over a newline. -/
theorem universal_append (distinct : newline ≠ carriage) (after : Bool) (before rest : List α) :
    universal newline carriage after (before ++ newline :: rest) =
      universal newline carriage after (before ++ [newline]) ++ universal newline carriage false rest := by
  induction before generalizing after with
  | nil => cases after <;> simp [universal, distinct]
  | cons char before ih =>
    simp only [List.cons_append, universal, ih]
    split_ifs <;> rfl

theorem universal_ended (distinct : newline ≠ carriage) (after : Bool) (body : List α) :
    (∃ inside, universal newline carriage after (body ++ [newline]) = inside ++ [newline]) ∨
      (after = true ∧ universal newline carriage after (body ++ [newline]) = []) := by
  induction body generalizing after with
  | nil =>
    cases after
    · exact .inl ⟨[], by simp [universal, distinct]⟩
    · exact .inr ⟨rfl, by simp [universal, distinct]⟩
  | cons char rest ih =>
    left
    simp only [List.cons_append, universal]
    split_ifs with returns skipped
    · rcases ih true with ⟨inside, ended⟩ | ⟨_, empty⟩
      · exact ⟨newline :: inside, by rw [ended]; rfl⟩
      · exact ⟨[], by rw [empty]; rfl⟩
    · rcases ih false with ended | ⟨wrong, _⟩
      · exact ended
      · cases wrong
    · rcases ih false with ⟨inside, ended⟩ | ⟨wrong, _⟩
      · exact ⟨char :: inside, by rw [ended]; rfl⟩
      · cases wrong

/-- Each lone carriage return makes one more newline. -/
theorem count_universal (distinct : newline ≠ carriage) (after : Bool) (body : List α) :
    (universal newline carriage after (body ++ [newline])).count newline + after.toNat =
      (body ++ [newline]).count newline + lone newline carriage after (body ++ [newline]) := by
  induction body generalizing after with
  | nil => cases after <;> simp [universal, lone, distinct]
  | cons char rest ih =>
    have skipped := ih true
    have kept := ih false
    simp only [List.count_append, List.count_singleton_self, Bool.toNat_true, Bool.toNat_false] at skipped kept
    simp only [List.cons_append, universal, lone, List.count_cons, List.count_append]
    by_cases returns : char = carriage
    · subst returns
      cases after <;> simp [distinct.symm] <;> omega
    · by_cases ends : char = newline
      · subst ends
        cases after <;> simp [returns] <;> omega
      · cases after <;> simp [returns, ends] <;> omega

/-- The lines that a text shows when it is read with universal newlines. -/
def shown (newline carriage : α) (body : List α) : List (List α) :=
  readLines newline (universal newline carriage false (body ++ [newline]))

theorem length_shown (distinct : newline ≠ carriage) (body : List α) :
    (shown newline carriage body).length =
      body.count newline + 1 + lone newline carriage false (body ++ [newline]) := by
  have counted := count_universal distinct false body
  rcases universal_ended distinct false body with ⟨inside, ended⟩ | ⟨wrong, _⟩
  · unfold shown
    rw [ended] at counted ⊢
    rw [length_readLines]
    simpa using counted
  · cases wrong

theorem shown_append (distinct : newline ≠ carriage) (before after : List α) :
    shown newline carriage (before ++ newline :: after) =
      shown newline carriage before ++ shown newline carriage after := by
  unfold shown
  rw [List.append_assoc, List.cons_append, universal_append distinct]
  rcases universal_ended distinct false before with ⟨inside, ended⟩ | ⟨wrong, _⟩
  · rw [ended, List.append_assoc, List.singleton_append, readLines_append]
  · cases wrong

theorem shown_of_not_mem (distinct : newline ≠ carriage) {body : List α} (none : carriage ∉ body) :
    shown newline carriage body = readLines newline (body ++ [newline]) := by
  unfold shown
  rw [universal_of_not_mem]
  simp [none, distinct.symm]

/-- Every line that is shown has one newline, at its end. -/
theorem count_of_mem_shown (distinct : newline ≠ carriage) {body line : List α}
    (member : line ∈ shown newline carriage body) : line.count newline = 1 := by
  unfold shown at member
  rcases universal_ended distinct false body with ⟨inside, ended⟩ | ⟨wrong, _⟩
  · rw [ended] at member
    obtain ⟨within, unbroken, rfl⟩ := ended_of_mem_readLines newline member
    simp [List.count_eq_zero.mpr unbroken]
  · cases wrong

section Ranges

variable (first : Nat) (last : Option Nat)

/-- The lines from `first` to `last`, if those given start with line `n`. -/
def between : Nat → List β → List β
  | _, [] => []
  | n, line :: lines =>
      if first ≤ n ∧ last.all (n ≤ ·) then line :: between (n + 1) lines else between (n + 1) lines

variable {first last}

theorem between_append (n : Nat) (before after : List β) :
    between first last n (before ++ after) =
      between first last n before ++ between first last (n + before.length) after := by
  induction before generalizing n with
  | nil => rfl
  | cons line lines ih =>
    simp only [List.cons_append, between, ih, List.length_cons]
    split_ifs <;> simp [Nat.add_assoc, Nat.add_comm 1]

theorem between_before {n : Nat} {lines : List β} (before : n + lines.length ≤ first) :
    between first last n lines = [] := by
  induction lines generalizing n with
  | nil => rfl
  | cons line lines ih =>
    simp only [List.length_cons] at before
    unfold between
    rw [if_neg (by omega), ih (by omega)]

theorem between_after {n : Nat} {lines : List β} (after : ¬ last.all (n ≤ ·)) : between first last n lines = [] := by
  induction lines generalizing n with
  | nil => rfl
  | cons line lines ih =>
    unfold between
    rw [if_neg fun within => after within.2]
    apply ih
    cases last with
    | none => exact absurd rfl after
    | some last =>
      simp only [Option.all_some, decide_eq_true_eq] at after ⊢
      omega

theorem mem_of_mem_between {n : Nat} {lines : List β} {line : β} (member : line ∈ between first last n lines) :
    line ∈ lines := by
  induction lines generalizing n with
  | nil => exact member
  | cons head lines ih =>
    unfold between at member
    split_ifs at member
    · rcases List.mem_cons.mp member with rfl | member
      · exact List.mem_cons_self
      · exact List.mem_cons_of_mem _ (ih member)
    · exact List.mem_cons_of_mem _ (ih member)

/-- How many lines of a range there are. -/
theorem length_between {first last n : Nat} {lines : List β} :
    (between first (some last) n lines).length = min (last + 1) (n + lines.length) - max first n := by
  induction lines generalizing n with
  | nil =>
    simp only [between, List.length_nil]
    omega
  | cons line lines ih =>
    unfold between
    simp only [Option.all_some, decide_eq_true_eq, List.length_cons]
    split_ifs <;> simp only [List.length_cons, ih] <;> omega

theorem between_eq (first last : Nat) (lines : List β) :
    between first (some last) 0 lines = (lines.drop first).take (last + 1 - first) := by
  have general (n : Nat) (lines : List β) : between first (some last) n lines =
      (lines.drop (first - n)).take (last + 1 - max first n) := by
    induction lines generalizing n with
    | nil => simp [between]
    | cons line lines ih =>
      unfold between
      simp only [Option.all_some, decide_eq_true_eq, ih]
      by_cases early : n < first
      · rw [if_neg (by omega), show first - n = (first - (n + 1)) + 1 by omega, List.drop_succ_cons,
          show max first n = max first (n + 1) by omega]
      · rw [show first - n = 0 by omega, show first - (n + 1) = 0 by omega, List.drop_zero, List.drop_zero]
        split_ifs with within
        · rw [show last + 1 - max first n = (last + 1 - max first (n + 1)) + 1 by omega, List.take_succ_cons]
        · rw [show last + 1 - max first n = 0 by omega, show last + 1 - max first (n + 1) = 0 by omega]
          simp
  simpa using general 0 lines

end Ranges

end Umbilical.Lines
