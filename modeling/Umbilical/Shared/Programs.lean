import Mathlib.Logic.Function.Basic

set_option autoImplicit false

/-!
# Programs that act on a shared state

A program performs one action after another and goes on with what each of them
answers. What it may do and what others may do meanwhile is a contract; a program
that is safe under a contract stays so whatever the others do between two actions.
-/

namespace Umbilical

inductive Program (α : Type) (answer : α → Type) (ε ρ : Type) : Type where
  | done (value : ρ)
  | raise (error : ε)
  | perform (action : α) (next : answer action → Program α answer ε ρ)

namespace Program

variable {α : Type} {answer : α → Type} {ε ρ τ : Type}

def bind : Program α answer ε ρ → (ρ → Program α answer ε τ) → Program α answer ε τ
  | done value, next => next value
  | raise error, _ => raise error
  | perform action following, next => perform action fun reply => (following reply).bind next

/-- `except` clauses. -/
def handle : Program α answer ε ρ → (ε → Program α answer ε ρ) → Program α answer ε ρ
  | done value, _ => done value
  | raise error, handler => handler error
  | perform action following, handler => perform action fun reply => (following reply).handle handler

/-- `finally`. -/
def ensure : Program α answer ε ρ → Program α answer ε Unit → Program α answer ε ρ
  | done value, last => last.bind fun _ => done value
  | raise error, last => last.bind fun _ => raise error
  | perform action following, last => perform action fun reply => (following reply).ensure last

instance : Monad (Program α answer ε) where
  pure := done
  bind := bind

instance : MonadExceptOf ε (Program α answer ε) where
  throw := raise
  tryCatch := handle

def act (action : α) : Program α answer ε (answer action) := perform action done

/-- Code that performs nothing. -/
def lift : Except ε ρ → Program α answer ε ρ
  | .ok value => done value
  | .error error => raise error

@[simp] theorem pure_eq (value : ρ) : (pure value : Program α answer ε ρ) = done value := rfl

@[simp] theorem bind_eq (program : Program α answer ε ρ) (next : ρ → Program α answer ε τ) :
    program >>= next = program.bind next := rfl

@[simp] theorem throw_eq (error : ε) : (throw error : Program α answer ε ρ) = raise error := rfl

@[simp] theorem tryCatch_eq (program : Program α answer ε ρ) (handler : ε → Program α answer ε ρ) :
    tryCatch program handler = program.handle handler := rfl

@[simp] theorem done_bind (value : ρ) (next : ρ → Program α answer ε τ) : (done value).bind next = next value := rfl

@[simp] theorem raise_bind (error : ε) (next : ρ → Program α answer ε τ) : (raise error).bind next = raise error := rfl

@[simp] theorem act_bind (action : α) (next : answer action → Program α answer ε τ) :
    (act action).bind next = perform action next := rfl

theorem bind_assoc {υ : Type} (program : Program α answer ε ρ) (next : ρ → Program α answer ε τ) (after : τ → Program α answer ε υ) :
    (program.bind next).bind after = program.bind fun value => (next value).bind after := by
  induction program with
  | done | raise => rfl
  | perform action following ih => exact congrArg (perform action) (funext fun reply => ih reply)

/-! ## What a program has been told -/

/-- Actions with their answers, the first one first. -/
abbrev History (answer : α → Type) : Type := List (Sigma answer)

/-- A program goes on as another one after the answers of a history. -/
inductive Told : Program α answer ε ρ → History answer → Program α answer ε ρ → Prop
  | still (program : Program α answer ε ρ) : Told program [] program
  | answered {action : α} {next : answer action → Program α answer ε ρ} {reply : answer action} {history : History answer}
      {rest : Program α answer ε ρ} (told : Told (next reply) history rest) :
      Told (perform action next) (⟨action, reply⟩ :: history) rest

section Told

variable {program rest : Program α answer ε ρ} {history : History answer}

theorem Told.append {middle : Program α answer ε ρ} {later : History answer} (first : program.Told history middle)
    (second : middle.Told later rest) : program.Told (history ++ later) rest := by
  induction first with
  | still => exact second
  | answered _ ih => exact .answered (ih second)

theorem Told.snoc {action : α} {next : answer action → Program α answer ε ρ} (told : program.Told history (perform action next))
    (reply : answer action) : program.Told (history ++ [⟨action, reply⟩]) (next reply) :=
  told.append (.answered (.still _))

/-- What a sequence has been told, its first part has, or both of its parts. -/
theorem Told.of_bind {next : ρ → Program α answer ε τ} {rest : Program α answer ε τ} (told : (program.bind next).Told history rest) :
    (∃ middle, program.Told history middle ∧ rest = middle.bind next) ∨
      ∃ first later value, history = first ++ later ∧ program.Told first (done value) ∧ (next value).Told later rest := by
  induction program generalizing history with
  | done value => exact .inr ⟨[], history, value, rfl, .still _, told⟩
  | raise error =>
    cases told
    exact .inl ⟨raise error, .still _, rfl⟩
  | perform action following ih =>
    cases told with
    | still => exact .inl ⟨perform action following, .still _, rfl⟩
    | @answered _ _ reply later _ told =>
      rcases ih reply told with ⟨middle, before, same⟩ | ⟨first, later, value, rfl, before, after⟩
      · exact .inl ⟨middle, .answered before, same⟩
      · exact .inr ⟨⟨action, reply⟩ :: first, later, value, rfl, .answered before, after⟩

theorem Told.of_handle {handler : ε → Program α answer ε ρ} (told : (program.handle handler).Told history rest) :
    (∃ middle, program.Told history middle ∧ rest = middle.handle handler) ∨
      ∃ first later error, history = first ++ later ∧ program.Told first (raise error) ∧ (handler error).Told later rest := by
  induction program generalizing history with
  | done value =>
    cases told
    exact .inl ⟨done value, .still _, rfl⟩
  | raise error => exact .inr ⟨[], history, error, rfl, .still _, told⟩
  | perform action following ih =>
    cases told with
    | still => exact .inl ⟨perform action following, .still _, rfl⟩
    | @answered _ _ reply later _ told =>
      rcases ih reply told with ⟨middle, before, same⟩ | ⟨first, later, error, rfl, before, after⟩
      · exact .inl ⟨middle, .answered before, same⟩
      · exact .inr ⟨⟨action, reply⟩ :: first, later, error, rfl, .answered before, after⟩

theorem Told.of_ensure {last : Program α answer ε Unit} (told : (program.ensure last).Told history rest) :
    (∃ middle, program.Told history middle ∧ rest = middle.ensure last) ∨
      ∃ first later, history = first ++ later ∧ ∃ result, last.bind (fun _ => lift result) |>.Told later rest := by
  induction program generalizing history with
  | done value => exact .inr ⟨[], history, rfl, .ok value, told⟩
  | raise error => exact .inr ⟨[], history, rfl, .error error, told⟩
  | perform action following ih =>
    cases told with
    | still => exact .inl ⟨perform action following, .still _, rfl⟩
    | @answered _ _ reply later _ told =>
      rcases ih reply told with ⟨middle, before, same⟩ | ⟨first, later, rfl, after⟩
      · exact .inl ⟨middle, .answered before, same⟩
      · exact .inr ⟨⟨action, reply⟩ :: first, later, rfl, after⟩

theorem Told.bind_done {next : ρ → Program α answer ε τ} {value : τ} (told : (program.bind next).Told history (done value)) :
    ∃ first later between, history = first ++ later ∧ program.Told first (done between) ∧ (next between).Told later (done value) := by
  rcases told.of_bind with ⟨middle, before, same⟩ | both
  · cases middle with
    | done between => exact ⟨history, [], between, (List.append_nil _).symm, before, same ▸ .still _⟩
    | raise | perform => cases same
  · exact both

theorem Told.handle_done {handler : ε → Program α answer ε ρ} {value : ρ} (told : (program.handle handler).Told history (done value)) :
    program.Told history (done value) ∨
      ∃ first later error, history = first ++ later ∧ program.Told first (raise error) ∧ (handler error).Told later (done value) := by
  rcases told.of_handle with ⟨middle, before, same⟩ | caught
  · cases middle with
    | done between =>
      cases same
      exact .inl before
    | raise error => exact .inr ⟨history, [], error, (List.append_nil _).symm, before, same ▸ .still _⟩
    | perform => cases same
  · exact .inr caught

/-- What a sequence raises, its first part has, or what comes then. -/
theorem Told.bind_raise {next : ρ → Program α answer ε τ} {error : ε} (told : (program.bind next).Told history (raise error)) :
    program.Told history (raise error) ∨
      ∃ first later between, history = first ++ later ∧ program.Told first (done between) ∧ (next between).Told later (raise error) := by
  rcases told.of_bind with ⟨middle, before, same⟩ | both
  · cases middle with
    | done between => exact .inr ⟨history, [], between, (List.append_nil _).symm, before, same ▸ .still _⟩
    | raise error' =>
      cases same
      exact .inl before
    | perform => cases same
  · exact .inr both

theorem Told.act_done {action : α} {value : answer action} (told : (act action : Program α answer ε _).Told history (done value)) :
    history = [⟨action, value⟩] := by
  cases told with
  | answered told =>
    cases told
    rfl

theorem Told.done_done {value value' : ρ} (told : (done value : Program α answer ε ρ).Told history (done value')) :
    history = [] ∧ value' = value := by
  cases told
  exact ⟨rfl, rfl⟩

theorem Told.raise_done {error : ε} {value : ρ} (told : (raise error : Program α answer ε ρ).Told history (done value)) : False := by
  cases told

theorem Told.lift_done {result : Except ε ρ} {value : ρ} (told : (lift result : Program α answer ε ρ).Told history (done value)) :
    history = [] ∧ result = .ok value := by
  cases result with
  | ok value' =>
    obtain ⟨rfl, rfl⟩ := told.done_done
    exact ⟨rfl, rfl⟩
  | error error => exact told.raise_done.elim

end Told

/-! ## Rely and guarantee -/

/-- What others may do to the state between two actions, what an action may do to it, and when it is allowed. -/
structure Contract (α : Type) (answer : α → Type) (σ : Type) where
  rely : σ → σ → Prop
  may : (action : α) → σ → answer action → σ → Prop
  allowed : α → σ → Prop
  rely_trans : ∀ {first second third}, rely first second → rely second third → rely first third

variable {σ : Type} (contract : Contract α answer σ)

/-- Something holds and others cannot change that. -/
def Contract.Stably (holds : σ → Prop) (state : σ) : Prop := ∀ later, contract.rely state later → holds later

/-- Every action is allowed where it is performed, and the program ends as it should. -/
def Safe (ends : Except ε ρ → σ → Prop) : Program α answer ε ρ → σ → Prop
  | done value, state => contract.Stably (ends (.ok value)) state
  | raise error, state => contract.Stably (ends (.error error)) state
  | perform action next, state => contract.Stably (fun later => contract.allowed action later ∧
      ∀ reply after, contract.may action later reply after → (next reply).Safe ends after) state

/-- What has to hold after a `finally` clause: an error of its own replaces how the block ended. -/
def closing (ends : Except ε ρ → σ → Prop) (result : Except ε ρ) : Except ε Unit → σ → Prop
  | .ok () => ends result
  | .error error => ends (.error error)

variable {contract} {ends : Except ε ρ → σ → Prop} {program : Program α answer ε ρ} {state : σ}

theorem Contract.Stably.rely {holds : σ → Prop} (stably : contract.Stably holds state) {later : σ}
    (meanwhile : contract.rely state later) : contract.Stably holds later :=
  fun after more => stably after (contract.rely_trans meanwhile more)

theorem Safe.rely (safe : program.Safe contract ends state) {later : σ} (meanwhile : contract.rely state later) :
    program.Safe contract ends later := by
  cases program with
  | done | raise | perform => exact Contract.Stably.rely safe meanwhile

theorem Safe.mono {weaker : Except ε ρ → σ → Prop} (safe : program.Safe contract ends state)
    (implies : ∀ result state, ends result state → weaker result state) : program.Safe contract weaker state := by
  induction program generalizing state with
  | done | raise => exact fun later meanwhile => implies _ later (safe later meanwhile)
  | perform action next ih =>
    intro later meanwhile
    obtain ⟨allowed, goesOn⟩ := safe later meanwhile
    exact ⟨allowed, fun reply after moved => ih reply (goesOn reply after moved)⟩

theorem Safe.bind {between : Except ε ρ → σ → Prop} {ends : Except ε τ → σ → Prop} {next : ρ → Program α answer ε τ}
    (safe : program.Safe contract between state)
    (returned : ∀ value later, contract.Stably (between (.ok value)) later → (next value).Safe contract ends later)
    (raised : ∀ error later, between (.error error) later → ends (.error error) later) :
    (program.bind next).Safe contract ends state := by
  induction program generalizing state with
  | done value => exact returned value state safe
  | raise error => exact fun later meanwhile => raised error later (safe later meanwhile)
  | perform action following ih =>
    intro later meanwhile
    obtain ⟨allowed, goesOn⟩ := safe later meanwhile
    exact ⟨allowed, fun reply after moved => ih reply (goesOn reply after moved)⟩

theorem Safe.handle {between : Except ε ρ → σ → Prop} {handler : ε → Program α answer ε ρ}
    (safe : program.Safe contract between state)
    (returned : ∀ value later, between (.ok value) later → ends (.ok value) later)
    (raised : ∀ error later, contract.Stably (between (.error error)) later → (handler error).Safe contract ends later) :
    (program.handle handler).Safe contract ends state := by
  induction program generalizing state with
  | done value => exact fun later meanwhile => returned value later (safe later meanwhile)
  | raise error => exact raised error state safe
  | perform action following ih =>
    intro later meanwhile
    obtain ⟨allowed, goesOn⟩ := safe later meanwhile
    exact ⟨allowed, fun reply after moved => ih reply (goesOn reply after moved)⟩

theorem Safe.ensure {between : Except ε ρ → σ → Prop} {last : Program α answer ε Unit}
    (safe : program.Safe contract between state)
    (closes : ∀ result later, contract.Stably (between result) later → last.Safe contract (closing ends result) later) :
    (program.ensure last).Safe contract ends state := by
  induction program generalizing state with
  | done value => exact (closes (.ok value) state safe).bind (fun _ _ ended => ended) fun _ _ ended => ended
  | raise error => exact (closes (.error error) state safe).bind (fun _ _ ended => ended) fun _ _ ended => ended
  | perform action following ih =>
    intro later meanwhile
    obtain ⟨allowed, goesOn⟩ := safe later meanwhile
    exact ⟨allowed, fun reply after moved => ih reply (goesOn reply after moved)⟩

/-! ## What a program does whatever it is answered -/

/-- All actions are of one kind, and all that is returned of another. -/
def Within (acts : α → Prop) (returns : ρ → Prop) : Program α answer ε ρ → Prop
  | done value => returns value
  | raise _ => True
  | perform action next => acts action ∧ ∀ reply, (next reply).Within acts returns

variable {acts : α → Prop} {returns : ρ → Prop}

theorem Within.bind {returns' : τ → Prop} {next : ρ → Program α answer ε τ} (first : program.Within acts returns)
    (rest : ∀ value, returns value → (next value).Within acts returns') : (program.bind next).Within acts returns' := by
  induction program with
  | done value => exact rest value first
  | raise error => trivial
  | perform action following ih => exact ⟨first.1, fun reply => ih reply (first.2 reply)⟩

theorem Within.handle {handler : ε → Program α answer ε ρ} (first : program.Within acts returns)
    (rest : ∀ error, (handler error).Within acts returns) : (program.handle handler).Within acts returns := by
  induction program with
  | done value => exact first
  | raise error => exact rest error
  | perform action following ih => exact ⟨first.1, fun reply => ih reply (first.2 reply)⟩

theorem Within.ensure {last : Program α answer ε Unit} (first : program.Within acts returns)
    (closes : last.Within acts fun _ => True) : (program.ensure last).Within acts returns := by
  induction program with
  | done value => exact closes.bind fun _ _ => first
  | raise error => exact closes.bind fun _ _ => trivial
  | perform action following ih => exact ⟨first.1, fun reply => ih reply (first.2 reply)⟩

theorem Within.act {action : α} (allowed : acts action) :
    (act action : Program α answer ε (answer action)).Within acts fun _ => True :=
  ⟨allowed, fun _ => trivial⟩

theorem Within.lift (result : Except ε ρ) :
    (lift result : Program α answer ε ρ).Within acts fun value => result = .ok value := by
  cases result with
  | ok value => exact rfl
  | error error => trivial

theorem Within.mono {returns' : ρ → Prop} (within : program.Within acts returns)
    (implies : ∀ value, returns value → returns' value) : program.Within acts returns' := by
  induction program with
  | done value => exact implies value within
  | raise error => trivial
  | perform action following ih => exact ⟨within.1, fun reply => ih reply (within.2 reply)⟩

theorem Within.told (within : program.Within acts returns) {history : History answer} {rest : Program α answer ε ρ}
    (told : program.Told history rest) : rest.Within acts returns := by
  induction told with
  | still => exact within
  | answered _ ih => exact ih (within.2 _)

/-- An action of another kind comes behind the first part of a sequence. -/
theorem Within.behind {next : ρ → Program α answer ε τ} (within : program.Within acts returns) {history : History answer} {action : α}
    (other : ¬ acts action) {rest : answer action → Program α answer ε τ} (told : (program.bind next).Told history (perform action rest)) :
    ∃ first later value, history = first ++ later ∧ program.Told first (done value) ∧ (next value).Told later (perform action rest) := by
  rcases told.of_bind with ⟨middle, before, same⟩ | both
  · cases middle with
    | done value => exact ⟨history, [], value, (List.append_nil _).symm, before, same ▸ .still _⟩
    | raise => cases same
    | perform =>
      cases same
      exact absurd (within.told before).1 other
  · exact both

/-- An action of another kind than what is done in the end comes from the block. -/
theorem Within.before {last : Program α answer ε Unit} (within : last.Within acts fun _ => True) {history : History answer} {action : α}
    (other : ¬ acts action) {rest : answer action → Program α answer ε ρ} (told : (program.ensure last).Told history (perform action rest)) :
    ∃ next, program.Told history (perform action next) := by
  have closing (result : Except ε ρ) : (last.bind fun _ => Program.lift result : Program α answer ε ρ).Within acts fun _ => True := by
    refine within.bind fun _ _ => ?_
    cases result <;> trivial
  rcases told.of_ensure with ⟨middle, before, same⟩ | ⟨first, later, _, result, after⟩
  · cases middle with
    | done value =>
      have closes : (perform action rest).Within acts fun _ => True := same ▸ closing (.ok value)
      exact absurd closes.1 other
    | raise error =>
      have closes : (perform action rest).Within acts fun _ => True := same ▸ closing (.error error)
      exact absurd closes.1 other
    | perform _ next =>
      cases same
      exact ⟨next, before⟩
  · exact absurd ((closing result).told after).1 other

theorem Within.imp {acts' : α → Prop} (within : program.Within acts returns) (implies : ∀ action, acts action → acts' action) :
    program.Within acts' returns := by
  induction program with
  | done value => exact within
  | raise error => trivial
  | perform action following ih => exact ⟨implies action within.1, fun reply => ih reply (within.2 reply)⟩

theorem Within.any (within : program.Within acts returns) : program.Within acts fun _ => True :=
  within.mono fun _ _ => trivial

/-- Actions that are always allowed and do what anybody may do are safe, and what was known before is known after. -/
theorem Within.safe (within : program.Within acts returns)
    (harmless : ∀ action, acts action → ∀ state, contract.allowed action state ∧
      ∀ reply after, contract.may action state reply after → contract.rely state after)
    {known : σ → Prop} (stably : contract.Stably known state) :
    program.Safe contract (fun result later => known later ∧ ∀ value, result = .ok value → returns value) state := by
  induction program generalizing state with
  | done value =>
    intro later meanwhile
    refine ⟨stably later meanwhile, fun other same => ?_⟩
    cases same
    exact within
  | raise error =>
    intro later meanwhile
    refine ⟨stably later meanwhile, fun other same => ?_⟩
    cases same
  | perform action next ih =>
    intro later meanwhile
    obtain ⟨allowed, moves⟩ := harmless action within.1 later
    exact ⟨allowed, fun reply after moved => ih reply (within.2 reply) ((stably.rely meanwhile).rely (moves reply after moved))⟩

end Program

end Umbilical
