import Umbilical.Python.Text
import Umbilical.Shared.Interleaving

set_option autoImplicit false

/-!
# The state of objects

A call that finds no row goes on to insert one, and other processes may write between the two.
-/

namespace Umbilical.Db

open Umbilical.Interleaving Umbilical.Python

/-- The JSON library, on the values that JSON can represent. -/
structure JsonLibrary (ν : Type) where
  null : ν
  dumps : ν → Text
  loads : Text → Option ν
  loads_dumps : ∀ value, loads (dumps value) = some value

structure Backend (ν : Type) where
  json : JsonLibrary ν
  -- of SHA-1, after `unicode2bytes`
  hexdigest : Text → Text
  -- whether the database refuses a text that is longer than its column
  enforced : Bool

inductive StateError where
  | KeyError (message : String)
  | TypeError (message : String)
  deriving DecidableEq

/-- A call that has found no row, up to its `insert`. -/
structure Call (ι ν : Type) where
  creates : Bool
  objectid : ι
  name : Text
  value : ν
  -- whether a call has written the name since
  overtaken : Bool

/-- The table `object_state`, with its unique index on the object and the name. -/
structure ObjectState (ι ν : Type) where
  rows : ι × Text → Option Text
  waiting : List (Call ι ν)

/-- The length of `object_state.c.name`. -/
def nameLength : Nat := 255

def ensureLength (hexdigest : Text → Text) (length : Nat) (value : Text) : Text :=
  if value.length > length then value.take (length / 2) ++ (hexdigest value).take (length / 2) else value

namespace ObjectState

variable {ι ν : Type}

/-- What can be seen of a run, each time for an object and a name as the caller gave them. -/
inductive Action (ι ν : Type) where
  -- `setState` has written
  | set (key : ι × Text) (value : ν)
  -- `atomicCreateState` has inserted
  | won (key : ι × Text) (value : ν)
  -- `atomicCreateState` returns
  | created (key : ι × Text) (value : ν)
  -- the insert of `setState` is refused
  | lost (key : ι × Text) (overtaken : Bool)
  | failed (key : ι × Text)

def start : ObjectState ι ν where
  rows _ := none
  waiting := []

def thdGetState [ToString ι] (json : JsonLibrary ν) (self : ObjectState ι ν) (objectid : ι) (name : Text)
    (default : Option ν) : Except StateError ν :=
  match self.rows (objectid, name), default with
  | none, none => .error (.KeyError s!"no such state value '{String.ofList name}' for object {objectid}")
  | none, some default => .ok default
  | some value_json, _ =>
      match json.loads value_json with
      | some value => .ok value
      | none => .error (.TypeError s!"JSON error loading state value '{String.ofList name}' for {objectid}")

section Writing

variable [DecidableEq ι]

/-- A call for `key` writes the row under `column`. -/
def write (self : ObjectState ι ν) (key column : ι × Text) (value_json : Text) : ObjectState ι ν where
  rows := Function.update self.rows column (some value_json)
  waiting := self.waiting.map fun call =>
    if (call.objectid, call.name) = key then { call with overtaken := true } else call

/-- `thdSetState`, up to its `insert`. -/
def setState (backend : Backend ν) (self : ObjectState ι ν) (objectid : ι) (name : Text) (value : ν) :
    ObjectState ι ν × List (Action ι ν) :=
  let value_json := backend.json.dumps value
  let column := (objectid, ensureLength backend.hexdigest nameLength name)
  if (self.rows column).isSome then (self.write (objectid, name) column value_json, [.set (objectid, name) value])
  else ({ self with waiting := self.waiting ++ [⟨false, objectid, name, value, false⟩] }, [])

def insertSet (backend : Backend ν) (self : ObjectState ι ν) (call : Call ι ν) :
    ObjectState ι ν × List (Action ι ν) :=
  let key := (call.objectid, call.name)
  let column := (call.objectid, ensureLength backend.hexdigest nameLength call.name)
  -- the unique index: someone beat us to it
  if (self.rows column).isSome then (self, [.lost key call.overtaken])
  else (self.write key column (backend.json.dumps call.value), [.set key call.value])

variable [ToString ι]

/-- `atomicCreateState`, up to its `insert`. What the callback returns is `value`. -/
def atomicCreateState [DecidableEq ν] (backend : Backend ν) (self : ObjectState ι ν) (objectid : ι) (name : Text)
    (value : ν) : ObjectState ι ν × List (Action ι ν) :=
  match self.thdGetState backend.json objectid name (some backend.json.null) with
  | .error _ => (self, [.failed (objectid, name)])
  | .ok res =>
      if res = backend.json.null then ({ self with waiting := self.waiting ++ [⟨true, objectid, name, value, false⟩] }, [])
      else (self, [.created (objectid, name) res])

def insertCreated (backend : Backend ν) (self : ObjectState ι ν) (call : Call ι ν) :
    ObjectState ι ν × List (Action ι ν) :=
  let key := (call.objectid, call.name)
  if backend.enforced && call.name.length > nameLength then (self, [.failed key])
  else if (self.rows key).isSome then
    match self.thdGetState backend.json call.objectid call.name none with
    | .ok value => (self, [.created key value])
    | .error _ => (self, [.failed key])
  else (self.write key key (backend.json.dumps call.value), [.won key call.value, .created key call.value])

inductive Event (ι ν : Type) where
  | setState (objectid : ι) (name : Text) (value : ν)
  | atomicCreateState (objectid : ι) (name : Text) (value : ν)
  -- one of the calls that wait goes on
  | insert (index : Nat)

def step [DecidableEq ν] (backend : Backend ν) (self : ObjectState ι ν) :
    Event ι ν → ObjectState ι ν × List (Action ι ν)
  | .setState objectid name value => self.setState backend objectid name value
  | .atomicCreateState objectid name value => self.atomicCreateState backend objectid name value
  | .insert index =>
      match self.waiting[index]? with
      | none => (self, [])
      | some call =>
          let self := { self with waiting := self.waiting.eraseIdx index }
          if call.creates then self.insertCreated backend call else self.insertSet backend call

end Writing

/-! ## The map -/

variable [DecidableEq ι]

/-- The value of the last write of `key`. -/
def lastWrite (past : List (Action ι ν)) (key : ι × Text) : Option ν :=
  past.foldl (fun last action => match action with
    | .set other value | .won other value => if other = key then some value else last
    | _ => last) none

/-- What holds after a run if the table is a map from objects and names to values. -/
structure IsMap [ToString ι] (backend : Backend ν) (store : ObjectState ι ν) (past : List (Action ι ν)) : Prop where
  reads : ∀ objectid name default value, lastWrite past (objectid, name) = some value →
    store.thdGetState backend.json objectid name default = .ok value
  missing : ∀ objectid name, lastWrite past (objectid, name) = none →
    store.thdGetState backend.json objectid name none =
        .error (.KeyError s!"no such state value '{String.ofList name}' for object {objectid}") ∧
      ∀ default, store.thdGetState backend.json objectid name (some default) = .ok default
  creates : Lawful (fun before action => ∀ key value, action = .created key value → lastWrite before key = some value) past
  agree : ∀ before key first between second later,
    past = before ++ .created key first :: between ++ .created key second :: later →
    (∀ value, .set key value ∉ between) → first = second
  kept : ∀ key, .lost key false ∉ past
  served : ∀ key, .failed key ∉ past

/-! ## Runs that fit the column -/

variable {backend : Backend ν} {self : ObjectState ι ν} {past : List (Action ι ν)}

theorem ensureLength_of_le {hexdigest : Text → Text} {name : Text} (short : name.length ≤ nameLength) :
    ensureLength hexdigest nameLength name = name := if_neg (Nat.not_lt.mpr short)

/-- The name that a longer one is stored under fits. -/
theorem length_ensureLength (hexdigest : Text → Text) (name : Text) :
    (ensureLength hexdigest nameLength name).length ≤ nameLength := by
  unfold ensureLength
  split
  next => simp [nameLength]; omega
  next short => exact Nat.not_lt.mp short

theorem ensureLength_ne {hexdigest : Text → Text} {name : Text} (long : nameLength < name.length) :
    ensureLength hexdigest nameLength name ≠ name := by
  intro same
  have fits := length_ensureLength hexdigest name
  rw [same] at fits
  omega

theorem JsonLibrary.dumps_injective (json : JsonLibrary ν) {value other : ν} (same : json.dumps value = json.dumps other) :
    value = other := by
  have read := json.loads_dumps value
  rw [same, json.loads_dumps] at read
  exact (Option.some.inj read).symm

theorem lastWrite_concat (past : List (Action ι ν)) (action : Action ι ν) (key : ι × Text) :
    lastWrite (past ++ [action]) key = match action with
      | .set other value | .won other value => if other = key then some value else lastWrite past key
      | _ => lastWrite past key := by
  rw [lastWrite, List.foldl_append]
  rfl

/-- A name that is longer than the column is not written by `setState`, unless both the name and what it is shortened to
have the value already; and it is not inserted where the database refuses it. -/
def Fits [DecidableEq ν] (backend : Backend ν) (self : ObjectState ι ν) : Event ι ν → Prop
  | .setState objectid name value => nameLength < name.length →
      self.rows (objectid, ensureLength backend.hexdigest nameLength name) ≠ none →
      self.rows (objectid, name) = some (backend.json.dumps value) ∧
        self.rows (objectid, ensureLength backend.hexdigest nameLength name) = some (backend.json.dumps value)
  | .atomicCreateState _ _ _ => True
  | .insert index => ∀ call, self.waiting[index]? = some call → nameLength < call.name.length →
      if call.creates then backend.enforced = false
      else self.rows (call.objectid, ensureLength backend.hexdigest nameLength call.name) ≠ none ∧ call.overtaken = true

/-- The rows are the last writes, and a short name for which a call waits has no row unless another call has written it. -/
structure Follows (backend : Backend ν) (store : ObjectState ι ν) (past : List (Action ι ν)) : Prop where
  rows : ∀ key, store.rows key = (lastWrite past key).map backend.json.dumps
  waits : ∀ call ∈ store.waiting, call.creates = false → call.name.length ≤ nameLength →
    store.rows (call.objectid, call.name) ≠ none → call.overtaken = true
  creates : Lawful (fun before action => ∀ key value, action = .created key value → lastWrite before key = some value) past
  wins : Lawful (fun before action => ∀ key value, action = .won key value → lastWrite before key = none) past
  kept : ∀ key, .lost key false ∉ past
  served : ∀ key, .failed key ∉ past

/-- What a step shows that does not touch the rows. -/
def Quiet (past : List (Action ι ν)) : Action ι ν → Prop
  | .created key value => lastWrite past key = some value
  | .lost _ overtaken => overtaken = true
  | _ => False

theorem lastWrite_quiet {action : Action ι ν} (quiet : Quiet past action) (key : ι × Text) :
    lastWrite (past ++ [action]) key = lastWrite past key := by
  rw [lastWrite_concat]
  cases action with
  | created | lost => rfl
  | _ => exact quiet.elim

theorem Follows.concat_quiet (follows : self.Follows backend past) {action : Action ι ν} (quiet : Quiet past action) :
    self.Follows backend (past ++ [action]) where
  rows key := by rw [lastWrite_quiet quiet, follows.rows]
  waits := follows.waits
  creates := follows.creates.concat (by
    rintro key value rfl
    exact quiet)
  wins := follows.wins.concat (by
    rintro key value rfl
    exact quiet.elim)
  kept key member := by
    rcases List.mem_append.mp member with old | new
    · exact follows.kept key old
    · cases List.mem_singleton.mp new
      exact absurd quiet (by simp [Quiet])
  served key member := by
    rcases List.mem_append.mp member with old | new
    · exact follows.served key old
    · cases List.mem_singleton.mp new
      exact quiet.elim

/-- A write of `key` in its own column, or one that finds the value there already. -/
theorem Follows.write (follows : self.Follows backend past) {key column : ι × Text} {value : ν} {action : Action ι ν}
    (writes : action = .set key value ∨ action = .won key value ∧ lastWrite past key = none)
    (fits : column = key ∨ self.rows key = some (backend.json.dumps value) ∧ self.rows column = some (backend.json.dumps value)) :
    (self.write key column (backend.json.dumps value)).Follows backend (past ++ [action]) := by
  have last : ∀ other, lastWrite (past ++ [action]) other = if key = other then some value else lastWrite past other := by
    intro other
    rw [lastWrite_concat]
    rcases writes with rfl | ⟨rfl, _⟩ <;> rfl
  have rows : ∀ other, (self.write key column (backend.json.dumps value)).rows other =
      if key = other then some (backend.json.dumps value) else self.rows other := by
    intro other
    rcases fits with rfl | ⟨here, there⟩
    · by_cases same : column = other
      · subst same
        simp [ObjectState.write]
      · simp [ObjectState.write, same, Function.update_of_ne (Ne.symm same)]
    · have unchanged : Function.update self.rows column (some (backend.json.dumps value)) = self.rows := by
        rw [← there, Function.update_eq_self]
      simp only [ObjectState.write, unchanged]
      split
      next same => rw [← same, here]
      next => rfl
  constructor
  case rows =>
    intro other
    rw [rows, last]
    split
    next => rfl
    next => exact follows.rows other
  case waits =>
    intro call member sets short present
    obtain ⟨old, waits, rfl⟩ := List.mem_map.mp member
    by_cases same : (old.objectid, old.name) = key
    · simp [same]
    · simp only [same, if_false] at sets short present ⊢
      rw [rows, if_neg (Ne.symm same)] at present
      exact follows.waits old waits sets short present
  case creates =>
    refine follows.creates.concat ?_
    rintro other found rfl
    rcases writes with equal | ⟨equal, _⟩ <;> cases equal
  case wins =>
    refine follows.wins.concat ?_
    rintro other found rfl
    rcases writes with equal | ⟨equal, missing⟩
    · cases equal
    · cases equal
      exact missing
  case kept =>
    intro other member
    rcases List.mem_append.mp member with old | new
    · exact follows.kept other old
    · rcases writes with rfl | ⟨rfl, _⟩ <;> simp at new
  case served =>
    intro other member
    rcases List.mem_append.mp member with old | new
    · exact follows.served other old
    · rcases writes with rfl | ⟨rfl, _⟩ <;> simp at new

theorem Follows.waiting (follows : self.Follows backend past) {waiting : List (Call ι ν)}
    (waits : ∀ call ∈ waiting, call ∈ self.waiting ∨
      (call.creates = false → call.name.length ≤ nameLength → self.rows (call.objectid, call.name) = none)) :
    { self with waiting := waiting }.Follows backend past where
  rows := follows.rows
  waits call member sets short present := by
    rcases waits call member with old | fresh
    · exact follows.waits call old sets short present
    · exact absurd (fresh sets short) present
  creates := follows.creates
  wins := follows.wins
  kept := follows.kept
  served := follows.served

variable [ToString ι]

theorem Follows.reads (follows : self.Follows backend past) {objectid : ι} {name : Text} {value : ν}
    (last : lastWrite past (objectid, name) = some value) (default : Option ν) :
    self.thdGetState backend.json objectid name default = .ok value := by
  have row := follows.rows (objectid, name)
  rw [last] at row
  simp [thdGetState, row, backend.json.loads_dumps]

theorem Follows.missing (follows : self.Follows backend past) {objectid : ι} {name : Text}
    (last : lastWrite past (objectid, name) = none) :
    self.thdGetState backend.json objectid name none =
        .error (.KeyError s!"no such state value '{String.ofList name}' for object {objectid}") ∧
      ∀ default, self.thdGetState backend.json objectid name (some default) = .ok default := by
  have row := follows.rows (objectid, name)
  rw [last] at row
  constructor
  · simp [thdGetState, row]
  · intro default
    simp [thdGetState, row]

omit [ToString ι] in
/-- Only `setState` changes a value that is there. -/
theorem lastWrite_between {between : List (Action ι ν)} {key : ι × Text} {value : ν}
    (wins : Lawful (fun before action => ∀ key value, action = .won key value → lastWrite before key = none) (past ++ between))
    (last : lastWrite past key = some value) (unset : ∀ other, .set key other ∉ between) :
    lastWrite (past ++ between) key = some value := by
  induction between generalizing past with
  | nil => simpa using last
  | cons action between ih =>
    have split : past ++ action :: between = (past ++ [action]) ++ between := by simp
    rw [split] at wins ⊢
    refine ih wins ?_ fun other member => unset other (List.mem_cons_of_mem _ member)
    rw [lastWrite_concat]
    cases action with
    | set other written =>
      have different : other ≠ key := fun same => unset written (by simp [same])
      simpa [different] using last
    | won other written =>
      have missing := wins past _ ⟨between, by simp⟩ other written rfl
      have different : other ≠ key := fun same => by
        rw [same, last] at missing
        cases missing
      simpa [different] using last
    | created | lost | failed => exact last

theorem Follows.isMap (follows : self.Follows backend past) : self.IsMap backend past where
  reads _ _ default _ last := follows.reads last default
  missing _ _ last := follows.missing last
  creates := follows.creates
  agree before key first between second later split unset := by
    have early : past = before ++ .created key first :: (between ++ .created key second :: later) := by simpa using split
    have one := follows.creates.split early key first rfl
    have two := follows.creates.split split key second rfl
    have wins : Lawful (fun before action => ∀ key value, action = .won key value → lastWrite before key = none)
        (before ++ .created key first :: between) := by
      intro shorter action start
      exact follows.wins shorter action (start.trans ⟨_, split.symm⟩)
    have stays := lastWrite_between wins one (by
      intro other member
      rcases List.mem_cons.mp member with equal | member
      · cases equal
      · exact unset other member)
    exact Option.some.inj (stays.symm.trans two)
  kept := follows.kept
  served := follows.served

section Steps

variable [DecidableEq ν]

omit [ToString ι] in
theorem follows_setState (follows : self.Follows backend past) {objectid : ι} {name : Text} {value : ν}
    (fits : self.Fits backend (.setState objectid name value)) :
    (self.setState backend objectid name value).1.Follows backend (past ++ (self.setState backend objectid name value).2) := by
  unfold setState
  dsimp only
  split
  next present =>
    refine follows.write (.inl rfl) ?_
    by_cases long : nameLength < name.length
    · exact .inr (fits long (Option.isSome_iff_ne_none.mp present))
    · exact .inl (by rw [ensureLength_of_le (Nat.not_lt.mp long)])
  next missing =>
    rw [List.append_nil]
    refine follows.waiting fun call member => ?_
    rcases List.mem_append.mp member with old | new
    · exact .inl old
    · refine .inr fun _ short => ?_
      cases List.mem_singleton.mp new
      rw [ensureLength_of_le short] at missing
      simpa using missing

theorem follows_atomicCreateState (follows : self.Follows backend past) (objectid : ι) (name : Text) (value : ν) :
    (self.atomicCreateState backend objectid name value).1.Follows backend
      (past ++ (self.atomicCreateState backend objectid name value).2) := by
  have pushed : { self with waiting := self.waiting ++ [(⟨true, objectid, name, value, false⟩ : Call ι ν)] }.Follows
      backend past := by
    refine follows.waiting fun call member => ?_
    rcases List.mem_append.mp member with old | new
    · exact .inl old
    · refine .inr fun sets => ?_
      cases List.mem_singleton.mp new
      cases sets
  unfold atomicCreateState
  cases last : lastWrite past (objectid, name) with
  | none =>
    rw [(follows.missing last).2]
    simpa using pushed
  | some found =>
    rw [follows.reads last]
    dsimp only
    split
    next => simpa using pushed
    next => exact follows.concat_quiet last

omit [ToString ι] [DecidableEq ν] in
theorem follows_insertSet (follows : self.Follows backend past) {call : Call ι ν}
    (waits : call.name.length ≤ nameLength → self.rows (call.objectid, call.name) ≠ none → call.overtaken = true)
    (fits : nameLength < call.name.length →
      self.rows (call.objectid, ensureLength backend.hexdigest nameLength call.name) ≠ none ∧ call.overtaken = true) :
    (self.insertSet backend call).1.Follows backend (past ++ (self.insertSet backend call).2) := by
  unfold insertSet
  dsimp only
  by_cases long : nameLength < call.name.length
  · obtain ⟨present, overtaken⟩ := fits long
    rw [if_pos (Option.isSome_iff_ne_none.mpr present)]
    exact follows.concat_quiet overtaken
  · have short := Nat.not_lt.mp long
    rw [ensureLength_of_le short]
    split
    next present => exact follows.concat_quiet (waits short (Option.isSome_iff_ne_none.mp present))
    next => exact follows.write (.inl rfl) (.inl rfl)

omit [DecidableEq ν] in
theorem follows_insertCreated (follows : self.Follows backend past) {call : Call ι ν}
    (fits : nameLength < call.name.length → backend.enforced = false) :
    (self.insertCreated backend call).1.Follows backend (past ++ (self.insertCreated backend call).2) := by
  unfold insertCreated
  dsimp only
  rw [if_neg (by
    intro refused
    simp only [Bool.and_eq_true, decide_eq_true_eq] at refused
    have free := fits refused.2
    simp [free] at refused)]
  cases last : lastWrite past (call.objectid, call.name) with
  | none =>
    have row := follows.rows (call.objectid, call.name)
    rw [last] at row
    rw [if_neg (by simp [row])]
    have won : Action.won (call.objectid, call.name) call.value = .won (call.objectid, call.name) call.value ∧
        lastWrite past (call.objectid, call.name) = none := ⟨rfl, last⟩
    have written := follows.write (.inr won) (.inl rfl)
    have reads : Quiet (past ++ [.won (call.objectid, call.name) call.value]) (.created (call.objectid, call.name) call.value) := by
      simp [Quiet, lastWrite_concat]
    simpa using written.concat_quiet reads
  | some found =>
    have row := follows.rows (call.objectid, call.name)
    rw [last] at row
    rw [if_pos (by simp [row]), follows.reads last]
    exact follows.concat_quiet last

theorem follows_step (follows : self.Follows backend past) (event : Event ι ν) (fits : self.Fits backend event) :
    (self.step backend event).1.Follows backend (past ++ (self.step backend event).2) := by
  cases event with
  | setState objectid name value => exact follows_setState follows fits
  | atomicCreateState objectid name value => exact follows_atomicCreateState follows objectid name value
  | insert index =>
    unfold step
    dsimp only
    cases waits : self.waiting[index]? with
    | none => simpa using follows
    | some call =>
      dsimp only
      have rest : { self with waiting := self.waiting.eraseIdx index }.Follows backend past :=
        follows.waiting fun other member => .inl (List.mem_of_mem_eraseIdx member)
      split
      next creates => exact follows_insertCreated rest fun long => by simpa [creates] using fits call waits long
      next sets =>
        refine follows_insertSet rest ?_ fun long => by simpa [sets] using fits call waits long
        exact follows.waits call (List.mem_of_getElem? waits) (by simpa using sets)

/-! ## Names that are longer than the column -/

omit [DecidableEq ν] in
theorem IsMap.last_of_row (isMap : self.IsMap backend past) {key : ι × Text} {value : ν}
    (row : self.rows key = some (backend.json.dumps value)) : lastWrite past key = some value := by
  have read : self.thdGetState backend.json key.1 key.2 none = .ok value := by
    simp [thdGetState, row, backend.json.loads_dumps]
  cases last : lastWrite past key with
  | none =>
    rw [(isMap.missing key.1 key.2 last).1] at read
    cases read
  | some other =>
    rw [isMap.reads key.1 key.2 none other last] at read
    cases read
    rfl

omit [DecidableEq ν] in
theorem IsMap.row_of_last (isMap : self.IsMap backend past) {key : ι × Text} {value : ν}
    (last : lastWrite past key = some value) : self.rows key ≠ none := by
  intro row
  have read := isMap.reads key.1 key.2 none value last
  simp [thdGetState, row] at read

/-- A write under the shortened name is read under that name, and not under the one that was given. -/
theorem setState_lost (follows : self.Follows backend past) {objectid : ι} {name : Text} {value : ν}
    (broken : ¬ self.Fits backend (.setState objectid name value)) :
    ¬ (self.setState backend objectid name value).1.IsMap backend (past ++ (self.setState backend objectid name value).2) := by
  simp only [Fits, Classical.not_imp] at broken
  obtain ⟨long, present, wrong⟩ := broken
  have other : (objectid, ensureLength backend.hexdigest nameLength name) ≠ (objectid, name) := by
    simpa using ensureLength_ne long
  rw [setState, if_pos (Option.isSome_iff_ne_none.mpr present)]
  intro isMap
  apply wrong
  have written : (self.write (objectid, name) (objectid, ensureLength backend.hexdigest nameLength name)
      (backend.json.dumps value)).rows (objectid, ensureLength backend.hexdigest nameLength name) =
      some (backend.json.dumps value) := by simp [ObjectState.write]
  have shortened := isMap.last_of_row written
  simp only [lastWrite_concat, if_neg (Ne.symm other)] at shortened
  have given : lastWrite (past ++ [.set (objectid, name) value]) (objectid, name) = some value := by
    simp [lastWrite_concat]
  have row := isMap.row_of_last given
  simp only [ObjectState.write, Function.update_of_ne (Ne.symm other)] at row
  have before := follows.rows (objectid, name)
  refine ⟨?_, by rw [follows.rows, shortened]; rfl⟩
  cases last : lastWrite past (objectid, name) with
  | none =>
    rw [last] at before
    exact absurd before row
  | some found =>
    rw [last] at before
    have untouched : (self.write (objectid, name) (objectid, ensureLength backend.hexdigest nameLength name)
        (backend.json.dumps value)).rows (objectid, name) = some (backend.json.dumps found) := by
      simp only [ObjectState.write, Function.update_of_ne (Ne.symm other)]
      exact before
    have same := isMap.last_of_row untouched
    rw [given] at same
    cases same
    exact before

omit [DecidableEq ν] in
theorem insertSet_lost (follows : self.Follows backend past) {call : Call ι ν} (long : nameLength < call.name.length)
    (broken : ¬ (self.rows (call.objectid, ensureLength backend.hexdigest nameLength call.name) ≠ none ∧ call.overtaken = true)) :
    ¬ (self.insertSet backend call).1.IsMap backend (past ++ (self.insertSet backend call).2) := by
  have other : (call.objectid, ensureLength backend.hexdigest nameLength call.name) ≠ (call.objectid, call.name) := by
    simpa using ensureLength_ne long
  unfold insertSet
  dsimp only
  split
  next present =>
    have alone : call.overtaken = false := by
      have fails := not_and.mp broken (Option.isSome_iff_ne_none.mp present)
      simpa using fails
    intro isMap
    exact isMap.kept (call.objectid, call.name) (by simp [alone])
  next missing =>
    intro isMap
    have written : (self.write (call.objectid, call.name)
        (call.objectid, ensureLength backend.hexdigest nameLength call.name) (backend.json.dumps call.value)).rows
        (call.objectid, ensureLength backend.hexdigest nameLength call.name) = some (backend.json.dumps call.value) := by
      simp [ObjectState.write]
    have shortened := isMap.last_of_row written
    simp only [lastWrite_concat, if_neg (Ne.symm other)] at shortened
    have row := follows.rows (call.objectid, ensureLength backend.hexdigest nameLength call.name)
    rw [shortened] at row
    simp [row] at missing

theorem step_lost (follows : self.Follows backend past) {event : Event ι ν} (broken : ¬ self.Fits backend event) :
    ¬ (self.step backend event).1.IsMap backend (past ++ (self.step backend event).2) := by
  cases event with
  | setState objectid name value => exact setState_lost follows broken
  | atomicCreateState objectid name value => exact absurd trivial broken
  | insert index =>
    simp only [Fits, not_forall] at broken
    obtain ⟨call, waits, long, broken⟩ := broken
    have rest : { self with waiting := self.waiting.eraseIdx index }.Follows backend past :=
      follows.waiting fun other member => .inl (List.mem_of_mem_eraseIdx member)
    unfold step
    simp only [waits]
    split
    next creates =>
      have refuses : backend.enforced = true := by simpa [creates] using broken
      intro isMap
      exact isMap.served (call.objectid, call.name) (by simp [insertCreated, refuses, long])
    next sets =>
      rw [if_neg sets] at broken
      exact insertSet_lost rest long broken

omit [ToString ι] [DecidableEq ν] in
theorem follows_start : (start : ObjectState ι ν).Follows backend [] where
  rows _ := rfl
  waits := nofun
  creates := lawful_nil _
  wins := lawful_nil _
  kept := nofun
  served := nofun

/-- The table is a map from objects and names to values exactly as long as no name is longer than its column, apart from
calls with such names that change nothing, and from `atomicCreateState` where the database stores them. -/
theorem isMap_iff (backend : Backend ν) (events : List (Event ι ν)) :
    (∀ past, past <+: events → (final (step backend) start past).IsMap backend (seen (step backend) start past)) ↔
      Always (step backend) (Fits backend) start events :=
  @history_iff _ _ _ (step backend) (Fits backend) (Follows backend) (IsMap backend)
    (fun _ _ event follows fits => follows_step follows event fits) (fun _ _ _ follows broken => step_lost follows broken)
    (fun _ _ follows => follows.isMap) _ [] follows_start events

end Steps

/-- SQLite, with the values `null`, `true` and `false`, and what SHA-1 makes of the name in question. -/
def sqlite : Backend (Option Bool) where
  json :=
    { null := none
      dumps
        | none => "null".toList
        | some true => "true".toList
        | some false => "false".toList
      loads text :=
        if text = "null".toList then some none
        else if text = "true".toList then some (some true)
        else if text = "false".toList then some (some false)
        else none
      loads_dumps := by rintro (_ | _ | _) <;> rfl }
  hexdigest _ := "53dab551701657356ed8b75653865a2e7a9c2f42".toList
  enforced := false

/-- The names of the calls. -/
def names : List (Event ι ν) → List Text
  | [] => []
  | .setState _ name _ :: rest | .atomicCreateState _ name _ :: rest => name :: names rest
  | .insert _ :: rest => names rest

def NoCollisions (backend : Backend ν) (names : List Text) : Prop :=
  ∀ name ∈ names, ∀ other ∈ names, backend.hexdigest name = backend.hexdigest other → name = other

/-- What was set under a name of 256 characters is not found. -/
theorem long_name_lost : ¬ ∀ events : List (Event Nat (Option Bool)), NoCollisions sqlite (names events) →
    (final (step sqlite) start events).IsMap sqlite (seen (step sqlite) start events) := by
  intro isMap
  let name := List.replicate 256 'x'
  have apart : NoCollisions sqlite (names [Event.setState 1 name (some true), .insert 0]) := by
    simp [NoCollisions, names]
  have read := (isMap [.setState 1 name (some true), .insert 0] apart).reads 1 name none (some true) (by decide +kernel)
  exact absurd read (by decide +kernel)

end ObjectState

end Umbilical.Db
