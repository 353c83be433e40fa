import Mathlib.Logic.Function.Basic
import Umbilical.Requests.Buildsets

set_option autoImplicit false

/-!
# The completion of buildsets

Processes on any masters add buildsets, claim, unclaim and complete requests, and
check after each completion whether a buildset has become complete. A process
waits for the database between any two of its transactions.
-/

namespace Umbilical.Requests

open Keyed Interleaving

/-- Where `maybeBuildsetComplete` is: what it asks the database next, or about to produce the event. -/
inductive Check where
  | incompleteRequests
  | allRequests
  | buildset (results : Option Int)
  | completeBuildset (results : Option Int)
  | complete (results : Option Int)
  deriving DecidableEq

/-- Where a process is. `brids` and `seen` are what is left of the loop of `completeBuildRequests`. -/
inductive Stage where
  | idle
  | completedBuildRequests (brids seen : List Nat)
  | maybeBuildsetComplete (bsid : Nat) (check : Check) (brids seen : List Nat)
  deriving DecidableEq

/-- About to produce the event of a buildset. -/
def Stage.Announcing (bsid : Nat) : Stage → Prop
  | .maybeBuildsetComplete other (.complete _) _ _ => other = bsid
  | _ => False

inductive Event (ν π : Type) where
  | addSourcestamp (row : SourceStampRow)
  | addChange (ssid : Nat)
  | addBuilder (builderid : Nat)
  | addBuildset (process : π) (new : NewBuildset ν)
  | update (process : π) (masterid : Nat) (operation : Operation)
  | proceed (process : π) (now : Int)
  | fail (process : π)

inductive Observation (π : Type) where
  | called (process : π) (bsid : Nat)
  | returned (process : π) (bsid : Nat)
  | completed (bsid : Nat) (results : Option Int)
  | produced (bsid : Nat) (results : Option Int)
  deriving DecidableEq

structure World (ν π : Type) where
  tables : Tables ν
  stages : π → Stage

namespace World

variable {ν π : Type} [DecidableEq π]

def start (foreignKeys : Bool) : World ν π where
  tables := .empty ν foreignKeys
  stages _ := .idle

variable (world : World ν π)

def become (process : π) (tables : Tables ν) (stage : Stage) : World ν π where
  tables := tables
  stages := Function.update world.stages process stage

/-- `maybeBuildsetComplete` is done, and the loop that has called it goes on. -/
def back (process : π) (tables : Tables ν) (bsid : Nat) (brids seen : List Nat) : World ν π × List (Observation π) :=
  (world.become process tables (.completedBuildRequests brids seen), [.returned process bsid])

def check (process : π) (bsid : Nat) (brids seen : List Nat) (now : Int) : Check → World ν π × List (Observation π)
  | .incompleteRequests =>
      if world.tables.getBuildRequests bsid (some false) ≠ [] then world.back process world.tables bsid brids seen
      else (world.become process world.tables (.maybeBuildsetComplete bsid .allRequests brids seen), [])
  | .allRequests =>
      let brdicts := world.tables.getBuildRequests bsid none
      let results := (brdicts.map BuildRequestRow.results).foldl worstStatus (some SUCCESS)
      (world.become process world.tables (.maybeBuildsetComplete bsid (.buildset results) brids seen), [])
  | .buildset results =>
      match world.tables.buildset bsid with
      | none => (world.become process world.tables .idle, [])
      | some row =>
          if row.complete ≠ 0 then world.back process world.tables bsid brids seen
          else (world.become process world.tables
            (.maybeBuildsetComplete bsid (.completeBuildset results) brids seen), [])
  | .completeBuildset results =>
      match world.tables.completeBuildset bsid results now with
      | (tables, some _) => world.back process tables bsid brids seen
      | (tables, none) => (world.become process tables
          (.maybeBuildsetComplete bsid (.complete results) brids seen), [.completed bsid results])
  | .complete results =>
      let (after, returned) := world.back process world.tables bsid brids seen
      (after, .produced bsid results :: returned)

/-- The loop of `completeBuildRequests` over the requests, with one check for each buildset. -/
def next (process : π) (seen : List Nat) : List Nat → World ν π × List (Observation π)
  | [] => (world.become process world.tables .idle, [])
  | brid :: brids =>
      match world.tables.getBuildRequest brid with
      | none => (world.become process world.tables (.completedBuildRequests brids seen), [])
      | some row =>
          if row.buildsetid ∈ seen then (world.become process world.tables (.completedBuildRequests brids seen), [])
          else (world.become process world.tables (.maybeBuildsetComplete row.buildsetid .incompleteRequests brids
            (row.buildsetid :: seen)), [.called process row.buildsetid])

/-- A build request update by a process that has nothing else to do. A completion is followed by the checks. -/
def update (process : π) (masterid : Nat) (operation : Operation) : World ν π × List (Observation π) :=
  match world.tables.update masterid operation, operation with
  | (tables, .ok true), .completeBuildRequests brids _ _ =>
      (world.become process tables (.completedBuildRequests brids []), [])
  | (tables, _), _ => (world.become process tables .idle, [])

def addBuildset (process : π) (new : NewBuildset ν) : World ν π × List (Observation π) :=
  match world.tables.addBuildset new with
  | .error _ => (world, [])
  | .ok tables =>
      if new.builderids = [] then (world.become process tables
        (.maybeBuildsetComplete new.bsid .incompleteRequests [] []), [.called process new.bsid])
      else (world.become process tables .idle, [])

def step : Event ν π → World ν π × List (Observation π)
  | .addSourcestamp row => ({ world with tables := world.tables.addSourcestamp row }, [])
  | .addChange ssid => ({ world with tables := world.tables.addChange ssid }, [])
  | .addBuilder builderid => ({ world with tables := world.tables.addBuilder builderid }, [])
  | .addBuildset process new =>
      if world.stages process = .idle ∧ world.tables.Admits new then world.addBuildset process new else (world, [])
  | .update process masterid operation =>
      if world.stages process = .idle then world.update process masterid operation else (world, [])
  | .proceed process now =>
      match world.stages process with
      | .idle => (world, [])
      | .completedBuildRequests brids seen => world.next process seen brids
      | .maybeBuildsetComplete bsid check brids seen => world.check process bsid brids seen now check
  | .fail process => (world.become process world.tables .idle, [])

/-- What a check knows when it has come so far. -/
def Knows (tables : Tables ν) (bsid : Nat) : Check → Prop
  | .incompleteRequests => True
  | .allRequests => tables.AllComplete bsid
  | .buildset results | .completeBuildset results => tables.Finished bsid results
  | .complete results => ∃ row ∈ tables.buildsets, row.id = bsid ∧ row.complete = 1 ∧ row.results = results

def Grounded (tables : Tables ν) : Stage → Prop
  | .maybeBuildsetComplete bsid check _ _ => (∃ row ∈ tables.buildsets, row.id = bsid) ∧ Knows tables bsid check
  | _ => True

structure Sound (world : World ν π) : Prop where
  tables : world.tables.Sound
  grounded : ∀ process, Grounded world.tables (world.stages process)

variable {world after : World ν π} {before tables : Tables ν} {stage : Stage} {observed : List (Observation π)}

theorem Grounded.grows (grows : before.Grows tables) (grounded : Grounded before stage) : Grounded tables stage := by
  cases stage with
  | idle => trivial
  | completedBuildRequests brids seen => trivial
  | maybeBuildsetComplete bsid check brids seen =>
    obtain ⟨known, knows⟩ := grounded
    refine ⟨grows.exists_buildset known, ?_⟩
    cases check with
    | incompleteRequests => trivial
    | allRequests => exact grows.allComplete known knows
    | buildset results => exact grows.finished known knows
    | completeBuildset results => exact grows.finished known knows
    | complete results =>
      obtain ⟨row, member, same, complete, recorded⟩ := knows
      obtain ⟨later, there, -, stays⟩ := grows.buildsets row member
      obtain rfl := stays complete
      exact ⟨later, there, same, complete, recorded⟩

theorem Sound.become (sound : world.Sound) (grows : world.tables.Grows tables) (soundTables : tables.Sound)
    (grounded : Grounded tables stage) (process : π) : (world.become process tables stage).Sound where
  tables := soundTables
  grounded other := by
    by_cases same : other = process
    · subst same
      simpa [World.become] using grounded
    · simpa [World.become, same] using (sound.grounded other).grows grows

/-- An observation by which no buildset is completed: at a return, the buildset is complete if its requests are. -/
def Quiet (before after : Tables ν) : Observation π → Prop
  | .called _ _ => True
  | .returned _ bsid => before.AllComplete bsid → ∃ row ∈ after.buildsets, row.id = bsid ∧ row.complete = 1
  | .completed _ _ | .produced _ _ => False

/-- What one step can do. -/
inductive Move (world : World ν π) : World ν π → List (Observation π) → Prop where
  | still (tables : Tables ν) (grows : world.tables.Grows tables) (sound : tables.Sound) :
      Move world { world with tables := tables } []
  | quiet (process : π) (tables : Tables ν) (stage : Stage) (observed : List (Observation π))
      (grows : world.tables.Grows tables) (sound : tables.Sound) (grounded : Grounded tables stage)
      (calm : ∀ bsid, ¬ stage.Announcing bsid) (silent : ∀ seen ∈ observed, Quiet world.tables tables seen) :
      Move world (world.become process tables stage) observed
  | completed (process : π) (bsid : Nat) (results : Option Int) (brids seen : List Nat) (row : BuildsetRow)
      (tables : Tables ν) (finished : world.tables.Finished bsid results)
      (isOpen : row ∈ world.tables.buildsets ∧ row.id = bsid ∧ row.complete ≠ 1)
      (done : ∃ row ∈ tables.buildsets, row.id = bsid ∧ row.complete = 1 ∧ row.results = results)
      (grows : world.tables.Grows tables) (sound : tables.Sound) :
      Move world (world.become process tables (.maybeBuildsetComplete bsid (.complete results) brids seen))
        [.completed bsid results]
  | produced (process : π) (bsid : Nat) (results : Option Int) (brids seen : List Nat)
      (stage : world.stages process = .maybeBuildsetComplete bsid (.complete results) brids seen)
      (done : ∃ row ∈ world.tables.buildsets, row.id = bsid ∧ row.complete = 1 ∧ row.results = results) :
      Move world (world.become process world.tables (.completedBuildRequests brids seen))
        [.produced bsid results, .returned process bsid]

theorem Sound.move (sound : world.Sound) (move : Move world after observed) :
    after.Sound ∧ world.tables.Grows after.tables := by
  cases move with
  | still tables grows soundTables =>
    exact ⟨⟨soundTables, fun process => (sound.grounded process).grows grows⟩, grows⟩
  | quiet process tables stage observed grows soundTables grounded => exact ⟨sound.become grows soundTables grounded _, grows⟩
  | completed process bsid results brids seen row tables finished isOpen done grows soundTables =>
    obtain ⟨later, there, same, complete, recorded⟩ := done
    have grounded : Grounded tables (.maybeBuildsetComplete bsid (.complete results) brids seen) :=
      ⟨⟨later, there, same⟩, later, there, same, complete, recorded⟩
    exact ⟨sound.become grows soundTables grounded process, grows⟩
  | produced process bsid results brids seen stage done =>
    have grounded : Grounded world.tables (.completedBuildRequests brids seen) := trivial
    exact ⟨sound.become (.refl _) sound.tables grounded process, .refl _⟩

theorem Sound.update_move (sound : world.Sound) (process : π) (masterid : Nat) (operation : Operation) :
    Move world (world.update process masterid operation).1 (world.update process masterid operation).2 := by
  have growth : (world.tables.update masterid operation).1.Sound ∧
      world.tables.Grows (world.tables.update masterid operation).1 := by
    have unchanged : world.tables.Sound ∧ world.tables.Grows world.tables := ⟨sound.tables, .refl _⟩
    rcases Tables.update_execute world.tables masterid operation with same | same
    · rwa [same]
    · rw [same]
      rcases Tables.execute_effect sound.tables.toKeyed masterid operation with same | effect
      · rwa [same]
      · exact ⟨sound.tables.effect effect, effect.grows sound.tables.toKeyed⟩
  obtain ⟨soundTables, grows⟩ := growth
  have quiet : ∀ stage : Stage, Grounded (world.tables.update masterid operation).1 stage →
      (∀ bsid, ¬ stage.Announcing bsid) →
      Move world (world.become process (world.tables.update masterid operation).1 stage) [] :=
    fun stage grounded calm => .quiet _ _ _ [] grows soundTables grounded calm nofun
  unfold World.update
  split
  next tables brids _ _ updated =>
    rw [updated] at quiet
    exact quiet _ trivial fun _ => nofun
  next tables answer _ updated =>
    rw [updated] at quiet
    exact quiet _ trivial fun _ => nofun

theorem Sound.addBuildset_move (sound : world.Sound) (process : π) {new : NewBuildset ν}
    (admits : world.tables.Admits new) :
    Move world (world.addBuildset process new).1 (world.addBuildset process new).2 := by
  unfold World.addBuildset
  split
  next => exact .still _ (.refl _) sound.tables
  next tables added =>
    have grows := Tables.Grows.addBuildset admits added
    have soundTables := sound.tables.addBuildset admits added
    split_ifs
    · have known : ∃ row ∈ tables.buildsets, row.id = new.bsid := by
        obtain ⟨-, rfl⟩ := Tables.addBuildset_eq_ok added
        exact ⟨_, List.mem_append_right _ (List.mem_singleton_self _), rfl⟩
      exact .quiet _ _ _ _ grows soundTables ⟨known, trivial⟩ (fun _ => nofun) (by simp [Quiet])
    · exact .quiet _ _ _ [] grows soundTables trivial (fun _ => nofun) nofun

theorem Sound.next_move (sound : world.Sound) (process : π) (seen brids : List Nat) :
    Move world (world.next process seen brids).1 (world.next process seen brids).2 := by
  have quiet : ∀ stage : Stage, Grounded world.tables stage → (∀ bsid, ¬ stage.Announcing bsid) →
      Move world (world.become process world.tables stage) [] :=
    fun stage grounded calm => .quiet _ _ _ [] (.refl _) sound.tables grounded calm nofun
  cases brids with
  | nil => exact quiet _ trivial fun _ => nofun
  | cons brid brids =>
    simp only [World.next]
    split
    next => exact quiet _ trivial fun _ => nofun
    next row found =>
      split_ifs
      · exact quiet _ trivial fun _ => nofun
      · have there := (mem_of_lookup (Option.filter_eq_some_iff.mp found).1).1
        refine .quiet _ _ _ _ (.refl _) sound.tables ⟨sound.tables.buildset row there, trivial⟩ (fun _ => nofun) ?_
        simp [Quiet]

/-- A return to the loop without anything having changed. -/
theorem Sound.back_move (sound : world.Sound) (process : π) {bsid : Nat} (brids seen : List Nat)
    (told : world.tables.AllComplete bsid → ∃ row ∈ world.tables.buildsets, row.id = bsid ∧ row.complete = 1) :
    Move world (world.back process world.tables bsid brids seen).1
      (world.back process world.tables bsid brids seen).2 :=
  .quiet _ _ _ _ (.refl _) sound.tables trivial (fun _ => nofun) (by simpa [World.back, Quiet] using told)

theorem Sound.check_move (sound : world.Sound) {process : π} {bsid : Nat} {check : Check} {brids seen : List Nat}
    (stage : world.stages process = .maybeBuildsetComplete bsid check brids seen) (now : Int) :
    Move world (world.check process bsid brids seen now check).1 (world.check process bsid brids seen now check).2 := by
  have grounded := sound.grounded process
  rw [stage] at grounded
  obtain ⟨known, knows⟩ := grounded
  have quiet : ∀ stage : Stage, Grounded world.tables stage → (∀ bsid, ¬ stage.Announcing bsid) →
      Move world (world.become process world.tables stage) [] :=
    fun stage grounded calm => .quiet _ _ _ [] (.refl _) sound.tables grounded calm (List.forall_mem_nil _)
  cases check with
  | incompleteRequests =>
    simp only [World.check]
    split_ifs with some
    · refine sound.back_move process brids seen fun all => ?_
      obtain ⟨row, member⟩ := List.exists_mem_of_ne_nil _ some
      obtain ⟨there, within, running⟩ := sound.tables.mem_getBuildRequests.mp member
      have complete := all row there within
      simp [Tables.hasComplete, complete] at running
    · -- no request that the join finds is incomplete, and it finds all of them
      refine quiet _ ⟨known, fun row member within => ?_⟩ (by simp [Stage.Announcing])
      rcases sound.tables.flags row member with running | complete
      · refine absurd ?_ some
        apply List.ne_nil_of_mem
        exact sound.tables.mem_getBuildRequests.mpr ⟨member, within, by simp [Tables.hasComplete, running]⟩
      · exact complete
  | allRequests =>
    refine quiet _ ⟨known, knows, ?_⟩ (by simp [Stage.Announcing])
    obtain ⟨result, folded, worst⟩ := foldl_worstStatus_worst (show SUCCESS ∈ severity by decide)
      ((world.tables.getBuildRequests bsid none).map BuildRequestRow.results)
    have among : ∀ other, some other ∈ (world.tables.getBuildRequests bsid none).map BuildRequestRow.results ↔
        some other ∈ world.tables.requestResults bsid := by
      intro other
      simp [Tables.requestResults, sound.tables.mem_getBuildRequests, Tables.hasComplete, and_assoc]
    refine ⟨result, folded, worst.known, ?_, fun other member => worst.least other ?_⟩
    · simpa only [List.mem_cons, among] using worst.member
    · simpa only [List.mem_cons, among] using member
  | buildset results =>
    simp only [World.check]
    split
    next missing =>
      obtain ⟨row, member, same⟩ := known
      exact absurd same (lookup_eq_none.mp missing row member)
    next row found =>
      obtain ⟨there, same⟩ := mem_of_lookup found
      split_ifs with complete
      · refine sound.back_move process brids seen fun _ => ⟨row, there, same, ?_⟩
        rcases sound.tables.finished row there with running | ⟨complete, -⟩
        · contradiction
        · exact complete
      · exact quiet _ ⟨known, knows⟩ (by simp [Stage.Announcing])
  | completeBuildset results =>
    obtain ⟨row, there, rfl⟩ := known
    obtain ⟨taken, succeeds, done⟩ := sound.tables.completeBuildset_spec there results now
    have soundTables := sound.tables.completeBuildset knows now
    have grows : world.tables.Grows (world.tables.completeBuildset row.id results now).1 := .completeBuildset
    by_cases complete : row.complete = 1
    · simp only [World.check, taken complete]
      exact sound.back_move process brids seen fun _ => ⟨row, there, rfl, complete⟩
    · have success := succeeds complete
      simp only [World.check]
      generalize world.tables.completeBuildset row.id results now = outcome at success soundTables grows done ⊢
      obtain ⟨tables, error⟩ := outcome
      cases success
      exact .completed process row.id results brids seen row tables knows ⟨there, rfl, complete⟩ (done complete) grows soundTables
  | complete results => exact .produced process bsid results brids seen stage knows

theorem Sound.step_move (sound : world.Sound) (event : Event ν π) :
    Move world (world.step event).1 (world.step event).2 := by
  cases event with
  | addSourcestamp row => exact .still _ (.of_same rfl rfl) (sound.tables.addSourcestamp row)
  | addChange ssid => exact .still _ (.of_same rfl rfl) (sound.tables.addChange ssid)
  | addBuilder builderid => exact .still _ (.of_same rfl rfl) (sound.tables.addBuilder builderid)
  | addBuildset process new =>
    simp only [World.step]
    split_ifs with may
    · exact sound.addBuildset_move process may.2
    · exact .still _ (.refl _) sound.tables
  | update process masterid operation =>
    simp only [World.step]
    split_ifs
    · exact sound.update_move process masterid operation
    · exact .still _ (.refl _) sound.tables
  | proceed process now =>
    simp only [World.step]
    split
    next => exact .still _ (.refl _) sound.tables
    next => exact sound.next_move process _ _
    next stage => exact sound.check_move stage now
  | fail process => exact .quiet _ _ _ [] (.refl _) sound.tables trivial (fun _ => nofun) nofun

omit [DecidableEq π] in
theorem start_sound (foreignKeys : Bool) : (start foreignKeys : World ν π).Sound where
  tables := Tables.empty_sound foreignKeys
  grounded _ := trivial

theorem run_sound (foreignKeys : Bool) (events : List (Event ν π)) :
    (final step (start foreignKeys) events).Sound := by
  have preserved : ∀ (world : World ν π) event, world.Sound → (world.step event).1.Sound :=
    fun _ event sound => (sound.move (sound.step_move event)).1
  exact final_of_step preserved (start_sound foreignKeys) events

def Observation.completes (bsid : Nat) : Observation π → Bool
  | .completed other _ => other = bsid
  | _ => false

def Observation.produces (bsid : Nat) : Observation π → Bool
  | .produced other _ => other = bsid
  | _ => false

/-- What has been seen of a buildset fits where it is and where the processes are. -/
structure Told (bsid : Nat) (world : World ν π) (past : List (Observation π)) : Prop where
  once : past.countP (Observation.completes bsid) ≤ 1
  spent : past.countP (Observation.completes bsid) = 1 → ∃ row ∈ world.tables.buildsets, row.id = bsid ∧ row.complete = 1
  produced : past.countP (Observation.produces bsid) ≤ past.countP (Observation.completes bsid)
  pending : ∀ process, (world.stages process).Announcing bsid →
    past.countP (Observation.produces bsid) = 0 ∧ past.countP (Observation.completes bsid) = 1
  single : ∀ process other, (world.stages process).Announcing bsid → (world.stages other).Announcing bsid →
    process = other

theorem become_announcing {process other : π} {bsid : Nat}
    (announcing : ((world.become process tables stage).stages other).Announcing bsid) :
    other = process ∧ stage.Announcing bsid ∨ other ≠ process ∧ (world.stages other).Announcing bsid := by
  by_cases same : other = process
  · subst same
    exact .inl ⟨rfl, by simpa [World.become] using announcing⟩
  · exact .inr ⟨same, by simpa [World.become, same] using announcing⟩

omit [DecidableEq π] in
/-- A step in which nothing is seen of a buildset and nobody comes to announce it. -/
theorem Told.aside {bsid : Nat} {past : List (Observation π)} (told : Told bsid world past)
    (stays : (∃ row ∈ world.tables.buildsets, row.id = bsid ∧ row.complete = 1) →
      ∃ row ∈ after.tables.buildsets, row.id = bsid ∧ row.complete = 1)
    (earlier : ∀ other, (after.stages other).Announcing bsid → (world.stages other).Announcing bsid)
    (completes : observed.countP (Observation.completes bsid) = 0)
    (produces : observed.countP (Observation.produces bsid) = 0) : Told bsid after (past ++ observed) := by
  have completed : (past ++ observed).countP (Observation.completes bsid) = past.countP (Observation.completes bsid) := by
    rw [List.countP_append, completes, Nat.add_zero]
  have produced : (past ++ observed).countP (Observation.produces bsid) = past.countP (Observation.produces bsid) := by
    rw [List.countP_append, produces, Nat.add_zero]
  refine ⟨?_, fun seen => ?_, ?_, fun other announcing => ?_, fun first second one two => ?_⟩
  · rw [completed]
    exact told.once
  · rw [completed] at seen
    exact stays (told.spent seen)
  · rw [completed, produced]
    exact told.produced
  · rw [completed, produced]
    exact told.pending other (earlier other announcing)
  · exact told.single first second (earlier first one) (earlier second two)

theorem Told.move {bsid : Nat} {past : List (Observation π)} (told : Told bsid world past) (sound : world.Sound)
    (move : Move world after observed) : Told bsid after (past ++ observed) := by
  have grows := (sound.move move).2
  have stays : (∃ row ∈ world.tables.buildsets, row.id = bsid ∧ row.complete = 1) →
      ∃ row ∈ after.tables.buildsets, row.id = bsid ∧ row.complete = 1 := by
    rintro ⟨row, there, same, complete⟩
    obtain ⟨later, member, -, unchanged⟩ := grows.buildsets row there
    obtain rfl := unchanged complete
    exact ⟨later, member, same, complete⟩
  cases move with
  | still tables => exact told.aside stays (fun _ announcing => announcing) rfl rfl
  | quiet process tables stage observed _ _ _ calm silent =>
    apply told.aside stays
    · intro other announcing
      rcases become_announcing announcing with ⟨-, now⟩ | ⟨-, before⟩
      · exact absurd now (calm bsid)
      · exact before
    · refine List.countP_eq_zero.mpr fun seen member => ?_
      have quiet := silent seen member
      cases seen with
      | completed => exact quiet.elim
      | _ => exact Bool.false_ne_true
    · refine List.countP_eq_zero.mpr fun seen member => ?_
      have quiet := silent seen member
      cases seen with
      | produced => exact quiet.elim
      | _ => exact Bool.false_ne_true
  | completed process other results brids seen row tables finished isOpen done =>
    obtain ⟨there, same, running⟩ := isOpen
    by_cases mine : other = bsid
    · subst mine
      -- the buildset has been open, so nothing has been seen of it
      have unseen : past.countP (Observation.completes other) = 0 := by
        by_contra some
        obtain ⟨old, member, identical, complete⟩ := told.spent (by have := told.once; omega)
        have equal := sound.tables.keys.eq_of_key member there (identical.trans same.symm)
        exact running (equal ▸ complete)
      have silent : past.countP (Observation.produces other) = 0 := by have := told.produced; omega
      have only : ∀ announcer, ((world.become process tables (.maybeBuildsetComplete other (.complete results) brids
          seen)).stages announcer).Announcing other → announcer = process := by
        intro announcer announcing
        rcases become_announcing announcing with ⟨same, -⟩ | ⟨-, before⟩
        · exact same
        · have := (told.pending announcer before).2
          omega
      refine ⟨?_, fun _ => ?_, ?_, fun _ _ => ?_, fun first second one two => ?_⟩
      · simp [List.countP_append, unseen, Observation.completes]
      · obtain ⟨later, member, identical, complete, -⟩ := done
        exact ⟨later, member, identical, complete⟩
      · simp [List.countP_append, silent, Observation.produces]
      · simp [List.countP_append, unseen, silent, Observation.completes, Observation.produces]
      · exact (only first one).trans (only second two).symm
    · apply told.aside stays
      · intro announcer announcing
        rcases become_announcing announcing with ⟨-, now⟩ | ⟨-, before⟩
        · exact absurd now mine
        · exact before
      · simp [Observation.completes, mine]
      · simp [Observation.produces]
  | produced process other results brids seen stage done =>
    have announcing : ∀ announcer, ((world.become process world.tables (.completedBuildRequests brids seen)).stages
        announcer).Announcing bsid → announcer ≠ process ∧ (world.stages announcer).Announcing bsid := by
      intro announcer announcing
      rcases become_announcing announcing with ⟨-, now⟩ | before
      · exact now.elim
      · exact before
    by_cases mine : other = bsid
    · subst mine
      have mine : (world.stages process).Announcing other := by rw [stage]; rfl
      obtain ⟨silent, once⟩ := told.pending process mine
      have nobody : ∀ announcer, ¬ ((world.become process world.tables (.completedBuildRequests brids seen)).stages
          announcer).Announcing other := by
        intro announcer now
        obtain ⟨different, before⟩ := announcing announcer now
        exact different (told.single announcer process before mine)
      refine ⟨?_, fun _ => stays (told.spent once), ?_, fun announcer now => absurd now (nobody announcer),
        fun first _ now => absurd now (nobody first)⟩
      · simp [List.countP_append, once, Observation.completes]
      · simp [List.countP_append, once, silent, Observation.completes, Observation.produces]
    · apply told.aside stays
      · exact fun announcer now => (announcing announcer now).2
      · simp [Observation.completes]
      · simp [Observation.produces, mine]

/-- What an observation says of the tables before and after the step. -/
def Means (before after : Tables ν) : Observation π → Prop
  | .called _ _ => True
  | .returned _ bsid => before.AllComplete bsid → ∃ row ∈ after.buildsets, row.id = bsid ∧ row.complete = 1
  | .completed bsid results => before.Finished bsid results
  | .produced bsid results => ∃ row ∈ before.buildsets, row.id = bsid ∧ row.complete = 1 ∧ row.results = results

omit [DecidableEq π] in
theorem Quiet.means {seen : Observation π} (quiet : Quiet before tables seen) : Means before tables seen := by
  cases seen with
  | called => trivial
  | returned => exact quiet
  | completed => exact quiet.elim
  | produced => exact quiet.elim

theorem Move.means (move : Move world after observed) : ∀ seen ∈ observed, Means world.tables after.tables seen := by
  intro seen member
  cases move with
  | still => cases member
  | quiet process tables stage observed _ _ _ _ silent => exact (silent seen member).means
  | completed process bsid results brids before row tables finished =>
    obtain rfl := List.mem_singleton.mp member
    exact finished
  | produced process bsid results brids before stage done =>
    rcases List.mem_cons.mp member with rfl | member
    · exact done
    · obtain rfl := List.mem_singleton.mp member
      obtain ⟨row, there, same, complete, -⟩ := done
      exact fun _ => ⟨row, there, same, complete⟩

theorem run_told (foreignKeys : Bool) (events : List (Event ν π)) (bsid : Nat) :
    Told bsid (final step (start foreignKeys) events) (seen step (start foreignKeys) events) := by
  let invariant (world : World ν π) (past : List (Observation π)) := world.Sound ∧ Told bsid world past
  have preserved : ∀ world past event, invariant world past →
      invariant (world.step event).1 (past ++ (world.step event).2) := by
    rintro world past event ⟨sound, told⟩
    have move := sound.step_move event
    exact ⟨(sound.move move).1, told.move sound move⟩
  have initially : invariant (start foreignKeys) [] :=
    ⟨start_sound foreignKeys, by simp, by simp, by simp, nofun, nofun⟩
  exact (history_of_step preserved initially events).2

end World

end Umbilical.Requests
