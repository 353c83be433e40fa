import Umbilical.Schedulers.Base
import Umbilical.Shared.Refusals
import Mathlib.Data.List.Forall2
import Mathlib.Data.List.Dedup

set_option autoImplicit false

/-!
# What becomes of the source stamps

What is given for a configured codebase replaces the defaults. For any other codebase the
defaults are filled in from what is given, which loses the project and the patch.
-/

namespace Umbilical.Schedulers.BaseScheduler

variable {ν : Type} (self : BaseScheduler ν)

/-! ## What a stamp should be -/

/-- What the scheduler has for a codebase: nothing if the codebase is not configured. -/
def codebaseDict (codebase : String) : Dict String Attribute :=
  match self.codebases.get codebase with
  | some configured => (self.lastCodebases.get codebase).getD configured
  | none => Dict.empty

/-- The attributes that are not given. -/
def defaults (codebase : String) (cb : Dict String Attribute) (key : String) : Option Attribute :=
  if key = "project" then some (.text "")
  else if key = "revision" then some ((cb.get "revision").getD .none)
  else if key = "branch" then some ((cb.get "branch").getD .none)
  else if key = "repository" then some ((cb.get "repository").getD (.text ""))
  else if key = "codebase" then some (.text codebase)
  else none

/-- Each attribute as it is given for the codebase, and its default otherwise. -/
def expected (given : List PassedStamp) (codebase key : String) : Option Attribute :=
  ((given.find? fun ss => ss.codebase = codebase).bind fun ss => ss.dict.get key).or
    (defaults codebase (self.codebaseDict codebase) key)

/-- One source stamp for each codebase that is configured or given, with the expected attributes. -/
def Faithful (given : List PassedStamp) (created : NewBuildset ν) : Prop :=
  ∃ codebases stamps, created.sourcestamps = stamps.map .dict ∧ codebases.Nodup ∧
    (∀ codebase, codebase ∈ codebases ↔ codebase ∈ self.codebases.keys ∨ ∃ ss ∈ given, ss.codebase = codebase) ∧
    List.Forall₂ (fun codebase (stamp : Dict String Attribute) => ∀ key, stamp.get key = self.expected given codebase key)
      codebases stamps

/-- What should come of the call. -/
def Reached (given : List PassedStamp) (outcome : Except SchedulerError (Heap ν × NewBuildset ν)) : Prop :=
  if (given.map PassedStamp.codebase).Nodup then ∃ heap created, outcome = .ok (heap, created) ∧ self.Faithful given created
  else ∃ error, outcome = .error error

/-- For the codebases that are not configured, the given stamps have no project and no patch. -/
def Fits (given : List PassedStamp) : Prop :=
  ∀ ss ∈ given, ss.codebase ∉ self.codebases.keys → ∀ key value, ss.dict.get key = some value →
    key ∈ ["codebase", "repository", "branch", "revision"] ∨ key = "project" ∧ value = .text ""

/-! ## What the loops make of them -/

theorem get_withDefaults (codebase : String) (cb : Dict String Attribute) (key : String) :
    (withDefaults codebase cb).get key = defaults codebase cb key := by
  simp [withDefaults, Dict.ofItems, defaults]

/-- Codebases that are all different, and different from those before. -/
def Fresh (stamps : Dict String PassedStamp) (given : List PassedStamp) : Prop :=
  (given.map PassedStamp.codebase).Nodup ∧ ∀ ss ∈ given, stamps.get ss.codebase = none

theorem fresh_cons {stamps : Dict String PassedStamp} {ss : PassedStamp} {rest : List PassedStamp}
    (known : stamps.get ss.codebase = none) : Fresh (stamps.set ss.codebase ss) rest ↔ Fresh stamps (ss :: rest) := by
  unfold Fresh
  rw [List.map_cons, List.nodup_cons]
  constructor
  · rintro ⟨distinct, fresh⟩
    refine ⟨⟨fun member => ?_, distinct⟩, fun other among => ?_⟩
    · obtain ⟨other, among, equal⟩ := List.mem_map.mp member
      have absent := fresh other among
      rw [Dict.get_set, if_pos equal] at absent
      cases absent
    · rcases List.mem_cons.mp among with rfl | among
      · exact known
      · have absent := fresh other among
        rw [Dict.get_set] at absent
        split at absent
        · cases absent
        · exact absent
  · rintro ⟨⟨single, distinct⟩, fresh⟩
    refine ⟨distinct, fun other among => ?_⟩
    rw [Dict.get_set, if_neg fun equal => single (List.mem_map.mpr ⟨other, among, equal⟩)]
    exact fresh other (List.mem_cons_of_mem _ among)

theorem addStamps_spec (stamps : Dict String PassedStamp) (given : List PassedStamp) :
    (Fresh stamps given → ∃ after, given.foldlM addStamp stamps = .ok after ∧
      ∀ codebase, after.get codebase = (given.find? fun ss => ss.codebase = codebase).or (stamps.get codebase)) ∧
    (¬ Fresh stamps given → ∃ error, given.foldlM addStamp stamps = .error error) := by
  induction given generalizing stamps with
  | nil => exact ⟨fun _ => ⟨stamps, rfl, fun _ => rfl⟩, fun stale => absurd ⟨List.nodup_nil, by simp⟩ stale⟩
  | cons ss rest ih =>
    rw [List.foldlM_cons]
    cases known : stamps.get ss.codebase with
    | some other =>
      have refused : addStamp stamps ss = .error (.RuntimeError "multiple sourcestamps with same codebase") := by
        simp [addStamp, known]
      rw [refused]
      refine ⟨fun fresh => ?_, fun _ => ⟨_, rfl⟩⟩
      have absent := fresh.2 ss List.mem_cons_self
      rw [known] at absent
      cases absent
    | none =>
      have added : addStamp stamps ss = .ok (stamps.set ss.codebase ss) := by simp [addStamp, known]
      obtain ⟨accepted, refused⟩ := ih (stamps.set ss.codebase ss)
      rw [fresh_cons known] at accepted refused
      rw [added]
      refine ⟨fun fresh => ?_, refused⟩
      obtain ⟨after, result, found⟩ := accepted fresh
      refine ⟨after, result, fun codebase => ?_⟩
      rw [found, Dict.get_set, List.find?_cons]
      by_cases equal : ss.codebase = codebase
      · -- the codebase does not come again
        have single : ss.codebase ∉ rest.map PassedStamp.codebase := (List.nodup_cons.mp fresh.1).1
        have gone : rest.find? (fun other => other.codebase = codebase) = none := by
          rw [List.find?_eq_none]
          intro other among same
          exact single (equal ▸ of_decide_eq_true same ▸ List.mem_map_of_mem among)
        simp [equal, gone]
      · simp [equal, Ne.symm equal]

theorem stampsByCodebase_spec (given : List PassedStamp) :
    ((given.map PassedStamp.codebase).Nodup → ∃ stamps, stampsByCodebase given = .ok stamps ∧
      ∀ codebase, stamps.get codebase = given.find? fun ss => ss.codebase = codebase) ∧
    (¬ (given.map PassedStamp.codebase).Nodup → ∃ error, stampsByCodebase given = .error error) := by
  have fresh : Fresh Dict.empty given ↔ (given.map PassedStamp.codebase).Nodup := by simp [Fresh]
  have whole := addStamps_spec Dict.empty given
  rw [fresh] at whole
  simpa [stampsByCodebase] using whole

/-- The stamp that the call makes for a codebase. -/
def made (given : List PassedStamp) (codebase : String) : Dict String Attribute :=
  if codebase ∈ self.codebases.keys then
    (withDefaults codebase (self.codebaseDict codebase)).update
      ((given.find? fun ss => ss.codebase = codebase).elim Dict.empty PassedStamp.dict)
  else withDefaults codebase ((given.find? fun ss => ss.codebase = codebase).elim Dict.empty PassedStamp.dict)

theorem stampsWithDefaults_spec (iteration : SetOrder) (given : List PassedStamp)
    (distinct : (given.map PassedStamp.codebase).Nodup) :
    ∃ codebases : List String, self.stampsWithDefaults iteration given = .ok (codebases.map (self.made given)) ∧ codebases.Nodup ∧
      ∀ codebase, codebase ∈ codebases ↔ codebase ∈ self.codebases.keys ∨ ∃ ss ∈ given, ss.codebase = codebase := by
  obtain ⟨stamps, read, found⟩ := (stampsByCodebase_spec given).1 distinct
  have among (codebase : String) : codebase ∈ stamps.keys ↔ ∃ ss ∈ given, ss.codebase = codebase := by
    rw [← Dict.isSome_get, found, List.find?_isSome]
    simp
  have configured : self.codebases.keys.mapM (self.configuredStamp stamps) =
      .ok (self.codebases.keys.map (self.made given)) := by
    rw [Refusals.mapM_eq_ok, List.map_map]
    refine List.map_congr_left fun codebase member => ?_
    obtain ⟨attributes, known⟩ := Option.isSome_iff_exists.mp ((self.codebases.isSome_get codebase).mpr member)
    have dict : self.getCodebaseDict codebase = .ok (self.codebaseDict codebase) := by
      unfold getCodebaseDict codebaseDict
      rw [known]
    simp only [Function.comp, made]
    rw [configuredStamp, dict, if_pos member, found]
    rfl
  have supplied : (iteration.order (stamps.keys.filter fun codebase => codebase ∉ self.codebases.keys)).mapM
      (suppliedStamp stamps) =
      .ok ((iteration.order (stamps.keys.filter fun codebase => codebase ∉ self.codebases.keys)).map (self.made given)) := by
    rw [Refusals.mapM_eq_ok, List.map_map]
    refine List.map_congr_left fun codebase member => ?_
    have kept := (iteration.perm _).mem_iff.mp member
    obtain ⟨inside, outside⟩ := List.mem_filter.mp kept
    obtain ⟨ss, known⟩ := Option.isSome_iff_exists.mp ((stamps.isSome_get codebase).mpr inside)
    simp only [Function.comp, made]
    rw [suppliedStamp, known, if_neg (by simpa using outside), ← found, known]
    rfl
  refine ⟨self.codebases.keys ++ iteration.order (stamps.keys.filter fun codebase => codebase ∉ self.codebases.keys),
    ?_, ?_, fun codebase => ?_⟩
  · rw [stampsWithDefaults, read]
    change (do
      let first ← self.codebases.keys.mapM (self.configuredStamp stamps)
      let second ← (iteration.order (stamps.keys.filter fun codebase => codebase ∉ self.codebases.keys)).mapM
        (suppliedStamp stamps)
      return first ++ second) = _
    rw [configured, supplied, List.map_append]
    rfl
  · rw [List.nodup_append]
    refine ⟨self.codebases.distinct, ?_, fun first inside second outside same => ?_⟩
    · exact (iteration.perm _).nodup_iff.mpr (stamps.distinct.filter _)
    · have kept := (List.mem_filter.mp ((iteration.perm _).mem_iff.mp outside)).2
      exact absurd (same ▸ inside) (by simpa using kept)
  · rw [List.mem_append, (iteration.perm _).mem_iff, List.mem_filter, among]
    by_cases inside : codebase ∈ self.codebases.keys
    · simp [inside]
    · simp [inside]

/-! ## What is lost -/

theorem made_codebase (given : List PassedStamp) (codebase : String) :
    (self.made given codebase).get "codebase" = some (.text codebase) := by
  unfold made
  cases found : given.find? fun ss => ss.codebase = codebase with
  | none =>
    split
    · rw [Dict.get_update, get_withDefaults]
      rfl
    · rw [get_withDefaults]
      rfl
  | some ss =>
    have same : ss.codebase = codebase := by simpa using List.find?_some found
    split
    · rw [Dict.get_update, Option.elim_some, ss.named, same]
      rfl
    · rw [get_withDefaults]
      rfl

theorem expected_codebase (given : List PassedStamp) (codebase : String) :
    self.expected given codebase "codebase" = some (.text codebase) := by
  unfold expected
  cases found : given.find? fun ss => ss.codebase = codebase with
  | none => rfl
  | some ss =>
    have same : ss.codebase = codebase := by simpa using List.find?_some found
    rw [Option.bind_some, ss.named, same]
    rfl

/-- A configured codebase gets what is given for it. -/
theorem made_of_configured (given : List PassedStamp) {codebase : String} (member : codebase ∈ self.codebases.keys)
    (key : String) : (self.made given codebase).get key = self.expected given codebase key := by
  rw [made, if_pos member, Dict.get_update, get_withDefaults, expected]
  cases given.find? fun ss => ss.codebase = codebase <;> rfl

/-- Any other codebase gets it as far as the stamp fits. -/
theorem made_of_supplied (given : List PassedStamp) {ss : PassedStamp} (outside : ss.codebase ∉ self.codebases.keys)
    (found : (given.find? fun other => other.codebase = ss.codebase) = some ss) :
    (∀ key, (self.made given ss.codebase).get key = self.expected given ss.codebase key) ↔
      ∀ key value, ss.dict.get key = some value →
        key ∈ ["codebase", "repository", "branch", "revision"] ∨ key = "project" ∧ value = .text "" := by
  have nothing : self.codebaseDict ss.codebase = Dict.empty := by
    have absent : self.codebases.get ss.codebase = none := by
      rw [← Option.not_isSome_iff_eq_none, Dict.isSome_get]
      exact outside
    rw [codebaseDict, absent]
  have each (key : String) : (self.made given ss.codebase).get key = self.expected given ss.codebase key ↔
      ∀ value, ss.dict.get key = some value →
        key ∈ ["codebase", "repository", "branch", "revision"] ∨ key = "project" ∧ value = .text "" := by
    rw [made, if_neg outside, get_withDefaults, expected, found, nothing, Option.bind_some, Option.elim_some]
    -- the attributes that are read again come out as they were
    have read (name : String) (value : Attribute) (given_ : name ∈ ["codebase", "repository", "branch", "revision"])
        (first : defaults ss.codebase ss.dict name = some ((ss.dict.get name).getD value))
        (second : defaults ss.codebase Dict.empty name = some value) :
        defaults ss.codebase ss.dict name = (ss.dict.get name).or (defaults ss.codebase Dict.empty name) ↔
          ∀ value, ss.dict.get name = some value →
            name ∈ ["codebase", "repository", "branch", "revision"] ∨ name = "project" ∧ value = .text "" := by
      refine iff_of_true ?_ fun _ _ => .inl given_
      rw [first, second]
      cases ss.dict.get name <;> rfl
    by_cases codebase : key = "codebase"
    · subst codebase
      apply read "codebase" (.text ss.codebase) (by simp) _ rfl
      rw [ss.named]
      rfl
    by_cases repository : key = "repository"
    · subst repository
      exact read "repository" (.text "") (by simp) rfl rfl
    by_cases branch : key = "branch"
    · subst branch
      exact read "branch" .none (by simp) rfl rfl
    by_cases revision : key = "revision"
    · subst revision
      exact read "revision" .none (by simp) rfl rfl
    have other : key ∉ ["codebase", "repository", "branch", "revision"] := by
      simp [codebase, repository, branch, revision]
    by_cases project : key = "project"
    · -- the project is set to the empty string
      subst project
      have both (cb : Dict String Attribute) : defaults ss.codebase cb "project" = some (.text "") := rfl
      rw [both, both]
      cases ss.dict.get "project" with
      | none => simp
      | some value => simp [eq_comm]
    · have both (cb : Dict String Attribute) : defaults ss.codebase cb key = none := by
        simp [defaults, codebase, repository, branch, revision, project]
      rw [both, both]
      cases ss.dict.get key with
      | none => simp
      | some value => simp [codebase, repository, branch, revision, project]
  exact forall_congr' each

/-- Everything given reaches the buildset, if and only if the stamps for codebases that are not configured fit. -/
theorem reached_iff (data : Data ν) (iteration : SetOrder) (heap : Heap ν) (reason : String ⊕ ν)
    (sourcestamps : Option (List PassedStamp)) (waited_for : Bool) (properties : Option Nat)
    (builderNames : Option (BuilderNames ν)) (priority : Option Priority) (kw : Dict String Attribute) :
    self.Reached (sourcestamps.getD []) (self.addBuildsetForSourceStampsWithDefaults data iteration heap reason sourcestamps
        waited_for properties builderNames priority kw) ↔
      (((sourcestamps.getD []).map PassedStamp.codebase).Nodup → self.Fits (sourcestamps.getD [])) := by
  obtain ⟨given, same⟩ : ∃ given, sourcestamps.getD [] = given := ⟨_, rfl⟩
  rw [same]
  obtain ⟨accepted, refused⟩ := stampsByCodebase_spec given
  by_cases distinct : (given.map PassedStamp.codebase).Nodup
  · obtain ⟨codebases, stamped, single, all⟩ := self.stampsWithDefaults_spec iteration given distinct
    have outcome : self.addBuildsetForSourceStampsWithDefaults data iteration heap reason sourcestamps waited_for
        properties builderNames priority kw = .ok (self.addBuildsetForSourceStamps data heap waited_for
          ((codebases.map (self.made given)).map .dict) reason none properties builderNames priority kw) := by
      rw [addBuildsetForSourceStampsWithDefaults, same, stamped]
      rfl
    have created : (self.addBuildsetForSourceStamps data heap waited_for ((codebases.map (self.made given)).map .dict)
        reason none properties builderNames priority kw).2.sourcestamps =
          (codebases.map (self.made given)).map .dict := by
      rfl
    have faithful : self.Faithful given (self.addBuildsetForSourceStamps data heap waited_for
        ((codebases.map (self.made given)).map .dict) reason none properties builderNames priority kw).2 ↔
          ∀ codebase ∈ codebases, ∀ key, (self.made given codebase).get key = self.expected given codebase key := by
      constructor
      · rintro ⟨others, stamps, same, _, _, aligned⟩
        rw [created] at same
        have equal : codebases.map (self.made given) = stamps :=
          List.map_injective_iff.mpr (fun _ _ => StampArgument.dict.inj) same
        rw [← equal, List.forall₂_map_right_iff] at aligned
        -- the codebases are read off the stamps
        have names : others = codebases := by
          have named : List.Forall₂ (fun codebase other => codebase = other) others codebases :=
            aligned.imp fun codebase other all_ => by
              have stamp := all_ "codebase"
              rw [made_codebase, expected_codebase] at stamp
              exact (Attribute.text.inj (Option.some.inj stamp)).symm
          rwa [List.forall₂_eq_eq_eq] at named
        rw [names, List.forall₂_same] at aligned
        exact aligned
      · intro good
        refine ⟨codebases, codebases.map (self.made given), created, single, all, ?_⟩
        rw [List.forall₂_map_right_iff, List.forall₂_same]
        exact good
    have found {ss : PassedStamp} (among : ss ∈ given) :
        (given.find? fun other => other.codebase = ss.codebase) = some ss := by
      have keyed : Keyed.Distinct PassedStamp.codebase given := distinct
      exact keyed.lookup_self among
    rw [Reached, if_pos distinct, outcome]
    refine Iff.trans ⟨?_, ?_⟩ (forall_prop_of_true distinct).symm
    · rintro ⟨after, buildset, same, kept⟩ ss among outside
      have result := (Except.ok.inj same).symm
      rw [show buildset = _ from congrArg Prod.snd result] at kept
      have good := faithful.mp kept ss.codebase ((all _).mpr (.inr ⟨ss, among, rfl⟩))
      exact (self.made_of_supplied given outside (found among)).mp good
    · intro fits
      refine ⟨_, _, rfl, faithful.mpr fun codebase member => ?_⟩
      by_cases inside : codebase ∈ self.codebases.keys
      · exact self.made_of_configured given inside
      · obtain ⟨ss, among, rfl⟩ := ((all codebase).mp member).resolve_left inside
        exact (self.made_of_supplied given inside (found among)).mpr (fits ss among inside)
  · obtain ⟨error, raised⟩ := refused distinct
    rw [Reached, if_neg distinct]
    refine iff_of_true ⟨error, ?_⟩ fun again => absurd again distinct
    rw [addBuildsetForSourceStampsWithDefaults, same, stampsWithDefaults, raised]
    rfl

/-- A scheduler with the default codebases. -/
def plain : BaseScheduler Unit where
  name := "all"
  builderNames _ := []
  properties := 0
  codebases := Dict.ofItems [("", Dict.empty)]
  lastCodebases := Dict.empty
  priority := none

def patched : PassedStamp where
  dict := Dict.ofItems [("codebase", .text "lib"), ("project", .text "umbilical"), ("patch_level", .number 1)]
  codebase := "lib"
  named := by decide

theorem project_and_patch_lost :
    ¬ plain.Reached [patched] (plain.addBuildsetForSourceStampsWithDefaults ⟨[], fun _ => ⟨Dict.empty, []⟩⟩
      ⟨id, fun names => List.Perm.refl names⟩ [Properties.empty] (.inl "") (some [patched]) false none none none
      Dict.empty) := by
  intro reached
  rw [Reached, if_pos (by decide)] at reached
  obtain ⟨heap, created, same, codebases, stamps, sources, _, _, aligned⟩ := reached
  have list : created.sourcestamps = [.dict (plain.made [patched] ""), .dict (plain.made [patched] "lib")] := by
    have shown : (plain.addBuildsetForSourceStampsWithDefaults ⟨[], fun _ => ⟨Dict.empty, []⟩⟩
        ⟨id, fun names => List.Perm.refl names⟩ [Properties.empty] (.inl "") (some [patched]) false none none none
        Dict.empty).map (fun answer => answer.2.sourcestamps) =
        .ok [.dict (plain.made [patched] ""), .dict (plain.made [patched] "lib")] := rfl
    rw [same] at shown
    exact Except.ok.inj shown
  have pair : stamps = [plain.made [patched] "", plain.made [patched] "lib"] :=
    List.map_injective_iff.mpr (fun _ _ => StampArgument.dict.inj) (sources.symm.trans list)
  rw [pair] at aligned
  rcases aligned with _ | ⟨_, _ | ⟨last, _⟩⟩
  have name := last "codebase"
  rw [made_codebase, expected_codebase] at name
  have project := last "project"
  rw [← Attribute.text.inj (Option.some.inj name)] at project
  exact absurd project (by decide)

end Umbilical.Schedulers.BaseScheduler
