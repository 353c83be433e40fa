import Umbilical.Schedulers.TryJobdir

set_option autoImplicit false

/-!
# Values of a job

What `postprocess_parsed_job` and `handleJobFile` take without an error.
-/

namespace Umbilical.Schedulers

open Umbilical.Python
open Refusals JobError Job

namespace TryJobdir

/-- Every key of a job, with a number for the patch level. -/
def Complete (parsedJob : Job) : Prop :=
  (∀ key ∈ [JobKey.jobid, .branch, .baserev, .patchLevel, .patchBody, .repository, .project, .who, .comment,
      .builderNames, .properties], (parsedJob.get key.name).isSome) ∧
    ∃ level, parsedJob.get JobKey.patchLevel.name = some (.json (.int level))

/-- Whether a job is for any builder. -/
def Allowed (configured : List Str) (builderNames : JobValue) : Prop :=
  if builderNames.truthy then
    ∃ names, builderNames.elements = .ok names ∧ names.all (isConfigured configured)
  else configured ≠ []

/-- What can still fail when the builders are chosen. -/
def Submittable (parsedJob : Job) : Prop :=
  (∀ who, parsedJob.get JobKey.who.name = some who → who.truthy → ∃ text, who.bytes2unicode = .ok text) ∧
    (∀ properties, parsedJob.get JobKey.properties.name = some properties →
      ∃ items, propertyItems properties = .ok items) ∧
    ∀ jobid, parsedJob.get JobKey.jobid.name = some jobid → ∃ text, jobid.bytes2unicode = .ok text

/-- What the values of a job have to be. -/
structure Acceptable (db : CharacterDatabase) (configured : List Str) (parsedJob : Job) : Prop where
  present : ∀ key ∈ [JobKey.jobid, .branch, .baserev, .patchLevel, .patchBody, .builderNames],
    (parsedJob.get key.name).isSome
  level : ∀ value, parsedJob.get JobKey.patchLevel.name = some value → ∃ level, value.int db = .ok level
  builders : ∀ value, parsedJob.get JobKey.builderNames.name = some value → value.truthy →
    ∃ names, value.elements = .ok names
  submitted : ∀ value, parsedJob.get JobKey.builderNames.name = some value → Allowed configured value →
    Submittable parsedJob

variable {readers : JobReaders} {configured : List Str} {post : Job → Prop}

theorem within_getItem {refusal : JobError → Prop} (never : ∀ key, ¬ refusal (.keyError key)) {post : JobValue → Prop}
    {parsedJob : Job} {key : JobKey} :
    Within refusal post (getItem parsedJob key) ↔ ∃ value, parsedJob.get key.name = some value ∧ post value := by
  unfold getItem
  cases parsedJob.get key.name with
  | none => exact ⟨fun refused => absurd refused (never _), fun ⟨_, found, _⟩ => by cases found⟩
  | some value => exact ⟨fun holds => ⟨value, rfl, holds⟩, fun ⟨_, found, holds⟩ => by cases found; exact holds⟩

theorem within_decodeText {post : Text → Prop} {bytes : List UInt8} :
    Within IsBadJobfile post (decodeText bytes) ↔ ∃ text, decodeUtf8 bytes = some text ∧ post text := by
  unfold decodeText
  cases decodeUtf8 bytes with
  | none => exact ⟨fun refused => refused.elim, fun ⟨_, found, _⟩ => by cases found⟩
  | some text => exact ⟨fun holds => ⟨text, rfl, holds⟩, fun ⟨_, found, holds⟩ => by cases found; exact holds⟩

/-- A job after `postprocess_parsed_job`, with the patch level it was read with. -/
def finished (parsedJob : Job) (branch baserev : JobValue) (level : Int) : Job :=
  setDefault .properties (.dict []) ([JobKey.repository, .project, .who, .comment].foldl
    (fun parsedJob key => setDefault key (.str []) parsedJob)
    (((parsedJob.set JobKey.branch.name (orNone branch)).set JobKey.baserev.name (orNone baserev)).set
      JobKey.patchLevel.name (.json (.int level))))

theorem not_bad_int {db : CharacterDatabase} {value : JobValue} {error : JobError} (raised : value.int db = .error error) :
    ¬ IsBadJobfile error := by
  have parsed (read : Option Int) (raised : read.elim (.error .valueError) .ok = (.error error : Except JobError Int)) :
      ¬ IsBadJobfile error := by
    cases read with
    | none => cases raised; exact id
    | some level => cases raised
  unfold JobValue.int at raised
  split at raised
  case h_6 => exact parsed _ raised
  case h_10 =>
    split at raised
    · exact parsed _ raised
    · cases raised; exact id
  all_goals
    cases raised
    try exact id

theorem within_int {db : CharacterDatabase} {value : JobValue} {post : Int → Prop} :
    Within IsBadJobfile post (value.int db) ↔ ∃ level, value.int db = .ok level ∧ post level := by
  cases read : value.int db with
  | ok level => exact ⟨fun holds => ⟨level, rfl, holds⟩, fun ⟨_, same, holds⟩ => by cases same; exact holds⟩
  | error error => exact ⟨fun refused => absurd refused (not_bad_int read), fun ⟨_, same, _⟩ => by cases same⟩

theorem within_postprocess {parsedJob : Job} :
    Within IsBadJobfile post (postprocessParsedJob readers parsedJob) ↔
      ∃ branch, parsedJob.get JobKey.branch.name = some branch ∧
        ∃ baserev, parsedJob.get JobKey.baserev.name = some baserev ∧
          ∃ value, parsedJob.get JobKey.patchLevel.name = some value ∧
            ∃ level, value.int readers.characters = .ok level ∧ post (finished parsedJob branch baserev level) := by
  have read {post : JobValue → Prop} {parsedJob : Job} {key : JobKey} :
      Within IsBadJobfile post (getItem parsedJob key) ↔
        ∃ value, parsedJob.get key.name = some value ∧ post value := within_getItem fun _ => id
  unfold postprocessParsedJob
  simp only [within_bind, read, within_int, Dict.get_set, JobKey.name_inj, reduceCtorEq, if_false]
  exact Iff.rfl

theorem getItem_eq_ok {parsedJob : Job} {key : JobKey} {value : JobValue} (found : parsedJob.get key.name = some value) :
    getItem parsedJob key = .ok value := by
  rw [getItem, found]
  rfl

theorem postprocess_eq_ok {parsedJob : Job} {branch baserev value : JobValue} {level : Int}
    (hasBranch : parsedJob.get JobKey.branch.name = some branch)
    (hasBaserev : parsedJob.get JobKey.baserev.name = some baserev)
    (hasLevel : parsedJob.get JobKey.patchLevel.name = some value) (read : value.int readers.characters = .ok level) :
    postprocessParsedJob readers parsedJob = .ok (finished parsedJob branch baserev level) := by
  have second : getItem (parsedJob.set JobKey.branch.name (orNone branch)) .baserev = .ok baserev :=
    getItem_eq_ok (by simpa [Dict.get_set] using hasBaserev)
  have third : getItem ((parsedJob.set JobKey.branch.name (orNone branch)).set JobKey.baserev.name (orNone baserev))
      .patchLevel = .ok value := getItem_eq_ok (by simpa [Dict.get_set] using hasLevel)
  rw [postprocessParsedJob, getItem_eq_ok hasBranch]
  simp only [bind, Except.bind, second, third, read]
  rfl

section Finished

variable {parsedJob : Job} {branch baserev : JobValue} {level : Int}

theorem get_finished (key : JobKey) : (finished parsedJob branch baserev level).get key.name =
    match key with
    | .branch => some (orNone branch)
    | .baserev => some (orNone baserev)
    | .patchLevel => some (.json (.int level))
    | .repository | .project | .who | .comment => some ((parsedJob.get key.name).getD (.json (.str [])))
    | .properties => some ((parsedJob.get key.name).getD (.json (.dict [])))
    | key => parsedJob.get key.name := by
  unfold finished setDefault
  cases key <;> simp [Dict.get_set]

theorem complete_finished : Complete (finished parsedJob branch baserev level) ↔
    ∀ key ∈ [JobKey.jobid, .patchBody, .builderNames], (parsedJob.get key.name).isSome := by
  unfold Complete
  simp only [List.forall_mem_cons, get_finished]
  simp

end Finished

/-- No error is a refusal. -/
theorem within_never {α : Type} {post : α → Prop} {result : Except JobError α} :
    Within (fun _ => False) post result ↔ ∃ value, result = .ok value ∧ post value := by
  cases result with
  | ok value => exact ⟨fun holds => ⟨value, rfl, holds⟩, fun ⟨_, same, holds⟩ => by cases same; exact holds⟩
  | error error => exact ⟨False.elim, fun ⟨_, same, _⟩ => by cases same⟩

theorem filterBuilderList_named {builderNames : JobValue} (named : builderNames.truthy = true) :
    filterBuilderList configured builderNames = builderNames.elements.map fun names =>
      if names.all (isConfigured configured) then builderNames else .json (.list []) := by
  rw [filterBuilderList, if_pos named]
  cases builderNames.elements with
  | error error => rfl
  | ok names =>
    simp only [bind, Except.bind, Except.map]
    split <;> rfl

theorem filterBuilderList_all {builderNames : JobValue} (unnamed : builderNames.truthy = false) :
    filterBuilderList configured builderNames = .ok (.json (.list (configured.map .str))) := by
  rw [filterBuilderList, unnamed]
  rfl

theorem within_filterBuilderList {post : JobValue → Prop} {builderNames : JobValue} :
    Within (fun _ => False) post (filterBuilderList configured builderNames) ↔
      (builderNames.truthy → ∃ names, builderNames.elements = .ok names) ∧
        ∀ chosen, filterBuilderList configured builderNames = .ok chosen → post chosen := by
  cases named : builderNames.truthy with
  | false =>
    rw [filterBuilderList_all named, within_ok]
    constructor
    · intro holds
      refine ⟨fun impossible => Bool.noConfusion impossible, fun chosen same => ?_⟩
      cases same
      exact holds
    · intro both
      exact both.2 _ rfl
  | true =>
    rw [filterBuilderList_named named]
    cases builderNames.elements with
    | error error =>
      constructor
      · exact False.elim
      · intro both
        obtain ⟨_, same⟩ := both.1 rfl
        cases same
    | ok names =>
      exact ⟨fun holds => ⟨fun _ => ⟨names, rfl⟩, fun _ same => by cases same; exact holds⟩, fun both => both.2 _ rfl⟩

theorem truthy_filterBuilderList {builderNames chosen : JobValue}
    (filtered : filterBuilderList configured builderNames = .ok chosen) :
    chosen.truthy ↔ Allowed configured builderNames := by
  unfold Allowed
  cases named : builderNames.truthy with
  | false =>
    rw [filterBuilderList_all named] at filtered
    cases filtered
    cases configured <;> simp [JobValue.truthy, Json.truthy]
  | true =>
    rw [filterBuilderList_named named] at filtered
    cases read : builderNames.elements with
    | error error =>
      rw [read] at filtered
      cases filtered
    | ok names =>
      rw [read] at filtered
      obtain rfl := Except.ok.inj filtered
      cases all : names.all (isConfigured configured) with
      | true =>
        simp only [all, if_true, named]
        exact ⟨fun _ => ⟨names, rfl, all⟩, fun _ => trivial⟩
      | false =>
        simp only [all, Bool.false_eq_true, if_false, if_true]
        constructor
        · intro impossible
          cases impossible
        · rintro ⟨_, same, every⟩
          cases same
          rw [all] at every
          cases every

section Finished

variable {parsedJob : Job} {branch baserev : JobValue} {level : Int} {jobid body : JobValue}

theorem tryReason_ok (who : JobValue) :
    (∃ reason, tryReason who = .ok reason) ↔ (who.truthy → ∃ text, who.bytes2unicode = .ok text) := by
  unfold tryReason
  cases named : who.truthy with
  | false => exact ⟨fun _ impossible => Bool.noConfusion impossible, fun _ => ⟨_, rfl⟩⟩
  | true =>
    cases who.bytes2unicode with
    | ok text => exact ⟨fun _ _ => ⟨text, rfl⟩, fun _ => ⟨_, rfl⟩⟩
    | error error =>
      constructor
      · rintro ⟨_, impossible⟩
        cases impossible
      · intro readable
        obtain ⟨_, impossible⟩ := readable rfl
        cases impossible

theorem submission_finished (found : parsedJob.get JobKey.jobid.name = some jobid)
    (patch : parsedJob.get JobKey.patchBody.name = some body) (chosen : JobValue) :
    (∃ result, submission (finished parsedJob branch baserev level) chosen = .ok result) ↔ Submittable parsedJob := by
  have goal : (∃ result, submission (finished parsedJob branch baserev level) chosen = .ok result) ↔
      Within (fun _ => False) (fun _ => True) (submission (finished parsedJob branch baserev level) chosen) := by
    rw [within_never]
    simp
  have read {post : JobValue → Prop} {parsedJob : Job} {key : JobKey} :
      Within (fun _ => False) post (getItem parsedJob key) ↔
        ∃ value, parsedJob.get key.name = some value ∧ post value := within_getItem fun _ => id
  rw [goal]
  unfold submission Submittable
  simp only [within_bind, read, get_finished, found, patch, within_never, Option.some.injEq, exists_eq_left',
    forall_eq']
  constructor
  · rintro ⟨reason, why, items, listed, text, decoded, -⟩
    refine ⟨fun who named => ?_, fun properties given => ?_, text, decoded⟩
    · rw [named] at why
      exact (tryReason_ok who).mp ⟨reason, why⟩
    · rw [given] at listed
      exact ⟨items, listed⟩
  · rintro ⟨user, given, text, decoded⟩
    have why : ∃ reason, tryReason ((parsedJob.get JobKey.who.name).getD (.json (.str []))) = .ok reason := by
      rw [tryReason_ok]
      cases named : parsedJob.get JobKey.who.name with
      | none => exact fun impossible => Bool.noConfusion impossible
      | some who => exact user who named
    have listed : ∃ items, propertyItems ((parsedJob.get JobKey.properties.name).getD (.json (.dict []))) = .ok items := by
      cases found : parsedJob.get JobKey.properties.name with
      | none => exact ⟨[], rfl⟩
      | some properties => exact given properties found
    obtain ⟨reason, why⟩ := why
    obtain ⟨items, listed⟩ := listed
    exact ⟨reason, why, items, listed, text, decoded, _, rfl, trivial⟩

theorem submit_finished {names : JobValue} (found : parsedJob.get JobKey.jobid.name = some jobid)
    (patch : parsedJob.get JobKey.patchBody.name = some body)
    (named : parsedJob.get JobKey.builderNames.name = some names) :
    (∃ result, submit configured (finished parsedJob branch baserev level) = .ok result) ↔
      (names.truthy → ∃ elements, names.elements = .ok elements) ∧ (Allowed configured names → Submittable parsedJob) := by
  have goal : (∃ result, submit configured (finished parsedJob branch baserev level) = .ok result) ↔
      Within (fun _ => False) (fun _ => True) (submit configured (finished parsedJob branch baserev level)) := by
    rw [within_never]
    simp
  have read : getItem (finished parsedJob branch baserev level) .builderNames = .ok names := by
    rw [getItem, get_finished]
    simp only [named]
    rfl
  rw [goal, submit, read]
  simp only [within_bind, within_ok, within_filterBuilderList]
  apply and_congr_right
  intro readable
  have filtered : Within (fun _ => False) (fun _ => True) (filterBuilderList configured names) :=
    within_filterBuilderList.mpr ⟨readable, fun _ _ => trivial⟩
  obtain ⟨chosen, filtered, -⟩ := within_never.mp filtered
  have submitted : (∃ result, submission (finished parsedJob branch baserev level) chosen = .ok result) ↔
      Submittable parsedJob := submission_finished found patch chosen
  constructor
  · intro each allowed
    have done := each chosen filtered
    rw [if_pos ((truthy_filterBuilderList filtered).mpr allowed), within_bind, within_never] at done
    obtain ⟨result, sent, -⟩ := done
    exact submitted.mp ⟨result, sent⟩
  · intro sound other same
    rw [filtered] at same
    cases same
    split
    next named =>
      obtain ⟨result, sent⟩ := submitted.mpr (sound ((truthy_filterBuilderList filtered).mp named))
      rw [sent]
      trivial
    next => trivial

end Finished

/-- A job is read and submitted just where its values are what they have to be. -/
theorem within_postprocess_iff (parsedJob : Job) :
    Within IsBadJobfile (fun result => Complete result ∧ ∃ sent, submit configured result = .ok sent)
      (postprocessParsedJob readers parsedJob) ↔ Acceptable readers.characters configured parsedJob := by
  rw [within_postprocess]
  simp only [complete_finished, List.forall_mem_cons, List.not_mem_nil, IsEmpty.forall_iff, implies_true, and_true]
  constructor
  · rintro ⟨branch, hasBranch, baserev, hasBaserev, value, hasLevel, level, read, ⟨hasId, hasBody, hasNames⟩, sent⟩
    obtain ⟨jobid, foundId⟩ := Option.isSome_iff_exists.mp hasId
    obtain ⟨body, foundBody⟩ := Option.isSome_iff_exists.mp hasBody
    obtain ⟨names, foundNames⟩ := Option.isSome_iff_exists.mp hasNames
    obtain ⟨readable, allowed⟩ := (submit_finished foundId foundBody foundNames).mp sent
    refine ⟨?_, fun other same => ?_, fun other same => ?_, fun other same => ?_⟩
    · simp [hasBranch, hasBaserev, hasLevel, hasId, hasBody, hasNames]
    · rw [hasLevel] at same
      cases same
      exact ⟨level, read⟩
    · rw [foundNames] at same
      cases same
      exact readable
    · rw [foundNames] at same
      cases same
      exact allowed
  · intro sound
    have present := sound.present
    simp only [List.forall_mem_cons, List.not_mem_nil, IsEmpty.forall_iff, implies_true, and_true] at present
    obtain ⟨hasId, hasBranch, hasBaserev, hasLevel, hasBody, hasNames⟩ := present
    obtain ⟨branch, foundBranch⟩ := Option.isSome_iff_exists.mp hasBranch
    obtain ⟨baserev, foundBaserev⟩ := Option.isSome_iff_exists.mp hasBaserev
    obtain ⟨value, foundLevel⟩ := Option.isSome_iff_exists.mp hasLevel
    obtain ⟨jobid, foundId⟩ := Option.isSome_iff_exists.mp hasId
    obtain ⟨body, foundBody⟩ := Option.isSome_iff_exists.mp hasBody
    obtain ⟨names, foundNames⟩ := Option.isSome_iff_exists.mp hasNames
    obtain ⟨level, read⟩ := sound.level value foundLevel
    refine ⟨branch, foundBranch, baserev, foundBaserev, value, foundLevel, level, read, ⟨hasId, hasBody, hasNames⟩, ?_⟩
    exact (submit_finished foundId foundBody foundNames).mpr
      ⟨sound.builders names foundNames, sound.submitted names foundNames⟩

end TryJobdir

end Umbilical.Schedulers
