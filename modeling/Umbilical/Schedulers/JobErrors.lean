import Umbilical.Schedulers.JobValues
import Umbilical.Shared.Netstrings
import Mathlib.Tactic.IntervalCases

set_option autoImplicit false

/-!
# Bad job files

A file can be neither reported as bad nor read: where a version, a text, a number or a key of it
is not what the code takes it for.
-/

namespace Umbilical.Schedulers

open Umbilical.Python
open Refusals JobError Job

namespace TryJobdir

variable {readers : JobReaders} {configured : List Str} {post : Job → Prop}

section Json

theorem within_orBadJobfile {α : Type} {post : α → Prop} {result : Except JobError α} :
    Within IsBadJobfile post (orBadJobfile result) ↔
      Within (fun error => error.isValueError ∨ IsBadJobfile error) post result := by
  cases result with
  | ok value => exact Iff.rfl
  | error error => cases error <;> simp [orBadJobfile, isValueError, IsBadJobfile]

/-- What the second netstring has to be, in a version of JSON. -/
def ReadableJson (readers : JobReaders) (post : Job → Prop) (strings : List (List UInt8)) : Prop :=
  ∃ string rest, strings = string :: rest ∧ ∀ text, decodeUtf8 string = some text →
    readers.loads text ≠ .error .recursionError ∧ ∀ json, readers.loads text = .ok json →
      ∃ parsedJob, Job.ofJson json = .ok parsedJob ∧ post parsedJob

theorem within_parseJson {readPatch : Job → Except JobError Job} {strings : List (List UInt8)} :
    Within IsBadJobfile (fun result => Complete result ∧ ∃ sent, submit configured result = .ok sent)
      (parseJson readers readPatch strings) ↔
    ReadableJson readers (fun parsedJob =>
      Within (fun error => error.isValueError ∨ IsBadJobfile error) (Acceptable readers.characters configured)
        (readPatch parsedJob)) strings := by
  rw [parseJson, within_bind, within_orBadJobfile]
  simp only [within_postprocess_iff, within_bind]
  cases strings with
  | nil =>
    constructor
    · rintro (impossible | impossible) <;> cases impossible
    · rintro ⟨string, rest, impossible, -⟩
      cases impossible
  | cons string rest =>
    cases decoded : decodeUtf8 string with
    | none =>
      have load : loadJson readers (string :: rest) = .error .unicodeDecodeError := by
        rw [loadJson, decodeText, decoded]
        rfl
      rw [load]
      constructor
      · intro _
        refine ⟨string, rest, rfl, fun text found => ?_⟩
        rw [decoded] at found
        cases found
      · exact fun _ => .inl rfl
    | some text =>
      have readable {post : Job → Prop} : ReadableJson readers post (string :: rest) ↔
          readers.loads text ≠ .error .recursionError ∧ ∀ json, readers.loads text = .ok json →
            ∃ parsedJob, Job.ofJson json = .ok parsedJob ∧ post parsedJob := by
        constructor
        · rintro ⟨_, _, same, each⟩
          obtain ⟨rfl, rfl⟩ := List.cons.inj same
          exact each text decoded
        · intro holds
          refine ⟨string, rest, rfl, fun other same => ?_⟩
          rw [decoded] at same
          cases same
          exact holds
      rw [readable]
      cases loaded : readers.loads text with
      | error error =>
        cases error with
        | valueError =>
          have load : loadJson readers (string :: rest) = .error .valueError := by
            simp only [loadJson, decodeText, decoded, Option.elim_some, bind, Except.bind, loaded]
          rw [load]
          constructor
          · intro _
            simp
          · exact fun _ => .inl rfl
        | recursionError =>
          have load : loadJson readers (string :: rest) = .error .recursionError := by
            simp only [loadJson, decodeText, decoded, Option.elim_some, bind, Except.bind, loaded]
          rw [load]
          constructor
          · rintro (impossible | impossible) <;> cases impossible
          · exact fun both => absurd rfl both.1
      | ok json =>
        have load : loadJson readers (string :: rest) = .ok json := by
          simp only [loadJson, decodeText, decoded, Option.elim_some, bind, Except.bind, loaded]
        rw [load]
        cases given : Job.ofJson json with
        | ok parsedJob =>
          simp [given]
        | error error =>
          have kind : error = .typeError := by
            unfold Job.ofJson at given
            split at given
            · cases given
            · cases given; rfl
          simp [given, kind, isValueError, IsBadJobfile]

/-- The fifth version has its patch as a text; one that UTF-8 cannot carry is reported. -/
def TextPatch (post : Job → Prop) (parsedJob : Job) : Prop :=
  ∃ body, parsedJob.get JobKey.patchBody.name = some body ∧
    ∀ encoded, body.unicode2bytes = .ok encoded → post (parsedJob.set JobKey.patchBody.name encoded)

/-- The sixth has it in base64; a text that is no base64 is reported. -/
def Base64Patch (post : Job → Prop) (parsedJob : Job) : Prop :=
  ∃ body, parsedJob.get JobKey.patchBodyBase64.name = some body ∧ body.b64decode ≠ .error .typeError ∧
    ∀ decoded, body.b64decode = .ok decoded →
      post ((parsedJob.set JobKey.patchBody.name decoded).erase JobKey.patchBodyBase64.name)

theorem within_readPatchBody {post : Job → Prop} {parsedJob : Job} :
    Within (fun error => error.isValueError ∨ IsBadJobfile error) post (readPatchBody parsedJob) ↔
      TextPatch post parsedJob := by
  unfold TextPatch
  rw [readPatchBody, within_bind, within_getItem (by simp [isValueError, IsBadJobfile])]
  apply exists_congr
  intro body
  apply and_congr_right
  intro _
  rw [within_bind]
  unfold JobValue.unicode2bytes
  split
  · split
    · simp
    · simp [isValueError]
  · simp

theorem b64decode_error {body : JobValue} {error : JobError} (raised : body.b64decode = .error error) :
    error = .valueError ∨ error = .typeError := by
  have decoded (read : Option (List UInt8))
      (raised : read.elim (.error .valueError) (fun decoded => .ok (.bytes decoded)) =
        (.error error : Except JobError JobValue)) : error = .valueError := by
    cases read with
    | none => cases raised; rfl
    | some bytes => cases raised
  unfold JobValue.b64decode at raised
  split at raised
  · split at raised
    · split at raised
      · exact .inl (decoded _ raised)
      · cases raised; exact .inl rfl
    · cases raised; exact .inl rfl
  · exact .inl (decoded _ raised)
  · cases raised; exact .inr rfl

theorem within_readPatchBodyBase64 {post : Job → Prop} {parsedJob : Job} :
    Within (fun error => error.isValueError ∨ IsBadJobfile error) post (readPatchBodyBase64 parsedJob) ↔
      Base64Patch post parsedJob := by
  unfold Base64Patch
  rw [readPatchBodyBase64, within_bind, within_getItem (by simp [isValueError, IsBadJobfile])]
  apply exists_congr
  intro body
  apply and_congr_right
  intro _
  rw [within_bind]
  cases read : body.b64decode with
  | ok decoded => simp
  | error error =>
    rcases b64decode_error read with rfl | rfl <;> simp [isValueError, IsBadJobfile]

end Json

section Netstrings

/-- What a netstring is kept as. -/
def valueFor (key : JobKey) (string : List UInt8) : JobValue :=
  if key = .patchBody then .bytes string else .json (.str (Str.ofText ((decodeUtf8 string).getD [])))

def assigned : List JobKey → List (List UInt8) → Job → Job
  | key :: keys, string :: strings, parsedJob => assigned keys strings (parsedJob.set key.name (valueFor key string))
  | _, _, parsedJob => parsedJob

/-- Every text is one. The patch may be any bytes. -/
def Decodable (keys : List JobKey) (strings : List (List UInt8)) : Prop :=
  ∀ pair ∈ keys.zip strings, pair.1 ≠ .patchBody → (decodeUtf8 pair.2).isSome

theorem extractNetstrings_cons (key : JobKey) (keys : List JobKey) (string : List UInt8) (strings : List (List UInt8))
    (parsedJob : Job) :
    extractNetstrings (key :: keys) (string :: strings) parsedJob =
      if key = .patchBody ∨ (decodeUtf8 string).isSome then
        extractNetstrings keys strings (parsedJob.set key.name (valueFor key string))
      else .error .unicodeDecodeError := by
  unfold valueFor
  by_cases patch : key = .patchBody
  · subst patch
    rfl
  · have plain : extractNetstrings (key :: keys) (string :: strings) parsedJob =
        decodeText string >>= fun text =>
          extractNetstrings keys strings (parsedJob.set key.name (.json (.str (Str.ofText text)))) := by
      cases key with
      | patchBody => exact absurd rfl patch
      | _ => rfl
    rw [plain, decodeText]
    cases decodeUtf8 string with
    | none => simp [patch]; rfl
    | some text => simp [patch]; rfl

theorem within_extractNetstrings {keys : List JobKey} {strings : List (List UInt8)} {parsedJob : Job} :
    Within IsBadJobfile post (extractNetstrings keys strings parsedJob) ↔
      keys.length ≤ strings.length ∧ Decodable keys strings ∧ post (assigned keys strings parsedJob) := by
  induction keys generalizing strings parsedJob with
  | nil => simp [extractNetstrings, Decodable, assigned]
  | cons key keys ih =>
    cases strings with
    | nil =>
      constructor
      · intro impossible
        cases key <;> cases impossible
      · intro impossible
        simp at impossible
    | cons string strings =>
      rw [extractNetstrings_cons, assigned]
      unfold Decodable
      simp only [List.zip_cons_cons, List.forall_mem_cons, List.length_cons, Nat.add_le_add_iff_right]
      split
      next readable =>
        rw [ih]
        have first : key ≠ .patchBody → (decodeUtf8 string).isSome := fun plain => readable.resolve_left plain
        exact ⟨fun ⟨enough, others, holds⟩ => ⟨enough, ⟨first, others⟩, holds⟩,
          fun ⟨enough, ⟨_, others⟩, holds⟩ => ⟨enough, others, holds⟩⟩
      next unreadable =>
        constructor
        · exact False.elim
        · rintro ⟨-, ⟨first, -⟩, -⟩
          by_cases patch : key = .patchBody
          · exact absurd (.inl patch) unreadable
          · exact absurd (.inr (first patch)) unreadable

theorem get_assigned_other {keys : List JobKey} {strings : List (List UInt8)} {parsedJob : Job} {key : JobKey}
    (other : key ∉ keys) : (assigned keys strings parsedJob).get key.name = parsedJob.get key.name := by
  induction keys generalizing strings parsedJob with
  | nil => simp [assigned]
  | cons first keys ih =>
    cases strings with
    | nil => rfl
    | cons string strings =>
      rw [List.mem_cons, not_or] at other
      rw [assigned, ih other.2, Dict.get_set, if_neg (JobKey.name_injective.ne other.1)]

theorem get_assigned_text {keys : List JobKey} {strings : List (List UInt8)} {parsedJob : Job} {key : JobKey}
    {value : JobValue} (plain : key ≠ .patchBody) (found : (assigned keys strings parsedJob).get key.name = some value) :
    parsedJob.get key.name = some value ∨ ∃ text, value = .json (.str (Str.ofText text)) := by
  induction keys generalizing strings parsedJob with
  | nil => exact .inl (by simpa [assigned] using found)
  | cons first keys ih =>
    cases strings with
    | nil => exact .inl found
    | cons string strings =>
      rcases ih found with before | text
      · rw [Dict.get_set] at before
        split at before
        next same =>
          obtain rfl := JobKey.name_injective same
          right
          rw [valueFor, if_neg plain] at before
          exact ⟨_, (Option.some.inj before).symm⟩
        next => exact .inl before
      · exact .inr text

theorem within_decodeTexts {post : List Text → Prop} {strings : List (List UInt8)} :
    Within IsBadJobfile post (strings.mapM decodeText) ↔
      (∀ string ∈ strings, (decodeUtf8 string).isSome) ∧ post (strings.map fun string => (decodeUtf8 string).getD []) := by
  induction strings generalizing post with
  | nil => simp
  | cons string strings ih =>
    rw [List.mapM_cons, within_bind, within_decodeText]
    simp only [within_bind, ih, within_pure, List.forall_mem_cons, List.map_cons]
    cases decodeUtf8 string with
    | none => simp
    | some text => simp

theorem keysAt_spec {i : Int} {keys : List JobKey} (found : keysAt i = some keys) :
    ∃ more, keys = v1Keys ++ more ∧ ∀ key ∈ more, key ∈ [JobKey.repository, .project, .who, .comment] := by
  have among : keys ∈ [v1Keys, v2Keys, v3Keys, v4Keys] := by
    unfold keysAt at found
    split at found
    · exact List.mem_of_getElem? found
    split at found
    · exact List.mem_of_getElem? found
    · cases found
  simp only [List.mem_cons, List.not_mem_nil, or_false] at among
  rcases among with rfl | rfl | rfl | rfl
  · exact ⟨[], rfl, by decide⟩
  · exact ⟨[.repository, .project], rfl, by decide⟩
  · exact ⟨[.repository, .project, .who], rfl, by decide⟩
  · exact ⟨[.repository, .project, .who, .comment], rfl, by decide⟩

/-- What the netstrings have to be, in a version before JSON. The fifth is the patch. -/
def ReadableNetstrings (db : CharacterDatabase) (ver : Text) (strings : List (List UInt8)) : Prop :=
  ∃ number keys, db.int ver = some number ∧ keysAt (number - 1) = some keys ∧ keys.length ≤ strings.length ∧
    (∀ i string, strings[i]? = some string → i ≠ 4 → (decodeUtf8 string).isSome) ∧
    ∃ string text, strings[3]? = some string ∧ decodeUtf8 string = some text ∧ (db.int text).isSome

/-- A job of bare netstrings is acceptable when its patch level is a number. -/
theorem acceptable_assigned {db : CharacterDatabase} {more : List JobKey} {rest : List (List UInt8)}
    {s₀ s₁ s₂ s₃ s₄ : List UInt8} (others : ∀ key ∈ more, key ∈ [JobKey.repository, .project, .who, .comment])
    (names : List Text) :
    Acceptable db configured ((assigned (v1Keys ++ more) (s₀ :: s₁ :: s₂ :: s₃ :: s₄ :: rest) .empty).set
      JobKey.builderNames.name (.json (.list (names.map fun name => .str (Str.ofText name))))) ↔
    (db.int ((decodeUtf8 s₃).getD [])).isSome := by
  generalize jobEq : (assigned (v1Keys ++ more) (s₀ :: s₁ :: s₂ :: s₃ :: s₄ :: rest) .empty).set
    JobKey.builderNames.name (.json (.list (names.map fun name => .str (Str.ofText name)))) = parsedJob
  have first (key : JobKey) (among : key ∈ v1Keys) :
      parsedJob.get key.name = some (valueFor key
        (match key with | .jobid => s₀ | .branch => s₁ | .baserev => s₂ | .patchLevel => s₃ | _ => s₄)) := by
    have absent : key ∉ more := by
      intro member
      have both := others key member
      revert among both
      cases key <;> decide
    have notNames : key ≠ .builderNames := by
      rintro rfl
      revert among
      decide
    rw [← jobEq, Dict.get_set, if_neg (JobKey.name_injective.ne notNames)]
    unfold v1Keys
    simp only [List.cons_append, List.nil_append, assigned, get_assigned_other absent]
    simp only [v1Keys, List.mem_cons, List.not_mem_nil, or_false] at among
    rcases among with rfl | rfl | rfl | rfl | rfl <;> simp [Dict.get_set]
  have names_ : parsedJob.get JobKey.builderNames.name =
      some (.json (.list (names.map fun name => .str (Str.ofText name)))) := by
    rw [← jobEq, Dict.get_set, if_pos rfl]
  have noProperties : parsedJob.get JobKey.properties.name = none := by
    rw [← jobEq, Dict.get_set, if_neg (JobKey.name_injective.ne (by decide)), get_assigned_other, Dict.get_empty]
    intro member
    rcases List.mem_append.mp member with among | among
    · revert among
      decide
    · have both := others _ among
      revert both
      decide
  have isText (key : JobKey) (plain : key ≠ .patchBody) (notNames : key ≠ .builderNames) (value : JobValue)
      (found : parsedJob.get key.name = some value) : ∃ text, value = .json (.str (Str.ofText text)) := by
    rw [← jobEq, Dict.get_set, if_neg (JobKey.name_injective.ne notNames)] at found
    rcases get_assigned_text plain found with before | text
    · cases before
    · exact text
  have level := first .patchLevel (by decide)
  have number : (JobValue.json (.str (Str.ofText ((decodeUtf8 s₃).getD [])))).int db =
      (db.int ((decodeUtf8 s₃).getD [])).elim (.error .valueError) .ok := by
    rw [JobValue.int, Str.text?_ofText, Option.bind_some]
  constructor
  · intro sound
    obtain ⟨result, read⟩ := sound.level _ level
    rw [valueFor, if_neg (by decide), number] at read
    cases parsed : db.int ((decodeUtf8 s₃).getD []) with
    | none => rw [parsed] at read; cases read
    | some result => rfl
  · intro parsed
    obtain ⟨result, parsed⟩ := Option.isSome_iff_exists.mp parsed
    refine ⟨?_, fun value same => ?_, fun value same _ => ?_, fun value _ _ => ⟨fun who found _ => ?_, ?_, ?_⟩⟩
    · simp only [List.forall_mem_cons]
      exact ⟨by rw [first .jobid (by decide)]; rfl, by rw [first .branch (by decide)]; rfl,
        by rw [first .baserev (by decide)]; rfl, by rw [level]; rfl, by rw [first .patchBody (by decide)]; rfl,
        by rw [names_]; rfl, by simp⟩
    · rw [level] at same
      obtain rfl := Option.some.inj same
      rw [valueFor, if_neg (by decide), number, parsed]
      exact ⟨result, rfl⟩
    · rw [names_] at same
      obtain rfl := Option.some.inj same
      exact ⟨_, rfl⟩
    · obtain ⟨text, rfl⟩ := isText .who (by decide) (by decide) who found
      exact ⟨_, rfl⟩
    · intro properties found
      rw [noProperties] at found
      cases found
    · intro jobid found
      obtain ⟨text, rfl⟩ := isText .jobid (by decide) (by decide) jobid found
      exact ⟨_, rfl⟩

/-- The patch is the only netstring that need not be a text. -/
theorem decodable_iff {keys : List JobKey} {strings : List (List UInt8)}
    (patch : ∀ i key, keys[i]? = some key → (key = .patchBody ↔ i = 4))
    (long : 4 < keys.length) :
    (Decodable keys strings ∧ ∀ string ∈ strings.drop keys.length, (decodeUtf8 string).isSome) ↔
      ∀ i string, strings[i]? = some string → i ≠ 4 → (decodeUtf8 string).isSome := by
  constructor
  · rintro ⟨named, names⟩ i string found other
    by_cases inside : i < keys.length
    · have key : keys[i]? = some keys[i] := List.getElem?_eq_getElem inside
      have pair : (keys.zip strings)[i]? = some (keys[i], string) := List.getElem?_zip_eq_some.mpr ⟨key, found⟩
      exact named _ (List.mem_of_getElem? pair) fun same => other ((patch i _ key).mp same)
    · apply names string
      have later : (strings.drop keys.length)[i - keys.length]? = some string := by
        rw [List.getElem?_drop, Nat.add_sub_cancel' (by omega)]
        exact found
      exact List.mem_of_getElem? later
  · intro each
    constructor
    · intro pair member plain
      obtain ⟨i, found⟩ := List.mem_iff_getElem?.mp member
      obtain ⟨key, string⟩ := List.getElem?_zip_eq_some.mp found
      exact each i _ string fun same => plain ((patch i _ key).mpr same)
    · intro string member
      obtain ⟨i, found⟩ := List.mem_iff_getElem?.mp member
      rw [List.getElem?_drop] at found
      exact each _ string found (by omega)

theorem within_parseNetstrings {ver : Text} {strings : List (List UInt8)} :
    Within IsBadJobfile (fun result => Complete result ∧ ∃ sent, submit configured result = .ok sent)
      (parseNetstrings readers ver strings) ↔ ReadableNetstrings readers.characters ver strings := by
  unfold parseNetstrings ReadableNetstrings
  cases readers.characters.int ver with
  | none => simp [within_bind, IsBadJobfile]
  | some number =>
    cases found : keysAt (number - 1) with
    | none => simp [within_bind, found, IsBadJobfile]
    | some keys =>
      obtain ⟨more, rfl, others⟩ := keysAt_spec found
      simp only [Option.elim_some, within_bind, within_ok, found, within_extractNetstrings, within_decodeTexts,
        within_postprocess_iff]
      have patch (i : Nat) (key : JobKey) (at_ : (v1Keys ++ more)[i]? = some key) : key = .patchBody ↔ i = 4 := by
        by_cases early : i < v1Keys.length
        · rw [List.getElem?_append_left early] at at_
          have small : i < 5 := early
          interval_cases i <;> cases at_ <;> decide
        · rw [List.getElem?_append_right (by omega)] at at_
          have member := others key (List.mem_of_getElem? at_)
          have length : v1Keys.length = 5 := rfl
          constructor
          · rintro rfl
            exact absurd member (by decide)
          · intro same
            omega
      have long : 4 < (v1Keys ++ more).length := by
        rw [List.length_append]
        exact Nat.lt_of_lt_of_le (by decide) (Nat.le_add_right _ _)
      have five (enough : (v1Keys ++ more).length ≤ strings.length) :
          ∃ s₀ s₁ s₂ s₃ s₄ rest, strings = s₀ :: s₁ :: s₂ :: s₃ :: s₄ :: rest := by
        have enough := Nat.lt_of_lt_of_le long enough
        rcases strings with _ | ⟨s₀, _ | ⟨s₁, _ | ⟨s₂, _ | ⟨s₃, _ | ⟨s₄, rest⟩⟩⟩⟩⟩
        · exact absurd enough (by simp)
        · exact absurd enough (by simp)
        · exact absurd enough (by simp)
        · exact absurd enough (by simp)
        · exact absurd enough (by simp)
        · exact ⟨s₀, s₁, s₂, s₃, s₄, rest, rfl⟩
      constructor
      · rintro ⟨enough, named, names, sound⟩
        have texts := (decodable_iff patch long).mp ⟨named, names⟩
        obtain ⟨s₀, s₁, s₂, s₃, s₄, rest, rfl⟩ := five enough
        obtain ⟨text, decoded⟩ := Option.isSome_iff_exists.mp (texts 3 s₃ rfl (by decide))
        have parsed := (acceptable_assigned others _).mp sound
        rw [decoded] at parsed
        exact ⟨number, _, rfl, found, enough, texts, s₃, text, rfl, decoded, parsed⟩
      · rintro ⟨_, _, same, at_, enough, texts, string, text, fourth, decoded, parsed⟩
        cases same
        rw [found] at at_
        cases at_
        obtain ⟨named, names⟩ := (decodable_iff patch long).mpr texts
        obtain ⟨s₀, s₁, s₂, s₃, s₄, rest, rfl⟩ := five enough
        refine ⟨enough, named, names, (acceptable_assigned others _).mpr ?_⟩
        cases fourth
        rw [decoded]
        exact parsed

end Netstrings

/-- What a file has to be. Where it is too long, no netstrings or of another version, it is reported. -/
def Readable (readers : JobReaders) (configured : List Str) (file : JobFile) : Prop :=
  file.contents.length ≤ readers.maxLength →
    ∃ data, file.read = .ok data ∧ ∀ first strings, readers.netstrings data = some (first :: strings) →
      ∃ ver, decodeUtf8 first = some ver ∧
        (atMost ver ['4'] → ReadableNetstrings readers.characters ver strings) ∧
        (ver = ['5'] → ReadableJson readers (TextPatch (Acceptable readers.characters configured)) strings) ∧
        (ver = ['6'] → ReadableJson readers (Base64Patch (Acceptable readers.characters configured)) strings)

theorem read_errors {file : JobFile} {error : JobError} (raised : file.read = .error error) : ¬ IsBadJobfile error := by
  unfold JobFile.read at raised
  split at raised
  · split at raised
    · cases raised
    · cases raised; exact id
  · cases raised

/-- The versions exclude each other. -/
theorem within_version (ver : Text) (strings : List (List UInt8)) :
    Within IsBadJobfile (fun result => Complete result ∧ ∃ sent, submit configured result = .ok sent)
      (if atMost ver ['4'] then parseNetstrings readers ver strings
        else if ver = ['5'] then parseV5 readers strings
        else if ver = ['6'] then parseV6 readers strings
        else .error (.badJobfile ("unknown version '" ++ String.ofList ver ++ "'"))) ↔
      (atMost ver ['4'] → ReadableNetstrings readers.characters ver strings) ∧
        (ver = ['5'] → ReadableJson readers (TextPatch (Acceptable readers.characters configured)) strings) ∧
        (ver = ['6'] → ReadableJson readers (Base64Patch (Acceptable readers.characters configured)) strings) := by
  split
  next old =>
    have notFive : ver ≠ ['5'] := by rintro rfl; revert old; decide
    have notSix : ver ≠ ['6'] := by rintro rfl; revert old; decide
    rw [within_parseNetstrings]
    exact ⟨fun holds => ⟨fun _ => holds, fun same => absurd same notFive, fun same => absurd same notSix⟩,
      fun holds => holds.1 old⟩
  next new =>
    split
    next five =>
      have notSix : ver ≠ ['6'] := by rintro rfl; cases five
      rw [parseV5, within_parseJson]
      simp only [within_readPatchBody]
      exact ⟨fun holds => ⟨fun old => absurd old new, fun _ => holds, fun same => absurd same notSix⟩,
        fun holds => holds.2.1 five⟩
    next notFive =>
      split
      next six =>
        rw [parseV6, within_parseJson]
        simp only [within_readPatchBodyBase64]
        exact ⟨fun holds => ⟨fun old => absurd old new, fun same => absurd same notFive, fun _ => holds⟩,
          fun holds => holds.2.2 six⟩
      next notSix =>
        exact iff_of_true trivial
          ⟨fun old => absurd old new, fun same => absurd same notFive, fun same => absurd same notSix⟩

theorem within_parseJob {file : JobFile} :
    Within IsBadJobfile (fun result => Complete result ∧ ∃ sent, submit configured result = .ok sent)
      (parseJob readers file) ↔ Readable readers configured file := by
  unfold parseJob Readable
  split
  next long => exact iff_of_true trivial fun short => absurd short (Nat.not_le.mpr long)
  next short =>
    have short := Nat.not_lt.mp short
    cases read : file.read with
    | error error =>
      constructor
      · exact fun refused => absurd refused (read_errors read)
      · intro holds
        obtain ⟨data, impossible, -⟩ := holds short
        cases impossible
    | ok data =>
      rw [within_bind, within_ok]
      cases found : readers.netstrings data with
      | none =>
        refine iff_of_true trivial fun _ => ⟨data, rfl, fun first strings some_ => ?_⟩
        rw [found] at some_
        cases some_
      | some all =>
        cases all with
        | nil =>
          refine iff_of_true trivial fun _ => ⟨data, rfl, fun first strings some_ => ?_⟩
          rw [found] at some_
          cases some_
        | cons first strings =>
          have only {condition : List UInt8 → List (List UInt8) → Prop} :
              (file.contents.length ≤ readers.maxLength → ∃ data_, (.ok data : Except JobError (List UInt8)) = .ok data_ ∧
                ∀ first strings, readers.netstrings data_ = some (first :: strings) → condition first strings) ↔
              condition first strings := by
            constructor
            · intro holds
              obtain ⟨_, same, each⟩ := holds short
              cases same
              exact each first strings found
            · intro holds _
              refine ⟨data, rfl, fun _ _ same => ?_⟩
              rw [found] at same
              cases same
              exact holds
          rw [only, within_bind, within_decodeText]
          apply exists_congr
          intro ver
          apply and_congr_right
          intro _
          exact within_version ver strings

/-- A file ends in a bad job file or in a whole job, and in nothing else, just where it is what it has to be. -/
theorem handled_iff (readers : JobReaders) (configured : List Str) (file : JobFile) :
    ((∀ error, parseJob readers file = .error error → IsBadJobfile error) ∧
      (∀ parsedJob, parseJob readers file = .ok parsedJob → Complete parsedJob) ∧
      ∃ sent, handleJobFile readers configured file = .ok sent) ↔ Readable readers configured file := by
  rw [← within_parseJob]
  unfold handleJobFile
  cases parseJob readers file with
  | ok parsedJob =>
    exact ⟨fun ⟨_, complete, sent⟩ => ⟨complete _ rfl, sent⟩,
      fun ⟨complete, sent⟩ => ⟨fun _ impossible => (by cases impossible), fun _ same => (by cases same; exact complete), sent⟩⟩
  | error error =>
    constructor
    · rintro ⟨bad, -, -⟩
      exact bad error rfl
    · intro bad
      refine ⟨fun _ same => (by cases same; exact bad), fun _ impossible => (by cases impossible), ?_⟩
      cases error with
      | badJobfile message => exact ⟨none, rfl⟩
      | _ => cases bad

/-- A version and nothing after it. -/
def shortFile : JobFile := ⟨utf8 ['1', ':', '5', ','], true⟩

/-- Readers for files of netstrings only, and of no JSON. -/
def plainReaders : JobReaders where
  characters := .ascii
  maxLength := 99999
  netstrings data := Netstrings.readAll data.length data
  loads _ := .error .valueError

theorem short_file_breaks : parseJob plainReaders shortFile = .error .indexError ∧ ¬ IsBadJobfile .indexError := by
  constructor
  · have read : shortFile.read = .ok [49, 58, 53, 44] := by
      simp only [JobFile.read, shortFile, if_true, decodeUtf8_utf8]
      rfl
    have version : decodeText [53] = .ok ['5'] := by
      rw [decodeText, show [53] = utf8 ['5'] from rfl, decodeUtf8_utf8]
      rfl
    have strings : plainReaders.netstrings [49, 58, 53, 44] = some [[53]] := by decide
    rw [parseJob, if_neg (by decide), read]
    simp only [bind, Except.bind, strings, version]
    rfl
  · exact id

end TryJobdir

end Umbilical.Schedulers
