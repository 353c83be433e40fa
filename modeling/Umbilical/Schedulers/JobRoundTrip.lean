import Umbilical.Schedulers.JobValues
import Umbilical.Shared.Netstrings

set_option autoImplicit false

/-!
# Job files that `createJobfile` writes

The length of a netstring is counted in characters by the writer and in bytes by the reader. What
is framed is ASCII, so that these are the same.
-/

namespace Umbilical.Schedulers

open Umbilical.Python
open Job

/-- The arguments of `createJobfile`. -/
structure TryJob where
  jobid : Str
  branch : Option Str
  baserev : Str
  patchLevel : Int
  patchBody : List UInt8
  repository : Str
  project : Str
  who : Option Str
  comment : Option Str
  builderNames : List Str
  properties : List (Str × Json)

namespace TryJob

/-- A text, or `None`. -/
def optional : Option Str → Json
  | none => .null
  | some text => .str text

def ns (s : Text) : Text := decimalText s.length ++ ':' :: (s ++ [','])

/-- Bytes of ASCII, as a text. -/
def asciiText (bytes : List UInt8) : Text := bytes.map fun byte => Char.ofNat byte.toNat

variable (job : TryJob)

def patchItem : Str × Json :=
  match decodeUtf8 job.patchBody with
  | some text => (JobKey.patchBody.name, .str (Str.ofText text))
  | none => (JobKey.patchBodyBase64.name, .str (Str.ofText (asciiText (Base64.encode job.patchBody))))

def version : Text :=
  match decodeUtf8 job.patchBody with
  | some _ => ['5']
  | none => ['6']

def jobDict : Json :=
  .dict [(JobKey.jobid.name, .str job.jobid), (JobKey.branch.name, optional job.branch),
    (JobKey.baserev.name, .str job.baserev), (JobKey.patchLevel.name, .int job.patchLevel),
    (JobKey.repository.name, .str job.repository), (JobKey.project.name, .str job.project),
    (JobKey.who.name, optional job.who), (JobKey.comment.name, optional job.comment),
    (JobKey.builderNames.name, .list (job.builderNames.map .str)), (JobKey.properties.name, .dict job.properties),
    job.patchItem]

/-- `dumps` is `json.dumps`. -/
def createJobfile (dumps : Json → Text) : Text := ns job.version ++ ns (dumps job.jobDict)

/-- `None` for a text that is empty, and for `None`. -/
def unlessEmpty : Option Str → Json
  | none | some [] => .null
  | some text => .str text

/-- What is read back. -/
def returned : Job :=
  .ofItems [(JobKey.jobid.name, .json (.str job.jobid)), (JobKey.branch.name, .json (unlessEmpty job.branch)),
    (JobKey.baserev.name, .json (unlessEmpty (some job.baserev))), (JobKey.patchLevel.name, .json (.int job.patchLevel)),
    (JobKey.patchBody.name, .bytes job.patchBody), (JobKey.repository.name, .json (.str job.repository)),
    (JobKey.project.name, .json (.str job.project)), (JobKey.who.name, .json (optional job.who)),
    (JobKey.comment.name, .json (optional job.comment)),
    (JobKey.builderNames.name, .json (.list (job.builderNames.map .str))),
    (JobKey.properties.name, .json (.dict job.properties))]

section Framing

theorem utf8_ascii {text : Text} (ascii : ∀ char ∈ text, char.toNat < 128) :
    utf8 text = text.map fun char => UInt8.ofNat char.toNat := by
  induction text with
  | nil => rfl
  | cons char text ih =>
    have small := ascii char List.mem_cons_self
    have one : char.utf8Size = 1 := by
      rw [Char.utf8Size_eq_one_iff, UInt32.le_iff_toNat_le]
      exact Nat.le_of_lt_succ small
    have byte : String.utf8EncodeChar char = [UInt8.ofNat char.toNat] := by
      rw [String.utf8EncodeChar_eq_singleton one]
      rfl
    rw [utf8, List.flatMap_cons, byte, List.map_cons]
    exact congrArg _ (ih fun other member => ascii other (List.mem_cons_of_mem _ member))

theorem utf8_asciiText {bytes : List UInt8} (ascii : ∀ byte ∈ bytes, byte.toNat < 128) :
    utf8 (asciiText bytes) = bytes ∧ ∀ char ∈ asciiText bytes, char.toNat < 128 := by
  have same (byte : UInt8) (small : byte.toNat < 128) : (Char.ofNat byte.toNat).toNat = byte.toNat := by
    have all : ∀ code < 128, (Char.ofNat code).toNat = code := by decide
    exact all _ small
  have small : ∀ char ∈ asciiText bytes, char.toNat < 128 := by
    intro char member
    obtain ⟨byte, among, rfl⟩ := List.mem_map.mp member
    rw [same byte (ascii byte among)]
    exact ascii byte among
  refine ⟨?_, small⟩
  rw [utf8_ascii small, asciiText, List.map_map]
  conv_rhs => rw [← List.map_id bytes]
  apply List.map_congr_left
  intro byte among
  rw [Function.comp_apply, same byte (ascii byte among), UInt8.ofNat_toNat]
  rfl

theorem utf8_ns {text : Text} (ascii : ∀ char ∈ text, char.toNat < 128) :
    utf8 (ns text) = Netstrings.frame (utf8 text) := by
  have digits : ∀ char ∈ Nat.toDigits 10 text.length, char.toNat < 128 := fun char member =>
    CharacterDatabase.isDigit_lt (Nat.isDigit_of_mem_toDigits (by decide) (by decide) member)
  have length : (utf8 text).length = text.length := by rw [utf8_ascii ascii, List.length_map]
  have number : decimalText text.length = Nat.toDigits 10 text.length := rfl
  have end_ : utf8 (':' :: (text ++ [','])) = 58 :: (utf8 text ++ [44]) := by
    rw [show ':' :: (text ++ [',']) = [':'] ++ (text ++ [',']) from rfl, utf8_append, utf8_append]
    rfl
  rw [ns, number, utf8_append, end_, utf8_ascii digits, Netstrings.frame, length, Netstrings.digits]

end Framing

section Reading

open TryJobdir

variable {readers : JobReaders} {dumps : Json → Text} {job : TryJob}

theorem universalNewlines_eq_self {text : Text} (plain : '\r' ∉ text) : universalNewlines text = text := by
  induction text with
  | nil => rfl
  | cons char text ih =>
    rw [List.mem_cons, not_or] at plain
    rw [universalNewlines, ih plain.2]
    · rintro rest rfl
      exact absurd rfl plain.1
    · rintro rfl
      exact absurd rfl plain.1

/-- What is under a key of the job before it is finished. -/
def written (job : TryJob) : JobKey → Option JobValue
  | .jobid => some (.json (.str job.jobid))
  | .branch => some (.json (optional job.branch))
  | .baserev => some (.json (.str job.baserev))
  | .patchLevel => some (.json (.int job.patchLevel))
  | .patchBody => some (.bytes job.patchBody)
  | .patchBodyBase64 => none
  | .repository => some (.json (.str job.repository))
  | .project => some (.json (.str job.project))
  | .who => some (.json (optional job.who))
  | .comment => some (.json (optional job.comment))
  | .builderNames => some (.json (.list (job.builderNames.map .str)))
  | .properties => some (.json (.dict job.properties))

/-- The values of a job, and no others. -/
structure Written (job : TryJob) (parsedJob : Job) : Prop where
  keys : ∀ key : JobKey, parsedJob.get key.name = job.written key
  others : ∀ name, (∀ key : JobKey, name ≠ key.name) → parsedJob.get name = none

theorem orNone_optional (text : Option Str) : orNone (.json (optional text)) = .json (unlessEmpty text) := by
  cases text with
  | none => rfl
  | some text => cases text <;> rfl

theorem finished_returned {parsedJob : Job} (written : Written job parsedJob) (name : Str) :
    (finished parsedJob (.json (optional job.branch)) (.json (.str job.baserev)) job.patchLevel).get name =
      job.returned.get name := by
  by_cases known : ∃ key : JobKey, name = key.name
  · obtain ⟨key, rfl⟩ := known
    have baserev : orNone (.json (.str job.baserev)) = .json (unlessEmpty (some job.baserev)) := orNone_optional (some _)
    rw [get_finished]
    cases key <;> simp [written.keys, TryJob.written, returned, Dict.ofItems, orNone_optional, baserev]
  · have unknown : ∀ key : JobKey, name ≠ key.name := not_exists.mp known
    unfold finished setDefault returned Dict.ofItems
    simp [unknown, written.others name unknown]

/-- The dictionary that is read, with one item for the patch. -/
def readDict (job : TryJob) (patch : Str × Json) : Job :=
  .ofItems [(JobKey.jobid.name, .json (.str job.jobid)), (JobKey.branch.name, .json (optional job.branch)),
    (JobKey.baserev.name, .json (.str job.baserev)), (JobKey.patchLevel.name, .json (.int job.patchLevel)),
    (JobKey.repository.name, .json (.str job.repository)), (JobKey.project.name, .json (.str job.project)),
    (JobKey.who.name, .json (optional job.who)), (JobKey.comment.name, .json (optional job.comment)),
    (JobKey.builderNames.name, .json (.list (job.builderNames.map .str))),
    (JobKey.properties.name, .json (.dict job.properties)), (patch.1, .json patch.2)]

theorem ofJson_jobDict (job : TryJob) : Job.ofJson job.jobDict = .ok (job.readDict job.patchItem) := rfl

theorem written_text {text : Text} (decoded : decodeUtf8 job.patchBody = some text) :
    ∃ patched, readPatchBody (job.readDict job.patchItem) = .ok patched ∧ Written job patched := by
  have item : job.patchItem = (JobKey.patchBody.name, .str (Str.ofText text)) := by rw [patchItem, decoded]
  have found : (job.readDict job.patchItem).get JobKey.patchBody.name = some (.json (.str (Str.ofText text))) := by
    rw [item]
    simp [readDict, Dict.ofItems]
  have bytes : (JobValue.json (.str (Str.ofText text))).unicode2bytes = .ok (.bytes job.patchBody) := by
    rw [JobValue.unicode2bytes, Str.text?_ofText]
    simp only [utf8_of_decodeUtf8 decoded]
  refine ⟨(job.readDict job.patchItem).set JobKey.patchBody.name (.bytes job.patchBody), ?_, ?_, ?_⟩
  · rw [readPatchBody, getItem_eq_ok found]
    simp only [bind, Except.bind, bytes]
    rfl
  · intro key
    rw [item]
    cases key <;> simp [readDict, Dict.ofItems, TryJob.written]
  · intro name unknown
    rw [item]
    simp [readDict, Dict.ofItems, unknown]

theorem written_base64 (binary : decodeUtf8 job.patchBody = none) :
    ∃ patched, readPatchBodyBase64 (job.readDict job.patchItem) = .ok patched ∧ Written job patched := by
  obtain ⟨same, ascii⟩ := utf8_asciiText (Base64.encode_ascii job.patchBody)
  have item : job.patchItem =
      (JobKey.patchBodyBase64.name, .str (Str.ofText (asciiText (Base64.encode job.patchBody)))) := by
    rw [patchItem, binary]
  have found : (job.readDict job.patchItem).get JobKey.patchBodyBase64.name =
      some (.json (.str (Str.ofText (asciiText (Base64.encode job.patchBody))))) := by
    rw [item]
    simp [readDict, Dict.ofItems]
  have bytes : (JobValue.json (.str (Str.ofText (asciiText (Base64.encode job.patchBody))))).b64decode =
      .ok (.bytes job.patchBody) := by
    rw [JobValue.b64decode, Str.text?_ofText]
    simp only
    rw [if_pos (List.all_eq_true.mpr fun char member => decide_eq_true (ascii char member)), same, Base64.decode_encode]
    rfl
  refine ⟨((job.readDict job.patchItem).set JobKey.patchBody.name (.bytes job.patchBody)).erase
    JobKey.patchBodyBase64.name, ?_, ?_, ?_⟩
  · rw [readPatchBodyBase64, getItem_eq_ok found]
    simp only [bind, Except.bind, bytes]
    rfl
  · intro key
    rw [item]
    cases key <;> simp [readDict, Dict.ofItems, TryJob.written]
  · intro name unknown
    rw [item]
    simp [readDict, Dict.ofItems, unknown]

theorem parseJson_eq_ok {readPatch : Job → Except JobError Job} {strings : List (List UInt8)} {patched : Job}
    (json : loadJson readers strings = .ok job.jobDict) (patch : readPatch (job.readDict job.patchItem) = .ok patched) :
    parseJson readers readPatch strings = postprocessParsedJob readers patched := by
  simp only [parseJson, json, ofJson_jobDict, bind, Except.bind, patch, orBadJobfile]

theorem postprocess_written {patched : Job} (written : Written job patched) :
    ∃ parsedJob, postprocessParsedJob readers patched = .ok parsedJob ∧
      ∀ name, parsedJob.get name = job.returned.get name :=
  ⟨_, postprocess_eq_ok (written.keys .branch) (written.keys .baserev) (written.keys .patchLevel) rfl,
    finished_returned written⟩

/-- What `createJobfile` writes is read as the job it was written for. -/
theorem parseJob_createJobfile (isText : Bool)
    (frames : ∀ strings, (strings.flatMap Netstrings.frame).length ≤ readers.maxLength →
      readers.netstrings (strings.flatMap Netstrings.frame) = some strings)
    (loads : readers.loads (dumps job.jobDict) = .ok job.jobDict)
    (printable : ∀ char ∈ dumps job.jobDict, 32 ≤ char.toNat ∧ char.toNat < 127)
    (short : (utf8 (job.createJobfile dumps)).length ≤ readers.maxLength) :
    ∃ patched, parseJob readers ⟨utf8 (job.createJobfile dumps), isText⟩ = postprocessParsedJob readers patched ∧
      Written job patched := by
  have version_ascii : ∀ char ∈ job.version, 32 ≤ char.toNat ∧ char.toNat < 127 := by
    intro char member
    unfold version at member
    split at member
    · rw [List.mem_singleton.mp member]
      decide
    · rw [List.mem_singleton.mp member]
      decide
  -- the file is ASCII, so that its characters are its bytes
  have contents : utf8 (job.createJobfile dumps) = [utf8 job.version, utf8 (dumps job.jobDict)].flatMap Netstrings.frame := by
    rw [createJobfile, utf8_append, utf8_ns fun char member => Nat.lt_trans (version_ascii char member).2 (by decide),
      utf8_ns fun char member => Nat.lt_trans (printable char member).2 (by decide)]
    simp
  have read : JobFile.read ⟨utf8 (job.createJobfile dumps), isText⟩ = .ok (utf8 (job.createJobfile dumps)) := by
    cases isText with
    | false => rfl
    | true =>
      have plain : '\r' ∉ job.createJobfile dumps := by
        have framed (text : Text) (printable : ∀ char ∈ text, 32 ≤ char.toNat ∧ char.toNat < 127) : '\r' ∉ ns text := by
          intro member
          rcases List.mem_append.mp member with digit | rest
          · have isDigit := Nat.isDigit_of_mem_toDigits (by decide) (by decide) digit
            cases isDigit
          · simp only [List.mem_cons, List.mem_append, List.not_mem_nil, or_false] at rest
            rcases rest with colon | inside | comma
            · cases colon
            · exact absurd (printable _ inside).1 (by decide)
            · cases comma
        intro member
        rcases List.mem_append.mp member with first | second
        · exact framed _ version_ascii first
        · exact framed _ printable second
      simp only [JobFile.read, if_true, decodeUtf8_utf8, universalNewlines_eq_self plain]
  have strings : readers.netstrings (utf8 (job.createJobfile dumps)) = some [utf8 job.version, utf8 (dumps job.jobDict)] := by
    rw [contents] at short ⊢
    exact frames _ short
  have decodes (text : Text) : decodeText (utf8 text) = .ok text := by
    rw [decodeText, decodeUtf8_utf8]
    rfl
  have json : loadJson readers [utf8 (dumps job.jobDict)] = .ok job.jobDict := by
    rw [loadJson, decodes]
    simp only [bind, Except.bind, loads]
  rw [parseJob, if_neg (Nat.not_lt.mpr short), read]
  simp only [bind, Except.bind, strings, decodes]
  cases decoded : decodeUtf8 job.patchBody with
  | some text =>
    have five : job.version = ['5'] := by rw [version, decoded]
    obtain ⟨patched, patch, written⟩ := written_text decoded
    refine ⟨patched, ?_, written⟩
    rw [five, if_neg (by decide), if_pos rfl, parseV5, parseJson_eq_ok json patch]
  | none =>
    have six : job.version = ['6'] := by rw [version, decoded]
    obtain ⟨patched, patch, written⟩ := written_base64 decoded
    refine ⟨patched, ?_, written⟩
    rw [six, if_neg (by decide), if_neg (by decide), if_pos rfl, parseV6, parseJson_eq_ok json patch]

/-- A file that is not too long comes back as the job, and one that is too long is a bad job file. -/
theorem job_file_round_trip (readers : JobReaders) (dumps : Json → Text) (job : TryJob) (isText : Bool)
    (frames : ∀ strings, (strings.flatMap Netstrings.frame).length ≤ readers.maxLength →
      readers.netstrings (strings.flatMap Netstrings.frame) = some strings)
    (loads : readers.loads (dumps job.jobDict) = .ok job.jobDict)
    (printable : ∀ char ∈ dumps job.jobDict, 32 ≤ char.toNat ∧ char.toNat < 127) :
    ((utf8 (job.createJobfile dumps)).length ≤ readers.maxLength →
      ∃ parsedJob, parseJob readers ⟨utf8 (job.createJobfile dumps), isText⟩ = .ok parsedJob ∧
        ∀ name, parsedJob.get name = job.returned.get name) ∧
    (readers.maxLength < (utf8 (job.createJobfile dumps)).length →
      ∃ message, parseJob readers ⟨utf8 (job.createJobfile dumps), isText⟩ = .error (.badJobfile message)) := by
  constructor
  · intro short
    obtain ⟨patched, read, written⟩ := parseJob_createJobfile isText frames loads printable short
    rw [read]
    exact postprocess_written written
  · intro long
    rw [parseJob, if_pos long]
    exact ⟨_, rfl⟩

/-- A job for the newest revision, with an empty patch. -/
def newestJob : TryJob where
  jobid := Str.literal "a"
  branch := some (Str.literal "trunk")
  baserev := []
  patchLevel := 1
  patchBody := []
  repository := []
  project := []
  who := none
  comment := none
  builderNames := []
  properties := []

/-- Its dictionary, as `json.dumps` writes it. -/
def newestText : Text :=
  "\x7b\"jobid\": \"a\", \"branch\": \"trunk\", \"baserev\": \"\", \"patch_level\": 1, ".toList ++
    "\"repository\": \"\", \"project\": \"\", \"who\": null, \"comment\": null, ".toList ++
    "\"builderNames\": [], \"properties\": \x7b\x7d, \"patch_body\": \"\"\x7d".toList

def newestReaders : JobReaders where
  characters := .ascii
  maxLength := 99999
  netstrings data := Netstrings.readAll data.length data
  loads text := if text = newestText then .ok newestJob.jobDict else .error .valueError

theorem newestReaders_frames (strings : List (List UInt8)) :
    newestReaders.netstrings (strings.flatMap Netstrings.frame) = some strings :=
  Netstrings.readAll_frames strings (Netstrings.length_le_frames strings)

theorem newest_loads : newestReaders.loads newestText = .ok newestJob.jobDict := by
  simp only [newestReaders, if_true]

theorem newestText_printable : ∀ char ∈ newestText, 32 ≤ char.toNat ∧ char.toNat < 127 := by
  have all : newestText.all fun char => 32 ≤ char.toNat ∧ char.toNat < 127 := by decide +kernel
  intro char member
  exact of_decide_eq_true (List.all_eq_true.mp all char member)

theorem newest_short : (utf8 (newestJob.createJobfile fun _ => newestText)).length ≤ newestReaders.maxLength := by
  have five : newestJob.version = ['5'] := by
    rw [version, show newestJob.patchBody = utf8 [] from rfl, decodeUtf8_utf8]
  rw [createJobfile, five]
  decide +kernel

theorem newest_round_trip :
    (∃ parsedJob, parseJob newestReaders ⟨utf8 (newestJob.createJobfile fun _ => newestText), true⟩ = .ok parsedJob ∧
      ∀ name, parsedJob.get name = newestJob.returned.get name) :=
  (job_file_round_trip newestReaders (fun _ => newestText) newestJob true (fun strings _ => newestReaders_frames strings)
    newest_loads newestText_printable).1 newest_short

/-- The empty base revision does not come back as it was. -/
theorem newest_baserev_none :
    ∃ parsedJob, parseJob newestReaders ⟨utf8 (newestJob.createJobfile fun _ => newestText), true⟩ = .ok parsedJob ∧
      parsedJob.get JobKey.baserev.name ≠ some (.json (.str newestJob.baserev)) := by
  obtain ⟨patched, read, written⟩ := @parseJob_createJobfile newestReaders (fun _ => newestText) newestJob true
    (fun strings _ => newestReaders_frames strings) newest_loads newestText_printable newest_short
  obtain ⟨parsedJob, finished, same⟩ := @postprocess_written newestReaders _ _ written
  refine ⟨parsedJob, by rw [read, finished], ?_⟩
  rw [same]
  simp [returned, Dict.ofItems, unlessEmpty, newestJob]

end Reading

end TryJob

end Umbilical.Schedulers
