import Umbilical.Execution.CommandSpec
import Mathlib.Tactic.Push

set_option autoImplicit false

namespace Umbilical.Execution

open Python

/-! ## What a constructed value holds -/

/-- The texts and numbers behind the fields of a constructed value. -/
structure CommandTexts where
  executable : Text
  argv : List Text
  workingDirectory : Text
  environment : List (Text × Text)
  timeoutSeconds : Nat

def textValue (text : Text) : PyValue := .str (Str.ofText text)

def variableValue (entry : Text × Text) : Option (PyValue × PyValue) :=
  some (textValue entry.1, textValue entry.2)

/-- What `validateText` accepted, whatever name it was called with. -/
def Acceptable (allowEmpty : Bool) (text : Text) : Prop :=
  (allowEmpty = true ∨ text ≠ []) ∧ '\x00' ∉ text ∧ text ∈ framable

structure CommandTexts.Describes (texts : CommandTexts) (fields : CommandFields) : Prop where
  executable : fields.executable = textValue texts.executable
  argv : ∃ tuple, fields.argv = some tuple ∧ tuple.items = texts.argv.map textValue
  workingDirectory : fields.workingDirectory = textValue texts.workingDirectory
  environment : ∃ tuple, fields.environment = some tuple ∧
    tuple.items = texts.environment.map variableValue
  timeoutSeconds : fields.timeoutSeconds = .int texts.timeoutSeconds

structure CommandTexts.Acceptable (texts : CommandTexts) : Prop where
  executable : Execution.Acceptable false texts.executable
  argv : ∀ argument ∈ texts.argv, Execution.Acceptable true argument
  argvCount : texts.argv.length < 2 ^ 64
  workingDirectory : Execution.Acceptable false texts.workingDirectory
  environment : ∀ entry ∈ texts.environment,
    Execution.Acceptable false entry.1 ∧ Execution.Acceptable true entry.2
  environmentCount : texts.environment.length < 2 ^ 64
  timeoutSeconds : texts.timeoutSeconds < 2 ^ 64


theorem validateText_ok {name : String} {value : PyValue} {allowEmpty : Bool} {bytes : List UInt8} :
    validateText name value allowEmpty true = .ok bytes ↔
      ∃ text, value = textValue text ∧ Acceptable allowEmpty text ∧ bytes = utf8 text := by
  constructor
  · intro accepted
    cases value <;> simp only [validateText, reduceCtorEq] at accepted
    rename_i str
    split_ifs at accepted with empty nul
    cases decoded : Str.text? str with
    | none => simp [Str.encode, decoded] at accepted
    | some text =>
      obtain rfl := Str.ofText_of_text? decoded
      simp only [Str.encode_ofText] at accepted
      split_ifs at accepted with long
      refine ⟨text, rfl, ⟨?_, ?_, ?_⟩, (Except.ok.inj accepted).symm⟩
      · by_contra neither
        push Not at neither
        exact empty ⟨by simpa using neither.1, by simp [neither.2, Str.ofText]⟩
      · exact fun member => nul ⟨trivial, List.mem_map_of_mem member⟩
      · simp only [maxFramedBytes] at long
        exact show (utf8 text).length < 2 ^ 64 by omega
  · rintro ⟨text, rfl, ⟨nonempty, noNul, small⟩, rfl⟩
    have small : (utf8 text).length < 2 ^ 64 := small
    have present : ¬ (allowEmpty = false ∧ Str.ofText text = []) := by
      rintro ⟨rfl, empty⟩
      exact nonempty.elim (by simp) (fun filled => filled (List.map_eq_nil_iff.mp empty))
    have absent : CodePoint.scalar '\x00' ∉ Str.ofText text := by simpa [Str.ofText] using noNul
    have short : ¬ (utf8 text).length > maxFramedBytes := by simp only [maxFramedBytes]; omega
    simp only [validateText, textValue, present, if_false, absent, and_false, Str.encode_ofText, short]

theorem validateAbsolute_ok {isabs : Str → Bool} {name message : String} {value : PyValue}
    (accepted : validateAbsolute isabs name message value = .ok ()) :
    ∃ text, value = textValue text ∧ Acceptable false text := by
  obtain ⟨bytes, checked, _⟩ := bind_eq_ok.mp accepted
  obtain ⟨text, rfl, acceptable, _⟩ := validateText_ok.mp checked
  exact ⟨text, rfl, acceptable⟩

theorem validateArguments_ok {index : Nat} {items : List PyValue}
    (accepted : validateArguments index items = .ok ()) :
    ∃ texts : List Text, items = texts.map textValue ∧ ∀ text ∈ texts, Acceptable true text := by
  induction items generalizing index with
  | nil => exact ⟨[], rfl, by simp⟩
  | cons item rest ih =>
    rw [validateArguments] at accepted
    obtain ⟨bytes, checked, later⟩ := bind_eq_ok.mp accepted
    obtain ⟨text, rfl, acceptable, _⟩ := validateText_ok.mp checked
    obtain ⟨texts, rfl, others⟩ := ih later
    refine ⟨text :: texts, rfl, ?_⟩
    intro other member
    rcases List.mem_cons.mp member with rfl | member
    · exact acceptable
    · exact others other member

theorem validateEnvironment_ok {index : Nat} {previous : Option (List UInt8)} {seen : List PyValue}
    {items : List (Option (PyValue × PyValue))}
    (accepted : validateEnvironment index previous seen items = .ok ()) :
    ∃ entries : List (Text × Text), items = entries.map variableValue ∧
      ∀ entry ∈ entries, Acceptable false entry.1 ∧ Acceptable true entry.2 := by
  induction items generalizing index previous seen with
  | nil => exact ⟨[], rfl, by simp⟩
  | cons item rest ih =>
    cases item with
    | none => cases accepted
    | some pair =>
      obtain ⟨name, value⟩ := pair
      simp only [validateEnvironment] at accepted
      obtain ⟨nameBytes, named, later⟩ := bind_eq_ok.mp accepted
      obtain ⟨_, _, later⟩ := bind_eq_ok.mp later
      obtain ⟨valueBytes, valued, later⟩ := bind_eq_ok.mp later
      obtain ⟨_, _, later⟩ := bind_eq_ok.mp later
      obtain ⟨_, _, remaining⟩ := bind_eq_ok.mp later
      obtain ⟨nameText, rfl, acceptable, _⟩ := validateText_ok.mp named
      obtain ⟨valueText, rfl, acceptable', _⟩ := validateText_ok.mp valued
      obtain ⟨entries, rfl, others⟩ := ih remaining
      refine ⟨(nameText, valueText) :: entries, rfl, ?_⟩
      intro entry member
      rcases List.mem_cons.mp member with rfl | member
      · exact ⟨acceptable, acceptable'⟩
      · exact others entry member

theorem validateTimeout_ok {value : PyValue} (accepted : validateTimeout value = .ok ()) :
    ∃ timeout : Nat, value = .int timeout ∧ timeout < 2 ^ 64 := by
  cases value <;> simp only [validateTimeout, reduceCtorEq] at accepted
  rename_i timeout
  split_ifs at accepted with nonpositive long
  simp only [maxFramedBytes] at long
  exact ⟨timeout.toNat, by rw [Int.toNat_of_nonneg (by omega)], by omega⟩

theorem validateArgv_ok {argv : Option (PyTuple PyValue)} (accepted : validateArgv argv = .ok ()) :
    ∃ (tuple : PyTuple PyValue) (texts : List Text), argv = some tuple ∧
      tuple.items = texts.map textValue ∧ (∀ text ∈ texts, Acceptable true text) ∧
      texts.length < 2 ^ 64 := by
  cases argv with
  | none => cases accepted
  | some tuple =>
    obtain ⟨_, _, accepted⟩ := bind_eq_ok.mp accepted
    obtain ⟨texts, items, acceptable⟩ := validateArguments_ok accepted
    have fits := tuple.fits
    simp only [items, List.length_map, maxSize] at fits
    exact ⟨tuple, texts, rfl, items, acceptable, by omega⟩

theorem postInit_texts {isabs : Str → Bool} {fields : CommandFields}
    (initialized : postInit isabs fields = .ok ()) :
    ∃ texts : CommandTexts, texts.Describes fields ∧ texts.Acceptable := by
  obtain ⟨_, checkedExecutable, initialized⟩ := bind_eq_ok.mp initialized
  obtain ⟨_, checkedArgv, initialized⟩ := bind_eq_ok.mp initialized
  obtain ⟨_, checkedDirectory, initialized⟩ := bind_eq_ok.mp initialized
  obtain ⟨executable, executableValue, acceptableExecutable⟩ := validateAbsolute_ok checkedExecutable
  obtain ⟨argv, arguments, argvCase, argumentValues, acceptableArguments, countArguments⟩ :=
    validateArgv_ok checkedArgv
  obtain ⟨directory, directoryValue, acceptableDirectory⟩ := validateAbsolute_ok checkedDirectory
  cases environmentCase : fields.environment with
  | none => simp [environmentCase] at initialized
  | some environment =>
  simp only [environmentCase] at initialized
  obtain ⟨_, checkedEnvironment, checkedTimeout⟩ := bind_eq_ok.mp initialized
  obtain ⟨entries, entryValues, acceptableEntries⟩ := validateEnvironment_ok checkedEnvironment
  obtain ⟨timeout, timeoutValue, small⟩ := validateTimeout_ok checkedTimeout
  have countEntries : entries.length < 2 ^ 64 := by
    have fits := environment.fits
    simp only [entryValues, List.length_map, maxSize] at fits
    omega
  exact ⟨⟨executable, arguments, directory, entries, timeout⟩,
    ⟨executableValue, ⟨argv, argvCase, argumentValues⟩, directoryValue,
      ⟨environment, environmentCase, entryValues⟩, timeoutValue⟩,
    ⟨acceptableExecutable, acceptableArguments, countArguments, acceptableDirectory,
      acceptableEntries, countEntries, small⟩⟩

theorem CommandTexts.Describes.unique {texts : CommandTexts} {a b : CommandFields}
    (describes : texts.Describes a) (describes' : texts.Describes b) : a = b := by
  obtain ⟨executable, ⟨argv, argvCase, arguments⟩, directory, ⟨environment, environmentCase, entries⟩,
    timeout⟩ := describes
  obtain ⟨executable', ⟨argv', argvCase', arguments'⟩, directory',
    ⟨environment', environmentCase', entries'⟩, timeout'⟩ := describes'
  have tuples {α : Type} {left right : PyTuple α} (items : left.items = right.items) :
      left = right := by
    cases left; cases right; cases items; rfl
  have argvs : argv = argv' := tuples (arguments.trans arguments'.symm)
  have environments : environment = environment' := tuples (entries.trans entries'.symm)
  cases a; cases b; simp_all

/-! ## The canonical bytes as one encoding of the texts -/

def entryFrames (entry : Text × Text) : List UInt8 := frameText entry.1 ++ frameText entry.2

def CommandTexts.encoding (texts : CommandTexts) : List UInt8 :=
  commandSpecDomain ++ (frame (bytesLiteral "executable") ++ frameText texts.executable) ++
    frame (bytesLiteral "argv") ++ bigEndian 8 texts.argv.length ++ texts.argv.flatMap frameText ++
    (frame (bytesLiteral "working_directory") ++ frameText texts.workingDirectory) ++
    frame (bytesLiteral "environment") ++ bigEndian 8 texts.environment.length ++
    texts.environment.flatMap entryFrames ++
    frame (bytesLiteral "timeout_seconds") ++ bigEndian 8 texts.timeoutSeconds

theorem frameBytes_of_lt {bytes : List UInt8} (small : bytes.length < 2 ^ 64) :
    frameBytes bytes = .ok (frame bytes) := by
  have short : ¬ bytes.length > maxFramedBytes := by simp only [maxFramedBytes]; omega
  simp only [frameBytes, short, if_false, toBytes_of_lt small]
  rfl

theorem frameField_ok (name : String) {text : Text} (short : (bytesLiteral name).length < 2 ^ 64)
    (acceptable : Acceptable false text) :
    frameField name (textValue text) = .ok (frame (bytesLiteral name) ++ frameText text) := by
  have checked : validateText name (textValue text) false true = .ok (utf8 text) :=
    validateText_ok.mpr ⟨text, rfl, acceptable, rfl⟩
  simp only [frameField, frameBytes_of_lt short, checked]
  change (frameBytes (utf8 text) >>= _) = _
  rw [frameBytes_of_lt acceptable.2.2]
  rfl

theorem frameArguments_ok (texts : List Text) (acceptable : ∀ text ∈ texts, Acceptable true text) :
    frameArguments (texts.map textValue) = .ok (texts.flatMap frameText) := by
  induction texts with
  | nil => rfl
  | cons text rest ih =>
    have head := acceptable text (by simp)
    have checked : validateText "argv" (textValue text) true true = .ok (utf8 text) :=
      validateText_ok.mpr ⟨text, rfl, head, rfl⟩
    have tail := ih (fun other member => acceptable other (List.mem_cons_of_mem _ member))
    simp only [List.map_cons, frameArguments, checked, tail]
    change (frameBytes (utf8 text) >>= _) = _
    rw [frameBytes_of_lt head.2.2]
    rfl

theorem frameEnvironment_ok (entries : List (Text × Text))
    (acceptable : ∀ entry ∈ entries, Acceptable false entry.1 ∧ Acceptable true entry.2) :
    frameEnvironment (entries.map variableValue) = .ok (entries.flatMap entryFrames) := by
  induction entries with
  | nil => rfl
  | cons entry rest ih =>
    obtain ⟨head, head'⟩ := acceptable entry (by simp)
    have named : validateText "environment.name" (textValue entry.1) false true = .ok (utf8 entry.1) :=
      validateText_ok.mpr ⟨entry.1, rfl, head, rfl⟩
    have valued : validateText "environment.value" (textValue entry.2) true true = .ok (utf8 entry.2) :=
      validateText_ok.mpr ⟨entry.2, rfl, head', rfl⟩
    have tail := ih (fun other member => acceptable other (List.mem_cons_of_mem _ member))
    simp only [List.map_cons, variableValue, frameEnvironment, named, valued, tail]
    change (frameBytes (utf8 entry.1) >>= _) = _
    rw [frameBytes_of_lt head.2.2]
    change (frameBytes (utf8 entry.2) >>= _) = _
    rw [frameBytes_of_lt head'.2.2]
    rfl

/-- On the fields of a constructed value no check of the second pass can fail. -/
theorem canonicalCommandSpecBytes_ok {texts : CommandTexts} {fields : CommandFields}
    (describes : texts.Describes fields) (acceptable : texts.Acceptable) :
    canonicalCommandSpecBytes fields = .ok texts.encoding := by
  obtain ⟨executable, ⟨argv, argvCase, arguments⟩, directory, ⟨environment, environmentCase, entries⟩,
    timeout⟩ := describes
  have argvTag : frameBytes (bytesLiteral "argv") = .ok (frame (bytesLiteral "argv")) := frameBytes_of_lt (by decide)
  have environmentTag : frameBytes (bytesLiteral "environment") = .ok (frame (bytesLiteral "environment")) := frameBytes_of_lt (by decide)
  have timeoutTag : frameBytes (bytesLiteral "timeout_seconds") = .ok (frame (bytesLiteral "timeout_seconds")) := frameBytes_of_lt (by decide)
  have executableField := frameField_ok "executable" (by decide) acceptable.executable
  have directoryField := frameField_ok "working_directory" (by decide) acceptable.workingDirectory
  have argvItems : tupleItems fields.argv = .ok (texts.argv.map textValue) := by
    rw [argvCase, ← arguments]
    rfl
  have environmentItems : tupleItems fields.environment = .ok (texts.environment.map variableValue) := by
    rw [environmentCase, ← entries]
    rfl
  have timeoutField : timeoutBytes fields.timeoutSeconds = .ok (bigEndian 8 texts.timeoutSeconds) := by
    rw [timeout, timeoutBytes, if_neg (by omega), Int.toNat_natCast,
      toBytes_of_lt acceptable.timeoutSeconds]
  simp only [canonicalCommandSpecBytes, executable, directory, argvTag, environmentTag, timeoutTag,
    executableField, directoryField, timeoutField, argvItems, environmentItems]
  simp only [bind, Except.bind, List.length_map, toBytes_of_lt acceptable.argvCount,
    toBytes_of_lt acceptable.environmentCount, frameArguments_ok _ acceptable.argv,
    frameEnvironment_ok _ acceptable.environment]
  rfl

theorem entryFrames_delimited : SelfDelimiting (framable ×ˢ framable) entryFrames :=
  frameText_delimited.in_turn frameText_delimited

/-- The payload is parsed from the left: tags are fixed, texts are framed, sequences are counted. -/
theorem encoding_injective {a b : CommandTexts} (acceptable : a.Acceptable) (acceptable' : b.Acceptable)
    (same : a.encoding = b.encoding) : a = b := by
  have arguments := count_delimited.counted frameText_delimited
  have environments := count_delimited.counted entryFrames_delimited
  simp only [CommandTexts.encoding, List.append_assoc] at same
  have same := List.append_cancel_left (List.append_cancel_left same)
  obtain ⟨executables, same⟩ := frameText_delimited _ acceptable.executable.2.2 _
    acceptable'.executable.2.2 _ _ same
  have same := List.append_cancel_left same
  simp only [← List.append_assoc (bigEndian 8 _)] at same
  obtain ⟨argvs, same⟩ := arguments a.argv
    ⟨acceptable.argvCount, fun text member => (acceptable.argv text member).2.2⟩ b.argv
    ⟨acceptable'.argvCount, fun text member => (acceptable'.argv text member).2.2⟩ _ _ same
  have same := List.append_cancel_left same
  obtain ⟨directories, same⟩ := frameText_delimited _ acceptable.workingDirectory.2.2 _
    acceptable'.workingDirectory.2.2 _ _ same
  have same := List.append_cancel_left same
  obtain ⟨entries, same⟩ := environments a.environment
    ⟨acceptable.environmentCount, fun entry member =>
      ⟨(acceptable.environment entry member).1.2.2, (acceptable.environment entry member).2.2.2⟩⟩
    b.environment
    ⟨acceptable'.environmentCount, fun entry member =>
      ⟨(acceptable'.environment entry member).1.2.2, (acceptable'.environment entry member).2.2.2⟩⟩ _ _ same
  have same := List.append_cancel_left same
  have timeouts : a.timeoutSeconds = b.timeoutSeconds :=
    count_delimited.injOn acceptable.timeoutSeconds acceptable'.timeoutSeconds same
  cases a; cases b; simp_all

/-- Equal canonical bytes mean the same command in every field, canonicalisation never raises on a
constructed value, and without a SHA-256 collision on the two payloads equal hashes mean the same launch. -/
theorem canonicalCommandSpecBytes_injective (isabs : Str → Bool) (sha256 : List UInt8 → Text) :
    (∀ a b : LocalCommandSpec isabs,
      canonicalCommandSpecBytes a.fields = canonicalCommandSpecBytes b.fields → a = b) ∧
    (∀ spec : LocalCommandSpec isabs, ∃ bytes, canonicalCommandSpecBytes spec.fields = .ok bytes) ∧
    (∀ (a b : LocalCommandSpec isabs) (bytes bytes' : List UInt8),
      canonicalCommandSpecBytes a.fields = .ok bytes → canonicalCommandSpecBytes b.fields = .ok bytes' →
      (sha256 bytes = sha256 bytes' → bytes = bytes') →
      commandSpecHash sha256 a.fields = commandSpecHash sha256 b.fields → a = b) := by
  have returns (spec : LocalCommandSpec isabs) :
      ∃ bytes, canonicalCommandSpecBytes spec.fields = .ok bytes := by
    obtain ⟨texts, describes, acceptable⟩ := postInit_texts spec.initialized
    exact ⟨_, canonicalCommandSpecBytes_ok describes acceptable⟩
  have injective (a b : LocalCommandSpec isabs)
      (same : canonicalCommandSpecBytes a.fields = canonicalCommandSpecBytes b.fields) : a = b := by
    obtain ⟨texts, describes, acceptable⟩ := postInit_texts a.initialized
    obtain ⟨texts', describes', acceptable'⟩ := postInit_texts b.initialized
    rw [canonicalCommandSpecBytes_ok describes acceptable,
      canonicalCommandSpecBytes_ok describes' acceptable'] at same
    obtain rfl := encoding_injective acceptable acceptable' (Except.ok.inj same)
    cases a; cases b
    simpa using describes.unique describes'
  refine ⟨injective, returns, ?_⟩
  intro a b bytes bytes' returned returned' noCollision same
  apply injective
  simp only [commandSpecHash, returned, returned'] at same
  have digests := List.append_cancel_left (Except.ok.inj same)
  rw [returned, returned', noCollision (Str.ofText_injective digests)]

end Umbilical.Execution
