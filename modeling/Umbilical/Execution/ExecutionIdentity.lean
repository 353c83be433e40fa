import Umbilical.Authority.Arguments
import Umbilical.Execution.Framing

set_option autoImplicit false

namespace Umbilical.Execution

open Python Authority

def executionKeyDomain : List UInt8 := bytesLiteral "umbilical-execution-key-v1\x00"

def maxComponentBytes : Nat := 2 ^ 64 - 1

def frameIdentityComponent (name : String) : PyValue → Except PyError (List UInt8)
  | .str value =>
      if value = [] then
        .error (.invalid .invalidExecutionIdentityError (name ++ " must be an exact non-empty string"))
      else match value.encode with
        | .error .unicodeEncodeError =>
            .error (.invalid .invalidExecutionIdentityError
              (name ++ " must be strictly UTF-8 encodable"))
        | .error error => .error error
        | .ok encoded =>
            if encoded.length > maxComponentBytes then
              .error (.invalid .invalidExecutionIdentityError
                (name ++ " UTF-8 byte length exceeds unsigned 64-bit framing"))
            else do
              let frame ← toBytes encoded.length 8
              return frame ++ encoded
  | _ => .error (.invalid .invalidExecutionIdentityError
      (name ++ " must be an exact non-empty string"))

def deriveExecutionKey (repositoryIdentity subjectIdentity revisionIdentity causalRoot : PyValue) :
    Except PyError Str := do
  let repository ← frameIdentityComponent "RepositoryIdentity" repositoryIdentity
  let subject ← frameIdentityComponent "SubjectIdentity" subjectIdentity
  let revision ← frameIdentityComponent "RevisionIdentity" revisionIdentity
  let causal ← frameIdentityComponent "CausalRoot" causalRoot
  let canonicalPayload := executionKeyDomain ++ repository ++ subject ++ revision ++ causal
  return Str.literal "uek1:" ++ Str.ofText (urlsafeB64Encode canonicalPayload)

/-- Four strings that CPython can hold. -/
structure ExecutionIdentity where
  repositoryIdentity : PyStr
  subjectIdentity : PyStr
  revisionIdentity : PyStr
  causalRoot : PyStr
  deriving DecidableEq

namespace ExecutionIdentity

def components (identity : ExecutionIdentity) : List PyStr :=
  [identity.repositoryIdentity, identity.subjectIdentity, identity.revisionIdentity,
    identity.causalRoot]

def Valid (identity : ExecutionIdentity) : Prop :=
  ∀ component ∈ identity.components, component.points ≠ [] ∧ component.points.Encodable

def executionKey (identity : ExecutionIdentity) : Except PyError Str :=
  deriveExecutionKey (.str identity.repositoryIdentity.points) (.str identity.subjectIdentity.points)
    (.str identity.revisionIdentity.points) (.str identity.causalRoot.points)

end ExecutionIdentity

/-- What a rejected component raises, by what is wrong with it. -/
theorem frameIdentityComponent_rejects (name : String) (component : PyStr)
    (invalid : ¬ (component.points ≠ [] ∧ component.points.Encodable)) :
    ∃ message, frameIdentityComponent name (.str component.points) =
      .error (.invalid .invalidExecutionIdentityError message) := by
  unfold frameIdentityComponent
  by_cases empty : component.points = []
  · exact ⟨_, by simp only [empty, if_true]; rfl⟩
  · have surrogates : Str.text? component.points = none := by
      by_contra decodes
      exact invalid ⟨empty, Option.isSome_iff_ne_none.mpr decodes⟩
    exact ⟨_, by simp only [empty, if_false, Str.encode, surrogates]; rfl⟩

theorem frameIdentityComponent_accepts (name : String) (component : PyStr) {text : Text}
    (decoded : component.points = Str.ofText text) (nonempty : component.points ≠ []) :
    frameIdentityComponent name (.str component.points) = .ok (frameText text) := by
  have small := component.utf8_length_lt (Str.text?_eq_some.mpr decoded)
  have unframed : ¬ (utf8 text).length > maxComponentBytes := by
    simp only [maxComponentBytes]
    omega
  rw [decoded] at nonempty ⊢
  simp only [frameIdentityComponent, nonempty, if_false, Str.encode_ofText, unframed,
    toBytes_of_lt small]
  rfl

/-- The texts of a valid identity. -/
structure IdentityTexts (identity : ExecutionIdentity) where
  repository : Text
  subject : Text
  revision : Text
  causal : Text
  repositoryPoints : identity.repositoryIdentity.points = Str.ofText repository
  subjectPoints : identity.subjectIdentity.points = Str.ofText subject
  revisionPoints : identity.revisionIdentity.points = Str.ofText revision
  causalPoints : identity.causalRoot.points = Str.ofText causal

theorem ExecutionIdentity.Valid.texts {identity : ExecutionIdentity} (valid : identity.Valid) :
    Nonempty (IdentityTexts identity) := by
  obtain ⟨repository, repositoryPoints⟩ :=
    Str.encodable_iff.mp (valid identity.repositoryIdentity (by simp [components])).2
  obtain ⟨subject, subjectPoints⟩ :=
    Str.encodable_iff.mp (valid identity.subjectIdentity (by simp [components])).2
  obtain ⟨revision, revisionPoints⟩ :=
    Str.encodable_iff.mp (valid identity.revisionIdentity (by simp [components])).2
  obtain ⟨causal, causalPoints⟩ :=
    Str.encodable_iff.mp (valid identity.causalRoot (by simp [components])).2
  exact ⟨⟨repository, subject, revision, causal, repositoryPoints, subjectPoints, revisionPoints,
    causalPoints⟩⟩

def IdentityTexts.payload {identity : ExecutionIdentity} (texts : IdentityTexts identity) :
    List UInt8 :=
  executionKeyDomain ++ frameText texts.repository ++ frameText texts.subject ++
    frameText texts.revision ++ frameText texts.causal

theorem executionKey_of_texts {identity : ExecutionIdentity} (valid : identity.Valid)
    (texts : IdentityTexts identity) :
    identity.executionKey =
      .ok (Str.literal "uek1:" ++ Str.ofText (urlsafeB64Encode texts.payload)) := by
  have repository := frameIdentityComponent_accepts "RepositoryIdentity" _ texts.repositoryPoints
    (valid _ (by simp [ExecutionIdentity.components])).1
  have subject := frameIdentityComponent_accepts "SubjectIdentity" _ texts.subjectPoints
    (valid _ (by simp [ExecutionIdentity.components])).1
  have revision := frameIdentityComponent_accepts "RevisionIdentity" _ texts.revisionPoints
    (valid _ (by simp [ExecutionIdentity.components])).1
  have causal := frameIdentityComponent_accepts "CausalRoot" _ texts.causalPoints
    (valid _ (by simp [ExecutionIdentity.components])).1
  simp only [ExecutionIdentity.executionKey, deriveExecutionKey, repository, subject, revision, causal]
  rfl

/-- The payload is parsed from the left: domain, then one frame after another. -/
theorem payload_injective {a b : ExecutionIdentity} (textsA : IdentityTexts a)
    (textsB : IdentityTexts b) (same : textsA.payload = textsB.payload) : a = b := by
  have small {component : PyStr} {text : Text} (points : component.points = Str.ofText text) :
      text ∈ framable :=
    component.utf8_length_lt (Str.text?_eq_some.mpr points)
  have component {left right : PyStr} {text : Text} (points : left.points = Str.ofText text)
      (points' : right.points = Str.ofText text) : left = right := by
    cases left; cases right; simp_all
  simp only [IdentityTexts.payload, List.append_assoc] at same
  have same := List.append_cancel_left same
  obtain ⟨repositories, same⟩ := frameText_delimited _ (small textsA.repositoryPoints) _
    (small textsB.repositoryPoints) _ _ same
  obtain ⟨subjects, same⟩ := frameText_delimited _ (small textsA.subjectPoints) _
    (small textsB.subjectPoints) _ _ same
  obtain ⟨revisions, same⟩ := frameText_delimited _ (small textsA.revisionPoints) _
    (small textsB.revisionPoints) _ _ same
  obtain ⟨causals, _⟩ := frameText_delimited _ (small textsA.causalPoints) _
    (small textsB.causalPoints) [] [] (by simpa using same)
  have first := component textsA.repositoryPoints (repositories ▸ textsB.repositoryPoints)
  have second := component textsA.subjectPoints (subjects ▸ textsB.subjectPoints)
  have third := component textsA.revisionPoints (revisions ▸ textsB.revisionPoints)
  have fourth := component textsA.causalPoints (causals ▸ textsB.causalPoints)
  cases a; cases b; simp_all

theorem executionKey_rejects {identity : ExecutionIdentity} (invalid : ¬ identity.Valid) :
    ∃ message, identity.executionKey = .error (.invalid .invalidExecutionIdentityError message) := by
  unfold ExecutionIdentity.executionKey deriveExecutionKey
  -- the first invalid component decides, whatever the later ones are
  have framed (name : String) (component : PyStr) :
      (∃ bytes, frameIdentityComponent name (.str component.points) = .ok bytes) ∧
          component.points ≠ [] ∧ component.points.Encodable ∨
        ∃ message, frameIdentityComponent name (.str component.points) =
          .error (.invalid .invalidExecutionIdentityError message) := by
    by_cases good : component.points ≠ [] ∧ component.points.Encodable
    · obtain ⟨text, points⟩ := Str.encodable_iff.mp good.2
      exact .inl ⟨⟨_, frameIdentityComponent_accepts name component points good.1⟩, good⟩
    · exact .inr (frameIdentityComponent_rejects name component good)
  rcases framed "RepositoryIdentity" identity.repositoryIdentity with ⟨⟨_, first⟩, good⟩ | ⟨message, first⟩
  swap
  · exact ⟨message, by rw [first]; rfl⟩
  rcases framed "SubjectIdentity" identity.subjectIdentity with ⟨⟨_, second⟩, good'⟩ | ⟨message, second⟩
  swap
  · exact ⟨message, by rw [first, second]; rfl⟩
  rcases framed "RevisionIdentity" identity.revisionIdentity with ⟨⟨_, third⟩, good''⟩ | ⟨message, third⟩
  swap
  · exact ⟨message, by rw [first, second, third]; rfl⟩
  rcases framed "CausalRoot" identity.causalRoot with ⟨⟨_, fourth⟩, good'''⟩ | ⟨message, fourth⟩
  swap
  · exact ⟨message, by rw [first, second, third, fourth]; rfl⟩
  refine absurd ?_ invalid
  intro component member
  simp only [ExecutionIdentity.components, List.mem_cons, List.not_mem_nil, or_false] at member
  rcases member with rfl | rfl | rfl | rfl <;> assumption

/-- Every pair of identities, NUL bytes and bytes that look like frames included: equal keys mean
equal components, and a key is refused exactly for an empty or unencodable component. -/
theorem deriveExecutionKey_injective :
    (∀ a b : ExecutionIdentity, a.Valid → b.Valid → (a.executionKey = b.executionKey ↔ a = b)) ∧
    (∀ identity : ExecutionIdentity,
      (∃ message, identity.executionKey =
        .error (.invalid .invalidExecutionIdentityError message)) ↔ ¬ identity.Valid) ∧
    (∀ identity : ExecutionIdentity, identity.Valid →
      ∃ key, identity.executionKey = .ok key ∧ validateExecutionKey (.str key) = .ok key ∧
        key.Encodable) := by
  refine ⟨?_, ?_, ?_⟩
  · intro a b validA validB
    refine ⟨fun same => ?_, fun same => by rw [same]⟩
    obtain ⟨textsA⟩ := validA.texts
    obtain ⟨textsB⟩ := validB.texts
    rw [executionKey_of_texts validA textsA, executionKey_of_texts validB textsB] at same
    have encodings := List.append_cancel_left (Except.ok.inj same)
    exact payload_injective textsA textsB
      (urlsafeB64Encode_injective (Str.ofText_injective encodings))
  · intro identity
    refine ⟨fun ⟨message, raised⟩ valid => ?_, executionKey_rejects⟩
    obtain ⟨texts⟩ := valid.texts
    rw [executionKey_of_texts valid texts] at raised
    cases raised
  · intro identity valid
    obtain ⟨texts⟩ := valid.texts
    refine ⟨_, executionKey_of_texts valid texts, validateExecutionKey_ok.mpr ⟨rfl, by simp [Str.literal, Str.ofText]⟩, ?_⟩
    rw [Str.encodable_iff]
    exact ⟨"uek1:".toList ++ urlsafeB64Encode texts.payload, (List.map_append).symm⟩

end Umbilical.Execution
