import Umbilical.Requests.Buildsets

set_option autoImplicit false

/-!
# Which requests stand for which others

The default rule for collapsing, `canBeCollapsed`, reads the source stamps, the
changes and the properties of two buildsets one after the other, while changes
may come in.
-/

namespace Umbilical.Requests

open Keyed

variable {ν : Type} [DecidableEq ν]

/-- Where `canBeCollapsed` is: about to look at the next pair of source stamps, to fetch the changes of the second one
of a pair, or at its end. -/
inductive Comparison where
  | sources (pairs : List (SourceStampRow × SourceStampRow))
  | otherChanges (selfChanges : Bool) (self other : SourceStampRow) (pairs : List (SourceStampRow × SourceStampRow))
  | answer (canCollapse : Bool)
  deriving DecidableEq

namespace Tables

variable (tables : Tables ν)

def sourceStamps (bsid : Nat) : List SourceStampRow :=
  (tables.buildsetSourcestamps.filter fun pair => pair.1 = bsid).filterMap fun pair =>
    lookup SourceStampRow.id tables.sourcestamps pair.2

/-- The dictionary of the source stamps by codebase, in which the last one of a codebase counts. -/
def source (bsid : Nat) (codebase : String) : Option SourceStampRow :=
  (tables.sourceStamps bsid).reverse.find? fun row => row.stamp.codebase = codebase

def codebases (bsid : Nat) : List String := ((tables.sourceStamps bsid).map fun row => row.stamp.codebase).eraseDups

def HasChanges (ssid : Nat) : Prop := ssid ∈ tables.changes

instance (ssid : Nat) : Decidable (tables.HasChanges ssid) := inferInstanceAs (Decidable (_ ∈ _))

def buildsetProperty (bsid : Nat) (name : String) : Option (PropertyRow ν) :=
  tables.buildsetProperties.reverse.find? fun row => row.buildsetid = bsid ∧ row.name = name

/-- The properties that `filter_buildset_props_for_collapsing` leaves. -/
def schedulerProperty (bsid : Nat) (name : String) : Option ν :=
  if name = "scheduler" then none
  else ((tables.buildsetProperty bsid name).filter fun row => row.source = "Scheduler").map PropertyRow.value

def propertyNames (bsid : Nat) : List String :=
  (tables.buildsetProperties.filter fun row => row.buildsetid = bsid).map PropertyRow.name

/-- The filtered dictionaries of two buildsets are equal. -/
def sameProperties (new old : Nat) : Bool :=
  (tables.propertyNames new ++ tables.propertyNames old).all fun name =>
    tables.schedulerProperty new name = tables.schedulerProperty old name

def beginComparison (new old : BuildRequestRow) : Comparison :=
  if new.buildsetid = old.buildsetid then .answer true
  -- the new request must be newer, or two of them might cancel each other
  else if new.id < old.id then .answer false
  else if ¬ (tables.codebases new.buildsetid ⊆ tables.codebases old.buildsetid ∧
      tables.codebases old.buildsetid ⊆ tables.codebases new.buildsetid) then .answer false
  else .sources <| (tables.codebases new.buildsetid).filterMap fun codebase =>
    (tables.source new.buildsetid codebase).bind fun self =>
      (tables.source old.buildsetid codebase).map fun other => (self, other)

/-- `canBeCollapsed` from one read to the next. -/
def compare (new old : BuildRequestRow) : Comparison → Comparison
  | .sources [] => .answer (tables.sameProperties new.buildsetid old.buildsetid)
  | .sources ((self, other) :: pairs) =>
      if self.stamp.repository ≠ other.stamp.repository then .answer false
      else if self.stamp.branch ≠ other.stamp.branch then .answer false
      else if self.stamp.project ≠ other.stamp.project then .answer false
      else if self.stamp.patchid.isSome ∨ other.stamp.patchid.isSome then .answer false
      else .otherChanges (tables.HasChanges self.id) self other pairs
  | .otherChanges selfChanges self other pairs =>
      let otherChanges : Bool := tables.HasChanges other.id
      if selfChanges && otherChanges then .sources pairs
      else if selfChanges && !otherChanges then .answer false
      else if !selfChanges && otherChanges then .answer false
      else if self.stamp.revision ≠ other.stamp.revision then .answer false
      else .sources pairs
  | .answer canCollapse => .answer canCollapse

/-- Two source stamps of one codebase of which one may be built for the other. -/
structure Alike (first second : SourceStampRow) : Prop where
  repository : first.stamp.repository = second.stamp.repository
  branch : first.stamp.branch = second.stamp.branch
  project : first.stamp.project = second.stamp.project
  unpatched : first.stamp.patchid = none ∧ second.stamp.patchid = none
  changes : first = second ∨ tables.HasChanges first.id ∧ tables.HasChanges second.id

/-- What the rule makes sure of for two buildsets. -/
structure Supersedes (new old : Nat) : Prop where
  codebases : ∀ codebase, (tables.source new codebase).isSome = (tables.source old codebase).isSome
  alike : ∀ codebase self other, tables.source new codebase = some self → tables.source old codebase = some other →
    tables.Alike self other
  properties : ∀ name, tables.schedulerProperty new name = tables.schedulerProperty old name

/-- Each source stamp is there once, and buildsets refer to source stamps that are there. -/
structure Catalogued : Prop where
  ids : Distinct SourceStampRow.id tables.sourcestamps
  stamps : Distinct SourceStampRow.stamp tables.sourcestamps
  linked : ∀ pair ∈ tables.buildsetSourcestamps, ∃ row ∈ tables.sourcestamps, row.id = pair.2

variable {tables} {first second third : SourceStampRow}

omit [DecidableEq ν] in
theorem Alike.trans (one : tables.Alike first second) (two : tables.Alike second third) : tables.Alike first third where
  repository := one.repository.trans two.repository
  branch := one.branch.trans two.branch
  project := one.project.trans two.project
  unpatched := ⟨one.unpatched.1, two.unpatched.2⟩
  changes := by
    rcases one.changes with rfl | ⟨some, _⟩
    · exact two.changes
    · rcases two.changes with rfl | ⟨_, also⟩
      · exact one.changes
      · exact .inr ⟨some, also⟩

omit [DecidableEq ν] in
theorem Supersedes.trans {new between old : Nat} (one : tables.Supersedes new between)
    (two : tables.Supersedes between old) : tables.Supersedes new old where
  codebases codebase := (one.codebases codebase).trans (two.codebases codebase)
  alike codebase self other here there := by
    obtain ⟨middle, also⟩ : ∃ middle, tables.source between codebase = some middle := by
      apply Option.isSome_iff_exists.mp
      rw [← one.codebases, here]
      rfl
    exact (one.alike codebase self middle here also).trans (two.alike codebase middle other also there)
  properties name := (one.properties name).trans (two.properties name)

omit [DecidableEq ν] in
theorem mem_codebases {bsid : Nat} {codebase : String} :
    codebase ∈ tables.codebases bsid ↔ (tables.source bsid codebase).isSome := by
  simp [codebases, source, List.find?_isSome]

omit [DecidableEq ν] in
theorem mem_of_source {bsid : Nat} {codebase : String} {row : SourceStampRow}
    (found : tables.source bsid codebase = some row) : row ∈ tables.sourcestamps ∧ row.stamp.codebase = codebase := by
  have member := List.mem_reverse.mp (List.mem_of_find?_eq_some found)
  obtain ⟨pair, -, there⟩ := List.mem_filterMap.mp member
  exact ⟨(mem_of_lookup there).1, by simpa using List.find?_some found⟩

theorem sameProperties_iff {new old : Nat} : tables.sameProperties new old = true ↔
    ∀ name, tables.schedulerProperty new name = tables.schedulerProperty old name := by
  have absent : ∀ bsid name, name ∉ tables.propertyNames bsid → tables.schedulerProperty bsid name = none := by
    intro bsid name outside
    have none : tables.buildsetProperty bsid name = none := by
      refine List.find?_eq_none.mpr fun row member found => outside ?_
      obtain ⟨within, rfl⟩ := of_decide_eq_true found
      exact List.mem_map.mpr ⟨row, List.mem_filter.mpr ⟨List.mem_reverse.mp member, by simpa using within⟩, rfl⟩
    simp [schedulerProperty, none]
  constructor
  · intro same name
    by_cases inside : name ∈ tables.propertyNames new ++ tables.propertyNames old
    · simpa using List.all_eq_true.mp same name inside
    · simp only [List.mem_append, not_or] at inside
      rw [absent new name inside.1, absent old name inside.2]
  · intro same
    exact List.all_eq_true.mpr fun name _ => by simpa using same name

/-- What a comparison knows of two requests. -/
def Compares (new old : BuildRequestRow) : Comparison → Prop
  | .sources pairs => old.id ≤ new.id ∧
      (∀ codebase, (tables.source new.buildsetid codebase).isSome = (tables.source old.buildsetid codebase).isSome) ∧
      ∀ codebase self other, tables.source new.buildsetid codebase = some self →
        tables.source old.buildsetid codebase = some other → (self, other) ∈ pairs ∨ tables.Alike self other
  | .otherChanges selfChanges first second pairs => old.id ≤ new.id ∧
      (∀ codebase, (tables.source new.buildsetid codebase).isSome = (tables.source old.buildsetid codebase).isSome) ∧
      (∀ codebase self other, tables.source new.buildsetid codebase = some self →
        tables.source old.buildsetid codebase = some other →
        (self, other) ∈ (first, second) :: pairs ∨ tables.Alike self other) ∧
      first.stamp.repository = second.stamp.repository ∧ first.stamp.branch = second.stamp.branch ∧
      first.stamp.project = second.stamp.project ∧ first.stamp.patchid = none ∧ second.stamp.patchid = none ∧
      (selfChanges = true → tables.HasChanges first.id)
  | .answer canCollapse => canCollapse = true → new.buildsetid = old.buildsetid ∨
      old.id ≤ new.id ∧ tables.Supersedes new.buildsetid old.buildsetid

omit [DecidableEq ν] in
theorem beginComparison_compares (new old : BuildRequestRow) :
    tables.Compares new old (tables.beginComparison new old) := by
  unfold beginComparison
  split_ifs with same older matching
  · exact fun _ => .inl same
  · exact nofun
  · have codebases : ∀ codebase, (tables.source new.buildsetid codebase).isSome =
        (tables.source old.buildsetid codebase).isSome := by
      intro codebase
      obtain ⟨left, right⟩ := matching
      rw [Bool.eq_iff_iff, ← mem_codebases, ← mem_codebases]
      exact ⟨fun member => left member, fun member => right member⟩
    refine ⟨Nat.le_of_not_lt older, codebases, fun codebase self other here there => .inl ?_⟩
    refine List.mem_filterMap.mpr ⟨codebase, mem_codebases.mpr (by simp [here]), ?_⟩
    simp [here, there]
  · exact nofun

theorem Compares.compare (catalogued : tables.Catalogued) {new old : BuildRequestRow} {comparison : Comparison}
    (compares : tables.Compares new old comparison) :
    tables.Compares new old (tables.compare new old comparison) := by
  cases comparison with
  | sources pairs =>
    obtain ⟨newer, codebases, rest⟩ := compares
    cases pairs with
    | nil =>
      intro same
      refine .inr ⟨newer, codebases, fun codebase self other here there => ?_, sameProperties_iff.mp same⟩
      rcases rest codebase self other here there with none | alike
      · cases none
      · exact alike
    | cons pair pairs =>
      obtain ⟨first, second⟩ := pair
      simp only [Tables.compare]
      split
      · exact nofun
      split
      · exact nofun
      split
      · exact nofun
      split
      · exact nofun
      rename_i repository branch project patched
      simp only [not_or, Bool.not_eq_true, Option.isSome_eq_false_iff, Option.isNone_iff_eq_none] at patched
      exact ⟨newer, codebases, rest, not_not.mp repository, not_not.mp branch, not_not.mp project, patched.1, patched.2,
        of_decide_eq_true⟩
  | otherChanges selfChanges first second pairs =>
    obtain ⟨newer, codebases, rest, repository, branch, project, unpatched, also, changes⟩ := compares
    -- what is said of the pair at hand takes it off the list
    have next : (∀ codebase, first.stamp.codebase = codebase → second.stamp.codebase = codebase →
        first ∈ tables.sourcestamps → second ∈ tables.sourcestamps → tables.Alike first second) →
        tables.Compares new old (.sources pairs) := by
      intro alike
      refine ⟨newer, codebases, fun codebase self other here there => ?_⟩
      rcases rest codebase self other here there with member | alike'
      · rcases List.mem_cons.mp member with same | later
        · cases same
          obtain ⟨left, firstCodebase⟩ := mem_of_source here
          obtain ⟨right, secondCodebase⟩ := mem_of_source there
          exact .inr (alike codebase firstCodebase secondCodebase left right)
        · exact .inl later
      · exact .inr alike'
    simp only [Tables.compare]
    split
    next both =>
      simp only [Bool.and_eq_true, decide_eq_true_eq] at both
      exact next fun _ _ _ _ _ => ⟨repository, branch, project, ⟨unpatched, also⟩, .inr ⟨changes both.1, both.2⟩⟩
    split
    · exact nofun
    split
    · exact nofun
    split
    · exact nofun
    rename_i revision
    -- without changes the stamps agree in everything, so they are one
    refine next fun codebase left right here there => ⟨repository, branch, project, ⟨unpatched, also⟩, .inl ?_⟩
    apply catalogued.stamps.eq_of_key here there
    have revisions := not_not.mp revision
    obtain ⟨_, stamp⟩ := first
    obtain ⟨_, stamp'⟩ := second
    cases stamp
    cases stamp'
    simp_all
  | answer canCollapse => exact compares

/-- Two rows of one request at different times. -/
def Same (first second : BuildRequestRow) : Prop :=
  first.id = second.id ∧ first.buildsetid = second.buildsetid ∧ first.builderid = second.builderid

def Known (tables : Tables ν) (bsid : Nat) : Prop := ∃ buildset ∈ tables.buildsets, buildset.id = bsid

/-- What stays of requests, source stamps and properties, whatever is added and whoever claims and completes. -/
structure Extends (before after : Tables ν) : Prop where
  later : ∀ row ∈ before.buildrequests, ∃ other ∈ after.buildrequests, Same other row
  earlier : ∀ row ∈ after.buildrequests, before.Known row.buildsetid → ∃ other ∈ before.buildrequests, Same other row
  known : ∀ bsid, before.Known bsid → after.Known bsid
  source : ∀ bsid, before.Known bsid → after.source bsid = before.source bsid
  property : ∀ bsid, before.Known bsid → after.buildsetProperty bsid = before.buildsetProperty bsid
  changes : ∀ ssid, before.HasChanges ssid → after.HasChanges ssid

section Extension

variable {before after : Tables ν} {new old : BuildRequestRow} {comparison : Comparison}

omit [DecidableEq ν]

theorem Extends.alike (grown : before.Extends after) (alike : before.Alike first second) : after.Alike first second where
  repository := alike.repository
  branch := alike.branch
  project := alike.project
  unpatched := alike.unpatched
  changes := alike.changes.imp id fun both => ⟨grown.changes _ both.1, grown.changes _ both.2⟩

theorem Extends.supersedes (grown : before.Extends after) {new old : Nat} (newKnown : before.Known new)
    (oldKnown : before.Known old) (supersedes : before.Supersedes new old) : after.Supersedes new old where
  codebases codebase := by
    rw [grown.source new newKnown, grown.source old oldKnown]
    exact supersedes.codebases codebase
  alike codebase self other here there := by
    rw [grown.source new newKnown] at here
    rw [grown.source old oldKnown] at there
    exact grown.alike (supersedes.alike codebase self other here there)
  properties name := by
    simp only [schedulerProperty, grown.property new newKnown, grown.property old oldKnown]
    exact supersedes.properties name

theorem Extends.compares (grown : before.Extends after) (newKnown : before.Known new.buildsetid)
    (oldKnown : before.Known old.buildsetid) (compares : before.Compares new old comparison) :
    after.Compares new old comparison := by
  cases comparison with
  | sources pairs =>
    obtain ⟨newer, codebases, rest⟩ := compares
    simp only [Compares, grown.source _ newKnown, grown.source _ oldKnown]
    refine ⟨newer, codebases, fun codebase self other here there => ?_⟩
    exact (rest codebase self other here there).imp id grown.alike
  | otherChanges selfChanges self other pairs =>
    obtain ⟨newer, codebases, rest, repository, branch, project, unpatched, also, changes⟩ := compares
    simp only [Compares, grown.source _ newKnown, grown.source _ oldKnown]
    refine ⟨newer, codebases, fun codebase self other here there => ?_, repository, branch, project, unpatched, also,
      fun yes => grown.changes _ (changes yes)⟩
    exact (rest codebase self other here there).imp id grown.alike
  | answer canCollapse =>
    intro yes
    exact (compares yes).imp id fun both => ⟨both.1, grown.supersedes newKnown oldKnown both.2⟩

theorem Extends.of_catalogue (later : ∀ row ∈ before.buildrequests, ∃ other ∈ after.buildrequests, Same other row)
    (earlier : ∀ row ∈ after.buildrequests, ∃ other ∈ before.buildrequests, Same other row)
    (buildsets : after.buildsets = before.buildsets)
    (pairs : after.buildsetSourcestamps = before.buildsetSourcestamps)
    (stamps : after.sourcestamps = before.sourcestamps)
    (properties : after.buildsetProperties = before.buildsetProperties)
    (changes : ∀ ssid, before.HasChanges ssid → after.HasChanges ssid) : before.Extends after where
  later := later
  earlier row member _ := earlier row member
  known bsid known := by simpa only [Known, buildsets] using known
  source bsid _ := by
    funext codebase
    simp only [Tables.source, sourceStamps, pairs, stamps]
  property bsid _ := by
    funext name
    simp only [buildsetProperty, properties]
  changes := changes

theorem Effect.extends {masterid : Nat} {operation : Operation} (effect : Effect masterid before after operation) :
    before.Extends after := by
  have still : ∀ row ∈ before.buildrequests, ∃ other ∈ before.buildrequests, Same other row :=
    fun row member => ⟨row, member, rfl, rfl, rfl⟩
  cases operation with
  | claimBuildRequests brids claimedAt =>
    obtain ⟨-, rfl⟩ := effect
    exact .of_catalogue still still rfl rfl rfl rfl fun _ there => there
  | unclaimBuildRequests brids =>
    cases effect
    exact .of_catalogue still still rfl rfl rfl rfl fun _ there => there
  | completeBuildRequests brids results completeAt =>
    obtain ⟨-, rfl⟩ := effect
    have same : ∀ row : BuildRequestRow,
        Same (if row.id ∈ brids then row.completed results completeAt else row) row := by
      intro row
      split_ifs <;> exact ⟨rfl, rfl, rfl⟩
    refine .of_catalogue (fun row member => ?_) (fun row member => ?_) rfl rfl rfl rfl fun _ there => there
    · exact ⟨_, List.mem_map_of_mem member, same row⟩
    · obtain ⟨other, there, rfl⟩ := List.mem_map.mp member
      obtain ⟨ids, sets, builders⟩ := same other
      exact ⟨other, there, ids.symm, sets.symm, builders.symm⟩

theorem Effect.catalogued {masterid : Nat} {operation : Operation} (catalogued : before.Catalogued)
    (effect : Effect masterid before after operation) : after.Catalogued := by
  cases operation with
  | claimBuildRequests brids claimedAt =>
    obtain ⟨-, rfl⟩ := effect
    exact ⟨catalogued.ids, catalogued.stamps, catalogued.linked⟩
  | unclaimBuildRequests brids =>
    cases effect
    exact ⟨catalogued.ids, catalogued.stamps, catalogued.linked⟩
  | completeBuildRequests brids results completeAt =>
    obtain ⟨-, rfl⟩ := effect
    exact ⟨catalogued.ids, catalogued.stamps, catalogued.linked⟩

theorem Extends.refl (tables : Tables ν) : tables.Extends tables :=
  have still : ∀ row ∈ tables.buildrequests, ∃ other ∈ tables.buildrequests, Same other row :=
    fun row member => ⟨row, member, rfl, rfl, rfl⟩
  .of_catalogue still still rfl rfl rfl rfl fun _ there => there

theorem Extends.addBuilder (builderid : Nat) : before.Extends (before.addBuilder builderid) :=
  have still : ∀ row ∈ before.buildrequests, ∃ other ∈ before.buildrequests, Same other row :=
    fun row member => ⟨row, member, rfl, rfl, rfl⟩
  .of_catalogue still still rfl rfl rfl rfl fun _ there => there

theorem Extends.addChange (ssid : Nat) : before.Extends (before.addChange ssid) :=
  have still : ∀ row ∈ before.buildrequests, ∃ other ∈ before.buildrequests, Same other row :=
    fun row member => ⟨row, member, rfl, rfl, rfl⟩
  .of_catalogue still still rfl rfl rfl rfl fun _ there => List.mem_append_left _ there

theorem Extends.addSourcestamp (catalogued : before.Catalogued) {row : SourceStampRow}
    (fresh : lookup SourceStampRow.id before.sourcestamps row.id = none) :
    before.Extends (before.addSourcestamp row) where
  later other member := ⟨other, member, rfl, rfl, rfl⟩
  earlier other member _ := ⟨other, member, rfl, rfl, rfl⟩
  known _ known := known
  source bsid _ := by
    funext codebase
    have stamps : (before.addSourcestamp row).sourceStamps bsid = before.sourceStamps bsid := by
      refine List.filterMap_congr fun pair member => ?_
      obtain ⟨linked, there, same⟩ := catalogued.linked pair (List.mem_filter.mp member).1
      -- the stamp of a buildset is one that has been there
      apply lookup_append_of_ne
      intro identical
      exact lookup_eq_none.mp fresh linked there (same.trans identical.symm)
    simp only [Tables.source, stamps]
  property _ _ := rfl
  changes _ there := there

theorem Extends.addBuildset {new : NewBuildset ν} (admits : before.Admits new)
    (added : before.addBuildset new = .ok after) : before.Extends after := by
  obtain ⟨-, rfl⟩ := addBuildset_eq_ok added
  have other : ∀ bsid, before.Known bsid → new.bsid ≠ bsid := by
    rintro _ ⟨buildset, there, same⟩ rfl
    exact lookup_eq_none.mp admits.1 buildset there same
  refine ⟨fun row member => ⟨row, List.mem_append_left _ member, rfl, rfl, rfl⟩, fun row member known => ?_,
    fun bsid known => ?_, fun bsid known => ?_, fun bsid known => ?_, fun _ there => there⟩
  · rcases List.mem_append.mp member with old | fresh
    · exact ⟨row, old, rfl, rfl, rfl⟩
    · obtain ⟨builderid, -, brid, -, rfl⟩ := mem_requests fresh
      exact absurd rfl (other _ known)
  · obtain ⟨buildset, there, same⟩ := known
    exact ⟨buildset, List.mem_append_left _ there, same⟩
  · funext codebase
    have none : (new.sourcestamps.map fun ssid => (new.bsid, ssid)).filter (fun pair => decide (pair.1 = bsid)) = [] := by
      refine List.filter_eq_nil_iff.mpr fun pair member => ?_
      obtain ⟨ssid, -, rfl⟩ := List.mem_map.mp member
      simpa using other bsid known
    simp only [Tables.source, sourceStamps, List.filter_append, none, List.append_nil]
  · funext name
    simp only [buildsetProperty, List.reverse_append, List.find?_append]
    rw [List.find?_eq_none.mpr, Option.none_or]
    intro row member
    obtain ⟨⟨name, value, source⟩, -, rfl⟩ := List.mem_map.mp (List.mem_reverse.mp member)
    simp [other bsid known]

theorem Catalogued.addSourcestamp (catalogued : before.Catalogued) {row : SourceStampRow}
    (freshId : lookup SourceStampRow.id before.sourcestamps row.id = none)
    (freshStamp : lookup SourceStampRow.stamp before.sourcestamps row.stamp = none) :
    (before.addSourcestamp row).Catalogued where
  ids := distinct_append.mpr ⟨catalogued.ids, freshId⟩
  stamps := distinct_append.mpr ⟨catalogued.stamps, freshStamp⟩
  linked pair member := by
    obtain ⟨linked, there, same⟩ := catalogued.linked pair member
    exact ⟨linked, List.mem_append_left _ there, same⟩

theorem Catalogued.addBuildset (catalogued : before.Catalogued) {new : NewBuildset ν} (admits : before.Admits new)
    (added : before.addBuildset new = .ok after) : after.Catalogued := by
  obtain ⟨-, rfl⟩ := addBuildset_eq_ok added
  refine ⟨catalogued.ids, catalogued.stamps, fun pair member => ?_⟩
  rcases List.mem_append.mp member with old | fresh
  · exact catalogued.linked pair old
  · obtain ⟨ssid, there, rfl⟩ := List.mem_map.mp fresh
    exact admits.2.2.2.2.2 ssid there

end Extension

end Tables

end Umbilical.Requests
