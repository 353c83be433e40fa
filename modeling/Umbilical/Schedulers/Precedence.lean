import Umbilical.Schedulers.SourceStamps

set_option autoImplicit false

/-!
# Which properties a triggered buildset gets

The properties of the triggering build are put over those of the scheduler, and then
`addBuildsetForSourceStamps` puts the scheduler's own ones over both.
-/

namespace Umbilical.Schedulers

variable {ν : Type}

/-! ## The heap -/

namespace Heap

theorem get_append_of_lt (heap : Heap ν) (more : List (Properties ν)) {ref : Nat} (valid : ref < heap.length) :
    Heap.get (heap ++ more) ref = heap.get ref := by
  unfold Heap.get
  rw [List.getD_eq_getElem?_getD, List.getD_eq_getElem?_getD, List.getElem?_append_left valid]

theorem get_new (heap : Heap ν) (properties : Properties ν) : Heap.get (heap ++ [properties]) heap.length = properties := by
  simp [Heap.get, List.getD]

theorem update_new (heap : Heap ν) (properties other : Properties ν) :
    Heap.updateFromProperties (heap ++ [properties]) heap.length other =
      heap ++ [properties.updateFromProperties other] := by
  unfold Heap.updateFromProperties
  rw [get_new]
  simp

end Heap

theorem truthy_iff (properties : Properties ν) :
    properties.truthy = true ↔ ∃ name, (properties.properties.get name).isSome := by
  unfold Properties.truthy
  rw [decide_eq_true_iff]
  constructor
  · intro some_
    obtain ⟨item, member⟩ := List.exists_mem_of_ne_nil _ some_
    exact ⟨item.1, (Dict.isSome_get _ _).mpr (List.mem_map_of_mem member)⟩
  · rintro ⟨name, found⟩ nothing
    have member := (Dict.isSome_get _ _).mp found
    unfold Dict.keys at member
    rw [nothing] at member
    cases member

/-- What the triggering build sets. -/
def setProps (heap : Heap ν) (set_props : Option Nat) : Properties ν := set_props.elim Properties.empty heap.get

theorem composed_spec (heap : Heap ν) {own : Nat} {set_props : Option Nat} (mine : own < heap.length)
    (theirs : ∀ ref ∈ set_props, ref < heap.length) :
    ∃ props, composed heap own set_props = (heap ++ [props], heap.length) ∧ ∀ name, props.properties.get name =
      ((setProps heap set_props).properties.get name).or ((heap.get own).properties.get name) := by
  unfold composed Heap.new
  dsimp only
  rw [Heap.get_append_of_lt heap _ mine, Heap.update_new]
  have start (name : String) : ((Properties.empty : Properties ν).updateFromProperties (heap.get own)).properties.get name =
      (heap.get own).properties.get name := by
    unfold Properties.updateFromProperties Properties.empty
    rw [Dict.get_update, Dict.get_empty, Option.or_none]
  cases set_props with
  | none => exact ⟨_, rfl, start⟩
  | some ref =>
    have valid := theirs ref rfl
    dsimp only
    rw [Heap.get_append_of_lt heap _ valid, Heap.update_new]
    by_cases truthy : (heap.get ref).truthy = true
    · rw [if_pos truthy]
      refine ⟨_, rfl, fun name => ?_⟩
      have updated := start name
      unfold Properties.updateFromProperties at updated ⊢
      rw [Dict.get_update, updated]
      rfl
    · rw [if_neg truthy]
      refine ⟨_, rfl, fun name => (start name).trans ?_⟩
      have absent : (heap.get ref).properties.get name = none := by
        by_contra found
        exact truthy ((truthy_iff _).mpr ⟨name, Option.isSome_iff_ne_none.mpr found⟩)
      rw [setProps, Option.elim_some, absent, Option.none_or]

/-! ## The buildset -/

/-- The value and the source of a property before the rendering, which leaves what is not renderable alone. -/
def NewBuildset.given (created : NewBuildset ν) (name : String) : Option (ν × String) :=
  (created.properties.get name).map fun property => (property.1.value, property.2)

theorem get_rendered (context : Context ν) (name : String) :
    ((BaseScheduler.rendered context).get name).map (fun property => (property.1.value, property.2)) =
      context.properties.properties.get name := by
  have all (items : List (String × ν × String)) :
      ((Keyed.lookup Prod.fst (items.map fun item => (item.1, (⟨item.2.1, context⟩ : Rendered ν), item.2.2)) name).map
        Prod.snd).map (fun property => (property.1.value, property.2)) = (Keyed.lookup Prod.fst items name).map Prod.snd := by
    induction items with
    | nil => rfl
    | cons item rest ih =>
      by_cases same : item.1 = name
      · simp [Keyed.lookup, same]
      · simpa [Keyed.lookup, same] using ih
  exact all _

/-- The scheduler's own properties come out on top, whatever is passed. -/
theorem addBuildset_properties (self : BaseScheduler ν) (data : Data ν) (heap : Heap ν) (props : Properties ν)
    (waited_for : Bool) (stamps : List (Dict String Attribute)) (reason : String ⊕ ν) (external_idstring : Option String)
    (builderNames : Option (BuilderNames ν)) (priority : Option Priority) (kw : Dict String Attribute)
    (mine : self.properties < heap.length) :
    heap <+: (self.addBuildsetForSourceStamps data (heap ++ [props]) waited_for (stamps.map .dict) reason external_idstring
        (some heap.length) builderNames priority kw).1 ∧
      ∀ name, (self.addBuildsetForSourceStamps data (heap ++ [props]) waited_for (stamps.map .dict) reason
          external_idstring (some heap.length) builderNames priority kw).2.given name =
        ((heap.get self.properties).properties.get name).or (props.properties.get name) := by
  have none_ : (stamps.map StampArgument.dict).flatMap (StampArgument.changes data) = [] := by
    rw [List.flatMap_eq_nil_iff]
    intro stamp member
    obtain ⟨dict, _, rfl⟩ := List.mem_map.mp member
    rfl
  unfold BaseScheduler.addBuildsetForSourceStamps NewBuildset.given
  dsimp only
  rw [none_, Heap.get_new, Heap.get_append_of_lt heap _ mine, Heap.update_new]
  by_cases truthy : props.truthy = true
  · rw [if_pos truthy]
    dsimp only [Heap.new, List.foldl_nil]
    refine ⟨⟨[_, _], by rw [List.append_assoc]; rfl⟩, fun name => ?_⟩
    rw [get_rendered, Heap.get_new, Heap.get_new]
    exact Dict.get_update _ _ name
  · rw [if_neg truthy]
    dsimp only [Heap.new, List.foldl_nil]
    refine ⟨⟨[props, _], by rw [List.append_assoc]; rfl⟩, fun name => ?_⟩
    rw [get_rendered, Heap.get_new, Heap.get_append_of_lt heap _ mine]
    have absent : props.properties.get name = none := by
      by_contra found
      exact truthy ((truthy_iff _).mpr ⟨name, Option.isSome_iff_ne_none.mpr found⟩)
    rw [absent, Option.or_none]
    rfl

/-- The properties of the triggering build take precedence over the scheduler's own. -/
def Overridden (own set_props : Properties ν) (created : NewBuildset ν) : Prop :=
  ∀ name, created.given name = (set_props.properties.get name).or (own.properties.get name)

/-- What both define has the same value and source in both. -/
def Agree (own set_props : Properties ν) : Prop :=
  ∀ name mine theirs, own.properties.get name = some mine → set_props.properties.get name = some theirs → mine = theirs

/-- What comes of a trigger: no object changes that was there before, and the properties of the triggering build take
precedence if and only if that makes no difference. -/
def Composes (heap : Heap ν) (own set_props : Properties ν) (sourcestamps : List PassedStamp) :
    Except SchedulerError (Heap ν × NewBuildset ν) → Prop
  | .error _ => ¬ (sourcestamps.map PassedStamp.codebase).Nodup
  | .ok (after, created) => heap <+: after ∧ (Overridden own set_props created ↔ Agree own set_props)

theorem overridden_iff {own set_props : Properties ν} {created : NewBuildset ν}
    (reversed : ∀ name, created.given name = (own.properties.get name).or (set_props.properties.get name)) :
    Overridden own set_props created ↔ Agree own set_props := by
  constructor
  · intro overridden name mine theirs here there
    have both := (reversed name).symm.trans (overridden name)
    rw [here, there] at both
    exact Option.some.inj both
  · intro agree name
    rw [reversed]
    cases here : own.properties.get name with
    | none => simp
    | some mine =>
      cases there : set_props.properties.get name with
      | none => rfl
      | some theirs => rw [agree name mine theirs here there]

theorem addBuildset_composes (self : BaseScheduler ν) (data : Data ν) (iteration : SetOrder) (heap : Heap ν)
    (reason : String ⊕ ν) (sourcestamps : Option (List PassedStamp)) (waited_for : Bool)
    (builderNames : Option (BuilderNames ν)) (priority : Option Priority) (kw : Dict String Attribute)
    {set_props : Option Nat} (mine : self.properties < heap.length) (theirs : ∀ ref ∈ set_props, ref < heap.length) :
    Composes heap (heap.get self.properties) (setProps heap set_props) (sourcestamps.getD [])
      (self.addBuildsetForSourceStampsWithDefaults data iteration (composed heap self.properties set_props).1 reason
        sourcestamps waited_for (some (composed heap self.properties set_props).2) builderNames priority kw) := by
  obtain ⟨props, shape, found⟩ := composed_spec heap mine theirs
  rw [shape, BaseScheduler.addBuildsetForSourceStampsWithDefaults]
  by_cases distinct : ((sourcestamps.getD []).map PassedStamp.codebase).Nodup
  · obtain ⟨codebases, stamped, _⟩ := self.stampsWithDefaults_spec iteration (sourcestamps.getD []) distinct
    obtain ⟨frame, outcome⟩ := addBuildset_properties self data heap props waited_for
      (codebases.map (self.made (sourcestamps.getD []))) reason none builderNames priority kw mine
    rw [stamped]
    refine ⟨frame, overridden_iff fun name => (outcome name).trans ?_⟩
    rw [found]
    cases (heap.get self.properties).properties.get name <;> simp
  · obtain ⟨error, raised⟩ := (BaseScheduler.stampsByCodebase_spec (sourcestamps.getD [])).2 distinct
    rw [BaseScheduler.stampsWithDefaults, raised]
    exact distinct

/-- Every trigger of both kinds of schedulers, with any objects for the scheduler's own properties and for those of the
triggering build. -/
theorem triggers_compose (data : Data ν) (iteration : SetOrder) (heap : Heap ν) (own : Fin heap.length)
    (set_props : Option (Fin heap.length)) (base : BaseScheduler ν) (parent : Dict String Attribute) :
    (∀ (reason : Option String) (waited_for : Bool) (sourcestamps : Option (List PassedStamp)),
      Composes heap (heap.get own) (setProps heap (set_props.map Fin.val)) (sourcestamps.getD [])
        ((⟨{ base with properties := own }, reason⟩ : TriggerableScheduler ν).trigger data iteration heap waited_for
          sourcestamps (set_props.map Fin.val) parent)) ∧
    ∀ (reason : String) (sourcestamps : List PassedStamp),
      ∃ outcome, ((⟨{ base with properties := own }, true, reason, some ⟨sourcestamps, set_props.map Fin.val, parent⟩⟩ :
          NightlyTriggerableScheduler ν).startBuild data iteration heap).2 = outcome.map some ∧
        Composes heap (heap.get own) (setProps heap (set_props.map Fin.val)) sourcestamps outcome := by
  have theirs : ∀ ref ∈ set_props.map Fin.val, ref < heap.length := by
    intro ref member
    obtain ⟨valid, _, rfl⟩ := Option.map_eq_some_iff.mp member
    exact valid.isLt
  constructor
  · intro reason waited_for sourcestamps
    exact addBuildset_composes { base with properties := own } data iteration heap _ sourcestamps waited_for none _ parent
      own.isLt theirs
  · intro reason sourcestamps
    exact ⟨_, rfl, addBuildset_composes { base with properties := own } data iteration heap _ (some sourcestamps) false
      none _ parent own.isLt theirs⟩

/-- A property that the triggering build sets does not reach the buildset of a scheduler that has it, too. -/
theorem own_property_wins :
    ∃ after created, (⟨⟨"deploy", fun _ => [], 0, Dict.empty, Dict.empty, none⟩, none⟩ : TriggerableScheduler String).trigger
        ⟨[], fun _ => ⟨Dict.empty, []⟩⟩ ⟨id, fun names => List.Perm.refl names⟩
        [.fromDict (Dict.ofItems [("target", "stable", "Scheduler")]),
          .fromDict (Dict.ofItems [("target", "release", "Trigger")])] false none (some 1) Dict.empty =
          .ok (after, created) ∧
      created.given "target" = some ("stable", "Scheduler") ∧
      ¬ Overridden (.fromDict (Dict.ofItems [("target", "stable", "Scheduler")]))
        (.fromDict (Dict.ofItems [("target", "release", "Trigger")])) created := by
  refine ⟨_, _, rfl, by decide, fun overridden => ?_⟩
  exact absurd (overridden "target") (by decide)

end Umbilical.Schedulers
