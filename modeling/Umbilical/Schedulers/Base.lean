import Umbilical.Shared.Dictionary
import Mathlib.Data.Finset.Union

set_option autoImplicit false

/-!
# Buildsets of schedulers

Both base classes of schedulers have the same methods. `Properties` objects are shared and
updated in place, so they live on a heap; the rendering of a property is kept as the value and
what it is rendered with.
-/

namespace Umbilical.Schedulers

/-- The value of an attribute of a source stamp. -/
inductive Attribute where
  | none
  | text (value : String)
  | number (value : Int)
  | bytes (value : List UInt8)
  deriving DecidableEq

/-- A source stamp as the callers of schedulers pass it. -/
structure PassedStamp where
  dict : Dict String Attribute
  codebase : String
  named : dict.get "codebase" = some (.text codebase)

/-- The order in which a set of strings is iterated. -/
structure SetOrder where
  order : List String → List String
  perm : ∀ names, (order names).Perm names

inductive SchedulerError where
  | RuntimeError (message : String)
  | KeyError
  deriving DecidableEq

/-! ## Properties -/

structure Properties (ν : Type) where
  properties : Dict String (ν × String)
  runtime : Finset String

namespace Properties

variable {ν : Type}

def empty : Properties ν := ⟨Dict.empty, ∅⟩

/-- `fromDict`: nothing is marked as runtime. -/
def fromDict (dict : Dict String (ν × String)) : Properties ν := ⟨dict, ∅⟩

def asDict (self : Properties ν) : Dict String (ν × String) := self.properties

def truthy (self : Properties ν) : Bool := self.properties.items ≠ []

def getProperty (self : Properties ν) (name : String) : Option ν := (self.properties.get name).map Prod.fst

def updateFromProperties (self other : Properties ν) : Properties ν :=
  ⟨self.properties.update other.properties, self.runtime ∪ other.runtime⟩

end Properties

/-- The `Properties` objects. -/
abbrev Heap (ν : Type) := List (Properties ν)

namespace Heap

variable {ν : Type} (heap : Heap ν)

def get (ref : Nat) : Properties ν := heap.getD ref Properties.empty

def new (properties : Properties ν) : Heap ν × Nat := (heap ++ [properties], heap.length)

def updateFromProperties (ref : Nat) (other : Properties ν) : Heap ν :=
  heap.set ref ((heap.get ref).updateFromProperties other)

end Heap

/-! ## The base class -/

variable {ν : Type}

/-- What properties are rendered with. -/
structure Context (ν : Type) where
  properties : Properties ν
  sourcestamps : List (Dict String Attribute)

/-- A value that is rendered; what is not renderable comes out as it is. -/
structure Rendered (ν : Type) where
  value : ν
  context : Context ν

inductive Priority where
  | number (value : Int)
  | callable
  deriving DecidableEq

/-- Names of builders, which may be renderable. -/
abbrev BuilderNames (ν : Type) := Context ν → List String

structure BaseScheduler (ν : Type) where
  name : String
  builderNames : BuilderNames ν
  properties : Nat
  codebases : Dict String (Dict String Attribute)
  -- of `AbsoluteSourceStampsMixin`, otherwise empty
  lastCodebases : Dict String (Dict String Attribute)
  priority : Option Priority

/-- A source stamp by its id, or a dictionary. -/
inductive StampArgument where
  | ssid (id : Nat)
  | dict (dict : Dict String Attribute)

structure StoredStamp (ν : Type) where
  attributes : Dict String Attribute
  changes : List (Dict String (ν × String))

/-- What the data API answers. -/
structure Data (ν : Type) where
  builders : List (String × Nat)
  sourcestamp : Nat → StoredStamp ν

def StampArgument.attributes (data : Data ν) : StampArgument → Dict String Attribute
  | .ssid id => (data.sourcestamp id).attributes
  | .dict attributes => attributes

/-- The properties of the changes of a source stamp. -/
def StampArgument.changes (data : Data ν) : StampArgument → List (Dict String (ν × String))
  | .ssid id => (data.sourcestamp id).changes
  | .dict _ => []

/-- The arguments of `data.updates.addBuildset`. -/
structure NewBuildset (ν : Type) where
  scheduler : String
  sourcestamps : List StampArgument
  reason : String ⊕ ν
  waited_for : Bool
  properties : Dict String (Rendered ν × String)
  builderids : List Nat
  external_idstring : Option String
  priority : Priority
  kw : Dict String Attribute

namespace BaseScheduler

variable (self : BaseScheduler ν)

/-- `getCodebaseDict`, with the override of `AbsoluteSourceStampsMixin`. -/
def getCodebaseDict (codebase : String) : Except SchedulerError (Dict String Attribute) :=
  match self.codebases.get codebase with
  | none => .error .KeyError
  | some configured => .ok ((self.lastCodebases.get codebase).getD configured)

/-- The rendering of all properties. -/
def rendered (context : Context ν) : Dict String (Rendered ν × String) where
  items := context.properties.asDict.items.map fun (name, value, source) => (name, ⟨value, context⟩, source)
  distinct := by
    have distinct := context.properties.asDict.distinct
    unfold Keyed.Distinct at distinct ⊢
    rw [List.map_map]
    exact distinct

def addBuildsetForSourceStamps (data : Data ν) (heap : Heap ν) (waited_for : Bool) (sourcestamps : List StampArgument)
    (reason : String ⊕ ν) (external_idstring : Option String) (properties : Option Nat)
    (builderNames : Option (BuilderNames ν)) (priority : Option Priority) (kw : Dict String Attribute) :
    Heap ν × NewBuildset ν :=
  -- combine properties
  let (heap, properties) := match properties with
    | some ref =>
        if (heap.get ref).truthy then (heap.updateFromProperties ref (heap.get self.properties), ref)
        else (heap, self.properties)
    | none => (heap, self.properties)
  -- make a fresh copy that can be modified
  let (heap, properties) := heap.new (.fromDict (heap.get properties).asDict)
  let changes := sourcestamps.flatMap (StampArgument.changes data)
  let heap := changes.foldl (fun heap c => heap.updateFromProperties properties (.fromDict c)) heap
  let context := ⟨heap.get properties, sourcestamps.map (StampArgument.attributes data)⟩
  let names := builderNames.getD self.builderNames context
  (heap, {
    scheduler := self.name
    sourcestamps := sourcestamps
    reason := reason
    waited_for := waited_for
    properties := rendered context
    builderids := (data.builders.filter fun builder => builder.1 ∈ names).map Prod.snd
    external_idstring := external_idstring
    priority := priority.getD (.number 0)
    kw := kw })

def addStamp (stamps : Dict String PassedStamp) (ss : PassedStamp) : Except SchedulerError (Dict String PassedStamp) :=
  if (stamps.get ss.codebase).isSome then .error (.RuntimeError "multiple sourcestamps with same codebase")
  else .ok (stamps.set ss.codebase ss)

/-- The source stamps by their codebases. -/
def stampsByCodebase (sourcestamps : List PassedStamp) : Except SchedulerError (Dict String PassedStamp) :=
  sourcestamps.foldlM addStamp Dict.empty

/-- The dictionary that both loops begin with. -/
def withDefaults (codebase : String) (cb : Dict String Attribute) : Dict String Attribute :=
  Dict.ofItems [
    ("codebase", .text codebase),
    ("repository", (cb.get "repository").getD (.text "")),
    ("branch", (cb.get "branch").getD .none),
    ("revision", (cb.get "revision").getD .none),
    ("project", .text "")]

def configuredStamp (stamps : Dict String PassedStamp) (codebase : String) :
    Except SchedulerError (Dict String Attribute) := do
  let cb ← self.getCodebaseDict codebase
  return (withDefaults codebase cb).update ((stamps.get codebase).elim Dict.empty PassedStamp.dict)

/-- The stamp for a codebase that the scheduler does not know. -/
def suppliedStamp (stamps : Dict String PassedStamp) (codebase : String) : Except SchedulerError (Dict String Attribute) :=
  match stamps.get codebase with
  | none => .error .KeyError
  | some cb => .ok (withDefaults codebase cb.dict)

def stampsWithDefaults (iteration : SetOrder) (sourcestamps : List PassedStamp) :
    Except SchedulerError (List (Dict String Attribute)) := do
  let stamps ← stampsByCodebase sourcestamps
  let configured ← self.codebases.keys.mapM (self.configuredStamp stamps)
  let unknown := iteration.order (stamps.keys.filter fun codebase => codebase ∉ self.codebases.keys)
  let supplied ← unknown.mapM (suppliedStamp stamps)
  return configured ++ supplied

def addBuildsetForSourceStampsWithDefaults (data : Data ν) (iteration : SetOrder) (heap : Heap ν) (reason : String ⊕ ν)
    (sourcestamps : Option (List PassedStamp)) (waited_for : Bool) (properties : Option Nat)
    (builderNames : Option (BuilderNames ν)) (priority : Option Priority) (kw : Dict String Attribute) :
    Except SchedulerError (Heap ν × NewBuildset ν) := do
  let stamps ← self.stampsWithDefaults iteration (sourcestamps.getD [])
  return self.addBuildsetForSourceStamps data heap waited_for (stamps.map .dict) reason none properties builderNames
    priority kw

end BaseScheduler

/-! ## Schedulers that are triggered -/

structure TriggerableScheduler (ν : Type) where
  base : BaseScheduler ν
  reason : Option String

/-- The properties for a triggered buildset: our own ones and those of the triggering build. -/
def composed (heap : Heap ν) (own : Nat) (set_props : Option Nat) : Heap ν × Nat :=
  let (heap, props) := heap.new Properties.empty
  let heap := heap.updateFromProperties props (heap.get own)
  match set_props with
  | some ref => if (heap.get ref).truthy then (heap.updateFromProperties props (heap.get ref), props) else (heap, props)
  | none => (heap, props)

/-- `Triggerable.trigger`, up to the deferreds. -/
def TriggerableScheduler.trigger (self : TriggerableScheduler ν) (data : Data ν) (iteration : SetOrder) (heap : Heap ν)
    (waited_for : Bool) (sourcestamps : Option (List PassedStamp)) (set_props : Option Nat)
    (parent : Dict String Attribute) : Except SchedulerError (Heap ν × NewBuildset ν) :=
  let reason : Option (String ⊕ ν) := match set_props with
    | some ref =>
        if (heap.get ref).truthy then ((heap.get ref).getProperty "reason").map .inr else self.reason.map .inl
    | none => self.reason.map .inl
  let message := "The Triggerable scheduler named '" ++ self.base.name ++ "' triggered this build"
  let (heap, props) := composed heap self.base.properties set_props
  self.base.addBuildsetForSourceStampsWithDefaults data iteration heap (reason.getD (.inl message)) sourcestamps waited_for
    (some props) none self.base.priority parent

/-- What `NightlyTriggerable.trigger` remembers. -/
structure LastTrigger where
  sourcestamps : List PassedStamp
  set_props : Option Nat
  parent : Dict String Attribute

structure NightlyTriggerableScheduler (ν : Type) where
  base : BaseScheduler ν
  enabled : Bool
  reason : String
  lastTrigger : Option LastTrigger

namespace NightlyTriggerableScheduler

variable (self : NightlyTriggerableScheduler ν)

def trigger (sourcestamps : List PassedStamp) (set_props : Option Nat) (parent : Dict String Attribute) :
    NightlyTriggerableScheduler ν :=
  { self with lastTrigger := some ⟨sourcestamps, set_props, parent⟩ }

/-- `startBuild`, which may have nothing to build. -/
def startBuild (data : Data ν) (iteration : SetOrder) (heap : Heap ν) :
    NightlyTriggerableScheduler ν × Except SchedulerError (Option (Heap ν × NewBuildset ν)) :=
  if ¬ self.enabled then (self, .ok none)
  else
    match self.lastTrigger with
    | none => (self, .ok none)
    | some last =>
        let (heap, props) := composed heap self.base.properties last.set_props
        ({ self with lastTrigger := none },
          (self.base.addBuildsetForSourceStampsWithDefaults data iteration heap (.inl self.reason) (some last.sourcestamps)
            false (some props) none self.base.priority last.parent).map some)

end NightlyTriggerableScheduler

end Umbilical.Schedulers
