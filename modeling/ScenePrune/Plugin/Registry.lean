import ScenePrune.Edit
import ScenePrune.Plugin.Basic

/-!
# Which plugin handles a type

Plugins are registered for types, and types may declare direct supertypes. A type is handled by its
own plugin if it has one. Otherwise the supertypes are searched level by level, and the nearest
registered ancestor handles it. Two registered ancestors at the same distance are ambiguous.
-/

namespace ScenePrune

inductive Unresolved where
  | unregistered (type : TypeName)
  | ambiguous (type : TypeName) (candidates : List TypeName)
deriving DecidableEq, Repr

inductive RegistryError where
  | duplicateRegistration (type : TypeName)
  | ambiguousResolution (type : TypeName) (candidates : List TypeName)
deriving DecidableEq, Repr

def ambiguityMessage (type : TypeName) (candidates : List TypeName) : String :=
  s!"type {type} resolves to more than one plugin: " ++ ", ".intercalate candidates

def Unresolved.message : Unresolved → String
  | unregistered type => s!"no plugin registered for type {type}"
  | ambiguous type candidates => ambiguityMessage type candidates

/-- Only ambiguity is a mistake in the registry; a type may well have no plugin. -/
def Unresolved.registryError? : Unresolved → Option RegistryError
  | unregistered _ => none
  | ambiguous type candidates => some (.ambiguousResolution type candidates)

def RegistryError.message : RegistryError → String
  | duplicateRegistration type => s!"type {type} already has a registered plugin"
  | ambiguousResolution type candidates => ambiguityMessage type candidates

structure Resolution where
  plugin : Plugin
  registeredAs : TypeName

structure PluginRegistry where
  plugins : OrderedMap TypeName Plugin
  supertypes : OrderedMap TypeName (List TypeName)

namespace PluginRegistry

instance : EmptyCollection PluginRegistry := ⟨⟨∅, ∅⟩⟩

def size (r : PluginRegistry) : Nat := r.plugins.size

def isEmpty (r : PluginRegistry) : Bool := r.plugins.isEmpty

def isRegistered (r : PluginRegistry) (type : TypeName) : Bool := r.plugins.contains type

def registerM (type : TypeName) (plugin : Plugin) : Edit PluginRegistry RegistryError Unit := do
  if (← get).isRegistered type then throw (.duplicateRegistration type)
  modify fun r => { r with plugins := r.plugins.insert type plugin }

def register (r : PluginRegistry) (type : TypeName) (plugin : Plugin) :
    Except RegistryError PluginRegistry :=
  ((registerM type plugin).result r).map Prod.snd

/-- Adds direct supertypes to a type; one that it already has is not repeated. -/
def declareSupertypes (r : PluginRegistry) (type : TypeName) (bases : List TypeName) :
    PluginRegistry :=
  let extend (known : List TypeName) : List TypeName :=
    bases.foldl (fun known base => if base ∈ known then known else known ++ [base]) known
  { r with supertypes := r.supertypes.upsert type fun known? => extend (known?.getD []) }

def directSupertypes (r : PluginRegistry) (type : TypeName) : List TypeName :=
  (r.supertypes.get? type).getD []

def declaredTypes (r : PluginRegistry) : List TypeName := r.supertypes.keys

def direct? (r : PluginRegistry) (type : TypeName) : Option Resolution :=
  (r.plugins.get? type).map fun plugin => ⟨plugin, type⟩

def distinct (l : List TypeName) : List TypeName :=
  l.foldl (fun known x => if x ∈ known then known else known ++ [x]) []

def within (level pending : List TypeName) : List TypeName := pending.filter (· ∈ level)

def beyond (level pending : List TypeName) : List TypeName := pending.filter (· ∉ level)

theorem length_beyond_lt {level pending : List TypeName} (h : within level pending ≠ []) :
    (beyond level pending).length < pending.length := by
  obtain ⟨t, ht⟩ := List.exists_mem_of_ne_nil _ h
  have ht := List.mem_filter.1 ht
  exact List.length_filter_lt_length_iff_exists.2 ⟨t, ht.1, by simpa using ht.2⟩

/-- Searches `level`, then what lies above it. `pending` are the types with declared supertypes
that were not expanded before; no other type has anything above it. -/
def resolveAbove (r : PluginRegistry) (type : TypeName) (pending level : List TypeName) :
    Except Unresolved Resolution :=
  match (distinct level).filterMap r.direct? with
  | [found] => .ok found
  | first :: second :: more =>
    let candidates := (first :: second :: more).map (·.registeredAs)
    .error (.ambiguous type (candidates.mergeSort (· ≤ ·)))
  | [] =>
    if within level pending = [] then
      .error (.unregistered type)
    else
      resolveAbove r type (beyond level pending) ((within level pending).flatMap r.directSupertypes)
termination_by pending.length
decreasing_by exact length_beyond_lt ‹_›

def resolve (r : PluginRegistry) (type : TypeName) : Except Unresolved Resolution :=
  match r.direct? type with
  | some found => .ok found
  | none => r.resolveAbove type (r.declaredTypes.filter (· ≠ type)) (r.directSupertypes type)

def lookup (r : PluginRegistry) (type : TypeName) : Except Unresolved Plugin :=
  (r.resolve type).map (·.plugin)

def validate (r : PluginRegistry) : List RegistryError :=
  (r.declaredTypes.mergeSort (· ≤ ·)).filterMap fun type =>
    match r.resolve type with
    | .ok _ => none
    | .error e => e.registryError?

end PluginRegistry

end ScenePrune
