import ScenePrune.Scene.View

/-!
# Plugins

A plugin describes one type of node: what its nodes depend on, and what they may change at runtime.
It reads the scene through a `Subject` and answers with a `Declared` value, which holds everything
declared before a failure, the failure if there was one, and whether the plugin asked for the run
to be cancelled. Callbacks are written as lists of steps; the first step that fails ends the list.
-/

namespace ScenePrune

inductive PluginError where
  | missingField (field : String)
  | malformedField (field expected found : String)
  | invalid (text : String)
deriving DecidableEq, Repr

def PluginError.message : PluginError → String
  | missingField field => s!"required field `{field}` is missing"
  | malformedField field expected found => s!"field `{field}` should be {expected} but is {found}"
  | invalid text => text

structure Subject where
  scene : SceneView
  id : NodeId

namespace Subject

def type? (n : Subject) : Option TypeName := n.scene.type? n.id

def kind? (n : Subject) : Option NodeKind := n.scene.kind? n.id

def parent? (n : Subject) : Option NodeId := n.scene.parent? n.id

def enabled (n : Subject) : Bool := n.scene.enabled n.id

def field? (n : Subject) (name : String) : Option FieldValue := n.scene.field? n.id name

/-- The single reference in a field; a missing field refers to nothing. -/
def reference (n : Subject) (name : String) : Except PluginError (Option NodeId) :=
  match n.field? name with
  | none => .ok none
  | some (.ref target) => .ok target
  | some other => .error (.malformedField name "ref" other.typeName)

def references (n : Subject) (name : String) : Except PluginError (List NodeId) :=
  match n.field? name with
  | none => .ok []
  | some value =>
    if value.isReference then .ok value.references
    else .error (.malformedField name "refs" value.typeName)

def requiredReferences (n : Subject) (name : String) : Except PluginError (List NodeId) :=
  match n.field? name with
  | none => .error (.missingField name)
  | some _ => n.references name

end Subject

structure Qualifiers where
  /-- The dependency holds even when its source can never be active. -/
  evenIfSourceDisabled : Bool := false
  /-- The dependency only holds if its target can be active. -/
  onlyIfTargetCanBeEnabled : Bool := false
deriving DecidableEq, Repr

namespace Qualifiers

def plain : Qualifiers := {}

def evenIfDisabled : Qualifiers := { evenIfSourceDisabled := true }

def onlyIfEnabled : Qualifiers := { onlyIfTargetCanBeEnabled := true }

def names (f : Qualifiers) : List String :=
  (if f.evenIfSourceDisabled then ["EVEN_IF_SOURCE_DISABLED"] else []) ++
    if f.onlyIfTargetCanBeEnabled then ["ONLY_IF_TARGET_CAN_BE_ENABLED"] else []

end Qualifiers

inductive Dependency where
  /-- The node is observable on its own. -/
  | entrypoint
  /-- While `source` is of use, `target` is needed. -/
  | edge (source target : NodeId) (qualifiers : Qualifiers)
deriving DecidableEq, Repr

inductive Mutation where
  /-- The node may enable or disable `target`, whatever the path of its flag is. -/
  | toggles (target : NodeId)
  /-- The node may write the property `path` of `target`. -/
  | mutates (target : NodeId) (path : String)
deriving DecidableEq, Repr

def Mutation.target : Mutation → NodeId
  | toggles target => target
  | mutates target _ => target

def Mutation.path (kind : NodeKind) : Mutation → String
  | toggles _ => kind.enabledProperty
  | mutates _ path => path

structure Declared (α : Type) where
  items : List α := []
  cancels : Bool := false
  failure? : Option PluginError := none
deriving DecidableEq

inductive Step (α : Type) where
  | declare (items : List α)
  | cancel
  | fail (error : PluginError)
deriving DecidableEq

/-- Declares what `items` makes of a field that could be read, or fails as reading it did. -/
def Step.reading {α β : Type} (field : Except PluginError β) (items : β → List α) : Step α :=
  match field with
  | .ok value => .declare (items value)
  | .error e => .fail e

def Declared.ofSteps {α : Type} : List (Step α) → Declared α
  | [] => {}
  | .declare items :: rest =>
    let d := ofSteps rest
    { d with items := items ++ d.items }
  | .cancel :: rest => { ofSteps rest with cancels := true }
  | .fail e :: _ => { failure? := some e }

structure Plugin where
  name : String
  dependencies : Subject → Declared Dependency
  mutations : Subject → Declared Mutation := fun _ => {}

namespace Plugin

def steps {α : Type} (f : Subject → List (Step α)) : Subject → Declared α :=
  fun n => .ofSteps (f n)

def failure? (p : Plugin) (n : Subject) : Option PluginError :=
  (p.dependencies n).failure?.or (p.mutations n).failure?

end Plugin

end ScenePrune
