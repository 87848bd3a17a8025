import ScenePrune.Plugin.Registry
import ScenePrune.Entrypoint

/-!
# Plugins for avatar scenes

The component types of a typical avatar, the plugins that describe them, and the registry and the
entrypoint rules that use all of them.
-/

namespace ScenePrune.Bundled

open Qualifiers

def needs (n : Subject) (qualifiers : Qualifiers) (targets : List NodeId) : List Dependency :=
  targets.map fun target => .edge n.id target qualifiers

/-- Transforms only need their parent, and the hierarchy says so already. -/
def transform : Plugin where
  name := "transform"
  dependencies := Plugin.steps fun _ => []

/-- Nothing is known about what a behaviour does, so it is kept. -/
def behaviour : Plugin where
  name := "behaviour"
  dependencies := Plugin.steps fun _ => [.declare [.entrypoint]]

/-- Playing back clips is observable. `avatar_root` is the transform the rig is bound to, and
`drives` lists the nodes that the layers switch on and off. -/
def animator : Plugin where
  name := "animator"
  dependencies := Plugin.steps fun n =>
    [.declare [.entrypoint],
     .reading (n.reference "avatar_root") fun root? => needs n plain root?.toList]
  mutations := Plugin.steps fun n =>
    [.reading (n.references "drives") fun targets => targets.map Mutation.toggles]

/-- The descriptor defines the avatar, and its view anchor is used even while it is disabled. -/
def avatarDescriptor : Plugin where
  name := "avatar_descriptor"
  dependencies := Plugin.steps fun n =>
    [.declare [.entrypoint],
     .reading (n.reference "view_anchor") fun anchor? => needs n evenIfDisabled anchor?.toList]

def rendererSteps (n : Subject) : List (Step Dependency) :=
  [.declare [.entrypoint],
   .reading (n.reference "probe_anchor") fun anchor? => needs n plain anchor?.toList]

def renderer : Plugin where
  name := "renderer"
  dependencies := Plugin.steps rendererSteps

def skinnedMeshRenderer : Plugin where
  name := "skinned_mesh_renderer"
  dependencies := Plugin.steps fun n => rendererSteps n ++
    [.reading (n.reference "root_bone") fun bone? => needs n plain bone?.toList,
     .reading (n.references "bones") (needs n plain)]

/-- A constraint drives its owner from a list of sources: the owner keeps a constraint that can be
enabled, and the constraint keeps its sources. -/
def constraint : Plugin where
  name := "constraint"
  dependencies := Plugin.steps fun n =>
    [.declare (n.parent?.toList.map fun owner => .edge owner n.id onlyIfEnabled),
     .reading (n.requiredReferences "sources") (needs n plain)]

def effectiveRoot (n : Subject) : Except PluginError (Option NodeId) :=
  (n.reference "root_transform").map fun root? => root?.or n.parent?

/-- Secondary motion of a chain of transforms: the root of the chain keeps a component that can be
enabled, and the component keeps the root and its colliders. -/
def physBone : Plugin where
  name := "phys_bone"
  dependencies := Plugin.steps fun n =>
    [.reading (effectiveRoot n) fun root? =>
       root?.toList.map (fun root => .edge root n.id onlyIfEnabled) ++ needs n plain root?.toList,
     .reading (n.references "colliders") (needs n plain)]

def physBoneCollider : Plugin where
  name := "phys_bone_collider"
  dependencies := Plugin.steps fun n =>
    [.reading (effectiveRoot n) fun root? => needs n plain root?.toList]

def registrations : List (TypeName × Plugin) :=
  [("Transform", transform), ("Behaviour", behaviour), ("Animator", animator),
   ("Renderer", renderer), ("SkinnedMeshRenderer", skinnedMeshRenderer),
   ("Constraint", constraint), ("PhysBone", physBone), ("PhysBoneCollider", physBoneCollider),
   ("AvatarDescriptor", avatarDescriptor)]

def typeHierarchy : List (TypeName × TypeName) :=
  [("Transform", "Component"), ("Behaviour", "Component"), ("Renderer", "Component"),
   ("Animator", "Behaviour"), ("Constraint", "Behaviour"), ("PhysBone", "Behaviour"),
   ("PhysBoneCollider", "Behaviour"), ("AvatarDescriptor", "Behaviour"),
   ("ParentConstraint", "Constraint"), ("PositionConstraint", "Constraint"),
   ("RotationConstraint", "Constraint"), ("AimConstraint", "Constraint"),
   ("MeshRenderer", "Renderer"), ("SkinnedMeshRenderer", "Renderer")]

def registry : PluginRegistry where
  plugins := .ofList registrations
  supertypes := .ofList (typeHierarchy.map fun (type, base) => (type, [base]))

def plugins : List Plugin := registrations.map Prod.snd

def keepField : String := "keep"

def entrypoints : EntrypointRules where
  types := ["AvatarDescriptor"]
  predicates :=
    [{ name := "marked_keep", judge n := { holds := n.field? keepField = some (.bool true) } }]

end ScenePrune.Bundled
