import ScenePrune.Node

/-!
# What can be read of a scene

A `SceneView` answers every question the analysis asks about a scene. It promises nothing: parents
may be missing or form cycles, and ids may be listed that have no type. The two walks up the
parents therefore take at most as many steps as there are listed nodes.
-/

namespace ScenePrune

inductive SceneError where
  | nodeNotFound (node : NodeId)
  | duplicateNode (node : NodeId)
  | missingParent (node parent : NodeId)
  | hierarchyCycle (node : NodeId)
  | hasChildren (node : NodeId)
  | idsExhausted
deriving DecidableEq, Repr

def SceneError.message : SceneError → String
  | nodeNotFound node => s!"node {node} does not exist"
  | duplicateNode node => s!"node {node} exists more than once"
  | missingParent node parent => s!"node {node} refers to missing parent {parent}"
  | hierarchyCycle node => s!"node {node} is part of a parent cycle"
  | hasChildren node => s!"node {node} still has children"
  | idsExhausted => "no node ids left to allocate"

structure SceneView where
  ids : List NodeId
  contains : NodeId → Bool
  type? : NodeId → Option TypeName
  kind? : NodeId → Option NodeKind
  parent? : NodeId → Option NodeId
  enabled : NodeId → Bool
  field? : NodeId → String → Option FieldValue

namespace SceneView

/-- Whether a walk of at most `steps` nodes from `node` leaves the hierarchy at the top, meeting
only enabled nodes of the scene. -/
def activeWithin (v : SceneView) : Nat → NodeId → Bool
  | 0, _ => false
  | steps + 1, node =>
    v.contains node && v.enabled node &&
      match v.parent? node with
      | none => true
      | some parent => v.activeWithin steps parent

/-- Whether a node and everything above it is enabled. Nodes on or below a parent cycle never are. -/
def isActive (v : SceneView) (node : NodeId) : Bool :=
  v.activeWithin v.ids.length node

def ancestorsWithin (v : SceneView) : Nat → NodeId → List NodeId
  | 0, _ => []
  | steps + 1, node =>
    match v.parent? node with
    | none => []
    | some parent => parent :: v.ancestorsWithin steps parent

/-- How many nodes lie above `node`; on or below a parent cycle, the number of listed nodes. -/
def depth (v : SceneView) (node : NodeId) : Nat :=
  (v.ancestorsWithin v.ids.length node).length

end SceneView

class Host (σ : Type) where
  view : σ → SceneView
  /-- Destroys one node. A scene may refuse, for instance while the node has children. -/
  remove : σ → NodeId → Except SceneError σ

end ScenePrune
