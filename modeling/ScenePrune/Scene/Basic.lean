import ScenePrune.Edit
import ScenePrune.Scene.View

/-!
# Scenes in memory

A `Scene` keeps its nodes in the order in which they were inserted, always a parent before its
children. Beside the nodes it holds the children of each node, so that removing a node need not
search for them, and the least id that was never given out. What can be done to a scene is an edit
of it; `insertM` and its kin have their effects in the order in which they come, and `insert` and its
kin give the scene that they make when they succeed.
-/

namespace ScenePrune

structure Scene where
  nodes : List Node
  childIndex : OrderedMap NodeId (List NodeId)
  nextId : Nat
deriving DecidableEq

namespace Scene

def empty : Scene := ⟨[], ∅, 0⟩

instance : EmptyCollection Scene := ⟨empty⟩

def size (s : Scene) : Nat := s.nodes.length

def isEmpty (s : Scene) : Bool := s.nodes.isEmpty

def ids (s : Scene) : List NodeId := s.nodes.map (·.id)

def node? (s : Scene) (id : NodeId) : Option Node := s.nodes.find? (·.id = id)

def contains (s : Scene) (id : NodeId) : Bool := (s.node? id).isSome

def children (s : Scene) (id : NodeId) : List NodeId := (s.childIndex.get? id).getD []

def insertM (node : Node) : Edit Scene SceneError NodeId := do
  if (← get).contains node.id then throw (.duplicateNode node.id)
  if let some parent := node.parent? then
    unless (← get).contains parent do throw (.missingParent node.id parent)
    modify fun s =>
      { s with childIndex := s.childIndex.upsert parent fun l => l.getD [] ++ [node.id] }
  modify fun s => { s with nextId := max s.nextId (node.id.toNat + 1) }
  modify fun s => { s with nodes := s.nodes ++ [node] }
  return node.id

def addNodeM (type : TypeName) (kind : NodeKind) (parent? : Option NodeId) :
    Edit Scene SceneError NodeId := do
  let nextId := (← get).nextId
  unless nextId < UInt32.size do throw .idsExhausted
  insertM { id := UInt32.ofNat nextId, type, kind, parent? }

/-- Applies `f`, which must keep the id and the parent, to one node. -/
def modifyNodeM (id : NodeId) (f : Node → Node) : Edit Scene SceneError Unit := do
  unless (← get).contains id do throw (.nodeNotFound id)
  modify fun s => { s with nodes := s.nodes.map fun n => if n.id = id then f n else n }

def setEnabledM (id : NodeId) (enabled : Bool) : Edit Scene SceneError Unit :=
  modifyNodeM id fun n => { n with enabled }

def setFieldM (id : NodeId) (name : String) (value : FieldValue) : Edit Scene SceneError Unit :=
  modifyNodeM id fun n => { n with fields := n.fields.insert name value }

def removeM (id : NodeId) : Edit Scene SceneError Unit := do
  if !((← get).children id).isEmpty then throw (.hasChildren id)
  let some node := (← get).node? id | throw (.nodeNotFound id)
  modify fun s => { s with nodes := s.nodes.filter (·.id ≠ id) }
  if let some parent := node.parent? then
    modify fun s => { s with childIndex := s.childIndex.modify parent (·.filter (· ≠ id)) }
  modify fun s => { s with childIndex := s.childIndex.erase id }

def insert (s : Scene) (node : Node) : Except SceneError Scene :=
  ((insertM node).result s).map Prod.snd

def addNode (s : Scene) (type : TypeName) (kind : NodeKind) (parent? : Option NodeId) :
    Except SceneError (NodeId × Scene) :=
  (addNodeM type kind parent?).result s

def modifyNode (s : Scene) (id : NodeId) (f : Node → Node) : Except SceneError Scene :=
  ((modifyNodeM id f).result s).map Prod.snd

def setEnabled (s : Scene) (id : NodeId) (enabled : Bool) : Except SceneError Scene :=
  ((setEnabledM id enabled).result s).map Prod.snd

def setField (s : Scene) (id : NodeId) (name : String) (value : FieldValue) :
    Except SceneError Scene :=
  ((setFieldM id name value).result s).map Prod.snd

def remove (s : Scene) (id : NodeId) : Except SceneError Scene :=
  ((removeM id).result s).map Prod.snd

def view (s : Scene) : SceneView where
  ids := s.ids
  contains := s.contains
  type? id := (s.node? id).map (·.type)
  kind? id := (s.node? id).map (·.kind)
  parent? id := (s.node? id).bind (·.parent?)
  enabled id := (s.node? id).any (·.enabled)
  field? id name := (s.node? id).bind (·.fields.get? name)

instance : Host Scene where
  view := view
  remove := remove

end Scene

end ScenePrune
