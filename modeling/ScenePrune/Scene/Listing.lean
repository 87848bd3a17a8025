import ScenePrune.Scene.View

/-!
# Listings

A `Listing` takes the nodes of a host as they come: it does not look at their parents, they may
lack a type or a kind, and it refuses to remove those that it is told to hold on to. It lists an
id once. Where several nodes come under one id, the last one is kept, in the place of the first.
-/

namespace ScenePrune

structure ListedNode where
  type? : Option TypeName
  kind? : Option NodeKind
  parent? : Option NodeId := none
  enabled : Bool := true
  fields : OrderedMap String FieldValue := ∅
deriving DecidableEq

structure Listing where
  nodes : OrderedMap NodeId ListedNode
  held : List NodeId
  distinct : nodes.keys.Nodup

namespace Listing

def ofList (nodes : List (NodeId × ListedNode)) (held : List NodeId) : Listing :=
  ⟨.ofList nodes, held, OrderedMap.nodup_keys_ofList nodes⟩

def view (s : Listing) : SceneView where
  ids := s.nodes.keys
  contains := s.nodes.contains
  type? id := (s.nodes.get? id).bind (·.type?)
  kind? id := (s.nodes.get? id).bind (·.kind?)
  parent? id := (s.nodes.get? id).bind (·.parent?)
  enabled id := (s.nodes.get? id).any (·.enabled)
  field? id name := (s.nodes.get? id).bind (·.fields.get? name)

def remove (s : Listing) (id : NodeId) : Except SceneError Listing :=
  if id ∈ s.held then
    .error (.hasChildren id)
  else if s.nodes.contains id then
    .ok { s with nodes := s.nodes.erase id, distinct := OrderedMap.nodup_keys_erase s.distinct id }
  else
    .error (.nodeNotFound id)

instance : Host Listing where
  view := view
  remove := remove

end Listing

end ScenePrune
