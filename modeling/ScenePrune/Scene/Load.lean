import ScenePrune.Scene.Basic

/-!
# Building a scene from a list of nodes

The list may name a child before its parent. `Scene.ofNodes` takes the nodes in turn and inserts
each one after those above it that are still missing, so a list that already has parents before
children keeps its order. It refuses a list in which an id repeats, a parent is missing, or the
parents form a cycle.
-/

namespace ScenePrune

namespace Scene

def repeatedId? : List NodeId → List Node → Option NodeId
  | _, [] => none
  | seen, node :: rest =>
    if node.id ∈ seen then some node.id else repeatedId? (node.id :: seen) rest

/-- Walks up from `id` to a node of the scene or to the top, and puts the nodes met on the way
before `path`, topmost first. `available` are the nodes of the list that are not on the path. -/
def pendingPath (s : Scene) (available path : List Node) (child id : NodeId) :
    Except SceneError (List Node) :=
  if s.contains id then
    .ok path
  else if path.any (·.id = id) then
    .error (.hierarchyCycle id)
  else
    match _found : available.find? (·.id = id) with
    | none => .error (.missingParent child id)
    | some node =>
      match node.parent? with
      | none => .ok (node :: path)
      | some parent => pendingPath s (available.eraseP (·.id = id)) (node :: path) id parent
termination_by available.length
decreasing_by
  have hmem := List.mem_of_find?_eq_some _found
  have := List.length_pos_of_mem hmem
  rw [List.length_eraseP_of_mem hmem (List.find?_some _found)]
  omega

def insertAll (s : Scene) (nodes : List Node) : Except SceneError Scene :=
  nodes.foldlM insert s

def ofNodes (nodes : List Node) : Except SceneError Scene :=
  match repeatedId? [] nodes with
  | some id => .error (.duplicateNode id)
  | none => nodes.foldlM (fun s node => do s.insertAll (← s.pendingPath nodes [] node.id node.id)) ∅

end Scene

end ScenePrune
