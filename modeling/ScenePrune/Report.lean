import ScenePrune.Diagnostic
import ScenePrune.Liveness

/-!
# Reports

A report explains every node that is to be removed: its activeness, what it depends on and what
depends on it, each edge from the newest to the oldest, and whether the node at the other end is
live.
-/

namespace ScenePrune

structure Neighbour where
  node : NodeId
  kind : EdgeKind
  qualifiers : Qualifiers
  live : Bool
deriving DecidableEq, Repr

structure DeadNode where
  node : NodeId
  type : TypeName
  kind : NodeKind
  activeness : Activeness
  entrypoint? : Option EntrypointCause
  dependencies : List Neighbour
  dependents : List Neighbour
deriving DecidableEq, Repr

structure Report where
  kept : Nat := 0
  pruned : List DeadNode := []
  diagnostics : List Diagnostic := []
deriving DecidableEq, Repr

namespace Report

def summarize (g : Graph) (liveness : Liveness) (other : Edge → Nat) (edges : List Edge) :
    List Neighbour :=
  edges.filterMap fun e => (g.node? (other e)).map fun n =>
    { node := n.id, kind := e.kind, qualifiers := e.qualifiers, live := liveness.isLive n.id }

def explain (g : Graph) (activeness : ActivenessTable) (liveness : Liveness) (i : Nat)
    (n : GraphNode) : DeadNode where
  node := n.id
  type := n.type
  kind := n.kind
  activeness := activeness.get i
  entrypoint? := n.entrypoint?
  dependencies := summarize g liveness (·.target) (g.outgoing i)
  dependents := summarize g liveness (·.source) (g.incoming i)

def build (g : Graph) (activeness : ActivenessTable) (liveness : Liveness)
    (diagnostics : List Diagnostic) : Report :=
  let dead := g.nodesWithIndex.filter fun (_, n) => liveness.isDead n.id
  { kept := g.nodesWithIndex.countP fun (_, n) => !liveness.isDead n.id
    pruned := (dead.map fun (i, n) => explain g activeness liveness i n).mergeSort (·.node ≤ ·.node)
    diagnostics }

def deadIds (r : Report) : List NodeId := r.pruned.map (·.node)

end Report

end ScenePrune
