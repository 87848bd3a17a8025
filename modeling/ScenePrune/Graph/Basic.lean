import ScenePrune.Entrypoint

/-!
# Analysis graphs

Nodes of a graph are known by their position. Taking a node out leaves a hole, so that the
positions of the others stand. Edges are kept in the order in which they were added; those of one
node are read from the newest to the oldest.
-/

namespace ScenePrune

inductive EdgeKind where
  /-- A node needs its parent to exist. -/
  | hierarchy
  /-- Declared by a plugin. -/
  | dependency
  /-- A node that is switched at runtime needs whoever switches it. -/
  | mutation
deriving DecidableEq, Repr

namespace EdgeKind

def label : EdgeKind → String
  | hierarchy => "hierarchy"
  | dependency => "dependency"
  | mutation => "mutation"

def defaultQualifiers : EdgeKind → Qualifiers
  | hierarchy | mutation => .evenIfDisabled
  | dependency => .plain

end EdgeKind

structure Edge where
  source : Nat
  target : Nat
  kind : EdgeKind
  qualifiers : Qualifiers
deriving DecidableEq, Repr

def Edge.label (e : Edge) : String :=
  (match e.kind with
    | .hierarchy => "H"
    | .mutation => "M"
    | .dependency => "") ++
  (if e.qualifiers.evenIfSourceDisabled then "E" else "") ++
  if e.qualifiers.onlyIfTargetCanBeEnabled then "T" else ""

structure GraphNode where
  id : NodeId
  type : TypeName
  kind : NodeKind
  parent? : Option Nat := none
  enabled : Bool
  entrypoint? : Option EntrypointCause := none
deriving DecidableEq, Repr

namespace GraphNode

/-- Makes the node an entrypoint; the first cause stays. -/
def mark (n : GraphNode) (cause : EntrypointCause) : GraphNode :=
  { n with entrypoint? := n.entrypoint?.or (some cause) }

def label (n : GraphNode) : String :=
  s!"{n.type}#{n.id}" ++ (if n.enabled then "" else " (disabled)") ++
    if n.entrypoint?.isSome then " *" else ""

end GraphNode

structure Graph where
  slots : List (Option GraphNode) := []
  edges : List Edge := []
deriving DecidableEq, Repr

namespace Graph

instance : EmptyCollection Graph := ⟨{}⟩

/-- The position that a number stands for. Positions have 32 bits, and numbers count modulo that. -/
def position (n : Nat) : Nat := n % UInt32.size

def node? (g : Graph) (i : Nat) : Option GraphNode := g.slots[i]?.join

def nodesWithIndex (g : Graph) : List (Nat × GraphNode) :=
  g.slots.zipIdx.filterMap fun (slot, i) => slot.map (i, ·)

def nodes (g : Graph) : List GraphNode := g.slots.filterMap id

def indices (g : Graph) : List Nat := g.nodesWithIndex.map Prod.fst

def addNode (g : Graph) (n : GraphNode) : Graph := { g with slots := g.slots ++ [some n] }

def addEdge (g : Graph) (e : Edge) : Graph := { g with edges := g.edges ++ [e] }

def modifyNode (g : Graph) (i : Nat) (f : GraphNode → GraphNode) : Graph :=
  { g with slots := g.slots.modify i (·.map f) }

def removeNode (g : Graph) (i : Nat) : Graph where
  slots := g.slots.modify i fun _ => none
  edges := g.edges.filter fun e => e.source ≠ i && e.target ≠ i

def outgoing (g : Graph) (i : Nat) : List Edge := (g.edges.filter (·.source = i)).reverse

def incoming (g : Graph) (i : Nat) : List Edge := (g.edges.filter (·.target = i)).reverse

/-- The position of the node with the given id; where several share it, the last. -/
def indexOf? (g : Graph) (id : NodeId) : Option Nat :=
  (g.nodesWithIndex.reverse.find? (·.2.id = id)).map Prod.fst

end Graph

end ScenePrune
