import ScenePrune.Graph.Basic
import ScenePrune.Writers

/-!
# Activeness

A node is active when it and everything above it is enabled. `Graph.activeness` classifies the
nodes of a graph breadth first from the top: each visit takes the chain of the parent one node
further. Where a flag on the way up has a writer, the node is varying, and so is a node whose
parents lead into a cycle or a hole, which is never visited.
-/

namespace ScenePrune

inductive Activeness where
  | alwaysActive
  | alwaysInactive
  /-- The node may be active at one time and inactive at another. -/
  | varying
deriving DecidableEq, Repr

namespace Activeness

def canBeActive (a : Activeness) : Bool := a ≠ alwaysInactive

def describe : Activeness → String
  | alwaysActive => "active"
  | alwaysInactive => "inactive"
  | varying => "variable"

def label : Activeness → String
  | alwaysActive => "always_active"
  | alwaysInactive => "always_inactive"
  | varying => "variable"

end Activeness

structure ActivenessTable where
  values : OrderedMap Nat Activeness
deriving DecidableEq

namespace ActivenessTable

instance : EmptyCollection ActivenessTable := ⟨⟨∅⟩⟩

/-- Of a node that was never classified nothing is known, so it is varying. -/
def get (t : ActivenessTable) (i : Nat) : Activeness := (t.values.get? i).getD .varying

def set (t : ActivenessTable) (i : Nat) (a : Activeness) : ActivenessTable :=
  ⟨t.values.insert i a⟩

def count (t : ActivenessTable) (a : Activeness) : Nat := t.values.entries.countP (·.2 = a)

end ActivenessTable

/-- What holds along the way from a node to the top. -/
structure Chain where
  enabled : Bool
  written : Bool
deriving DecidableEq

namespace Chain

def top : Chain := ⟨true, false⟩

def extend (above : Chain) (writers : Writers Nat) (i : Nat) (n : GraphNode) : Chain where
  enabled := n.enabled && above.enabled
  written := writers.isWritten i n.kind.enabledProperty || above.written

def activeness (c : Chain) : Activeness :=
  if c.written then .varying else if c.enabled then .alwaysActive else .alwaysInactive

end Chain

structure Settling where
  settled : List (Nat × Chain)
  queue : List (Nat × GraphNode)

namespace Graph

/-- The nodes whose parent is at the given position, whatever there is; without one, those at the top. -/
def below (g : Graph) (parent? : Option Nat) : List (Nat × GraphNode) :=
  g.nodesWithIndex.filter (·.2.parent? = parent?)

end Graph

namespace Settling

def chain (settled : List (Nat × Chain)) (writers : Writers Nat) (i : Nat) (n : GraphNode) : Chain :=
  ((n.parent?.bind fun parent => settled.lookup parent).getD .top).extend writers i n

def visit (g : Graph) (writers : Writers Nat) (s : Settling) : Settling :=
  match s.queue with
  | [] => s
  | (i, n) :: rest => ⟨s.settled ++ [(i, chain s.settled writers i n)], rest ++ g.below (some i)⟩

def run (g : Graph) (writers : Writers Nat) : Nat → Settling → Settling
  | 0, s => s
  | visits + 1, s => run g writers visits (s.visit g writers)

end Settling

namespace Graph

-- No node is visited twice, so as many visits as there are nodes leave nobody in line.
def settle (g : Graph) (writers : Writers Nat) : Settling :=
  Settling.run g writers g.nodes.length ⟨[], g.below none⟩

def unsettled (g : Graph) (writers : Writers Nat) : List Nat :=
  let settled := (g.settle writers).settled.map Prod.fst
  g.indices.filter (· ∉ settled)

def activeness (g : Graph) (writers : Writers Nat) : ActivenessTable :=
  let settled := (g.settle writers).settled.foldl (fun t (i, c) => t.set i c.activeness) ∅
  (g.unsettled writers).foldl (fun t i => t.set i .varying) settled

end Graph

end ScenePrune
