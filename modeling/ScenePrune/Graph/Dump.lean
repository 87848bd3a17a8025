import ScenePrune.Liveness

/-!
# Text forms of a graph

A dump has one line per node, as in `%3 = MeshRenderer component enabled, active, live *declared,
[%1:HE, %7:T]`: activeness and verdict as far as they are known, the cause if the node is an
entrypoint, and its edges from the newest to the oldest. The other form is a digraph for Graphviz,
nodes by position and edges in the order in which they were added.
-/

namespace ScenePrune.Graph

def dumpLine (g : Graph) (activeness? : Option ActivenessTable) (liveness? : Option Liveness)
    (i : Nat) (n : GraphNode) : String :=
  let edges := (g.outgoing i).filterMap fun e => (g.node? e.target).map fun t => s!"%{t.id}:{e.label}"
  let flag := if n.enabled then "enabled" else "disabled"
  s!"  %{n.id} = {n.type} {n.kind.label} {flag}" ++
    (match activeness? with
      | none => ""
      | some activeness => ", " ++ (activeness.get i).describe) ++
    (match liveness? with
      | none => ""
      | some liveness => if liveness.isLive n.id then ", live" else ", dead") ++
    (match n.entrypoint? with
      | none => ""
      | some cause => " *" ++ cause.describe) ++
    ", [" ++ ", ".intercalate edges ++ "]"

def dump (g : Graph) (activeness? : Option ActivenessTable) (liveness? : Option Liveness) :
    String :=
  let lines := g.nodesWithIndex.map fun (i, n) => g.dumpLine activeness? liveness? i n
  "\n".intercalate (["scene \x7b"] ++ lines ++ ["\x7d"])

/-- A label between quotes, in which a line break is written as the mark for a line that is set
flush left. -/
def dotQuoted (s : String) : String :=
  "\"" ++ String.join (s.toList.map fun c =>
    match c with
    | '"' => "\\\""
    | '\\' => "\\\\"
    | '\n' => "\\l"
    | c => c.toString) ++ "\""

def dot (g : Graph) : String :=
  let nodes := g.nodesWithIndex.map fun (i, n) => s!"    {i} [ label = " ++ dotQuoted n.label ++ " ]"
  let edges := g.edges.map fun e =>
    s!"    {e.source} -> {e.target} [ label = " ++ dotQuoted e.label ++ " ]"
  String.join ((["digraph \x7b"] ++ nodes ++ edges ++ ["\x7d"]).map (· ++ "\n"))

end ScenePrune.Graph
