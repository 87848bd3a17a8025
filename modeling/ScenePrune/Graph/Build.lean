import ScenePrune.Diagnostic
import ScenePrune.Graph.Basic
import ScenePrune.Plugin.Registry
import ScenePrune.Writers

/-!
# From a scene to its graph

Building a graph takes two steps. First every listed node gets a position. Then the hierarchy, the
plugins and the animation table each contribute in turn: `contributions` lists what they say, and
`Draft.apply` adds one contribution to the graph. No node is dropped on a failure. One whose type
has no plugin, or more than one, or whose plugin fails, becomes an entrypoint.
-/

namespace ScenePrune

abbrev Roster := List (NodeId × Nat)

inductive Contribution where
  /-- The child at one position hangs below the parent at another. -/
  | attach (child parent : Nat)
  | depend (source target : Nat) (qualifiers : Qualifiers)
  /-- A property of the node at `target` may be written by `writer`. -/
  | write (target : Nat) (kind : NodeKind) (property : String) (writer : NodeId)
  | mark (node : Nat) (cause : EntrypointCause)
  | diagnose (diagnostic : Diagnostic)
  | warn (text : String)
  | cancel
deriving DecidableEq

structure Draft where
  graph : Graph
  writers : Writers Nat := ∅
  diagnostics : List Diagnostic := []
  warnings : List String := []
  cancelled : Bool := false

namespace Graph

def nodeOf (v : SceneView) (id : NodeId) (type : TypeName) : GraphNode where
  id
  type
  kind := (v.kind? id).getD .component
  enabled := v.enabled id

def nodesOf (v : SceneView) : List GraphNode :=
  v.ids.filterMap fun id => (v.type? id).map (nodeOf v id)

def enroll (g : Graph) (v : SceneView) : Graph := (nodesOf v).foldl addNode g

def roster (g : Graph) (v : SceneView) : Roster :=
  ((nodesOf v).zipIdx g.slots.length).reverse.map fun (n, i) => (n.id, i)

end Graph

namespace Contribution

def ofParent (v : SceneView) (roster : Roster) (i : Nat) (id : NodeId) : List Contribution :=
  match v.parent? id with
  | none => []
  | some parent =>
    match roster.lookup parent with
    | some p => [.attach i p]
    | none =>
      [.warn s!"Node {id} refers to missing parent {parent}",
       .diagnose (.unresolvedParent id parent)]

def ofDependency (roster : Roster) (i : Nat) (id : NodeId) : Dependency → List Contribution
  | .entrypoint => [.mark i .declared]
  | .edge source target qualifiers =>
    match roster.lookup source, roster.lookup target with
    | some s, some t => [.depend s t qualifiers]
    | source?, _ =>
      let missing := if source?.isSome then target else source
      [.warn s!"Node {id} declared an edge {source} -> {target} to missing node {missing}",
       .diagnose (.danglingDeclaration id missing)]

def ofMutation (g : Graph) (roster : Roster) (id : NodeId) (m : Mutation) : List Contribution :=
  match roster.lookup m.target with
  | none =>
    [.warn s!"Node {id} declared a mutation of missing node {m.target}",
     .diagnose (.danglingDeclaration id m.target)]
  | some t =>
    match g.node? t with
    | none => []
    | some n => [.write t n.kind (m.path n.kind) id]

def ofFailure (p : Plugin) (i : Nat) (n : GraphNode) : Option PluginError → List Contribution
  | none => []
  | some e =>
    [.warn s!"Plugin {p.name} failed on {n.type} node {n.id}, keeping it: {e.message}",
     .mark i .callbackFailure,
     .diagnose (.pluginCallbackFailure n.id n.type e.message)]

def ofPlugin (v : SceneView) (g : Graph) (roster : Roster) (p : Plugin) (i : Nat) (n : GraphNode) :
    List Contribution :=
  let here : Subject := ⟨v, n.id⟩
  let d := p.dependencies here
  let m := p.mutations here
  (if d.cancels || m.cancels then [.cancel] else []) ++
    d.items.flatMap (ofDependency roster i n.id) ++ m.items.flatMap (ofMutation g roster n.id) ++
    ofFailure p i n (p.failure? here)

def ofNode (v : SceneView) (g : Graph) (roster : Roster) (registry : PluginRegistry) (i : Nat)
    (n : GraphNode) : List Contribution :=
  match registry.lookup n.type with
  | .ok p => ofPlugin v g roster p i n
  | .error (.unregistered _) => [.mark i .unregistered, .diagnose (.unregisteredType n.id n.type)]
  | .error (.ambiguous _ candidates) =>
    [.warn s!"Ambiguous plugin for {n.type} on node {n.id}, keeping it",
     .mark i .ambiguous,
     .diagnose (.ambiguousPluginResolution n.id n.type candidates)]

/-- A record about a node outside the scene says nothing. -/
def ofRecord (g : Graph) (roster : Roster) (r : AnimationRecord) : List Contribution :=
  match (roster.lookup r.node).bind fun i => (g.node? i).map (i, ·) with
  | none => []
  | some (i, n) => r.writers.map (.write i n.kind r.property)

end Contribution

def contributions (v : SceneView) (registry : PluginRegistry) (animations : AnimationTable)
    (g : Graph) (roster : Roster) : List Contribution :=
  (g.nodesWithIndex.flatMap fun (i, n) => Contribution.ofParent v roster i n.id) ++
  (g.nodesWithIndex.flatMap fun (i, n) => Contribution.ofNode v g roster registry i n) ++
  animations.records.flatMap (Contribution.ofRecord g roster)

namespace Draft

def keepWriter (g : Graph) (roster : Roster) (target : Nat) (writer : NodeId) : Graph :=
  match roster.lookup writer with
  -- whoever writes from outside the scene, such as an animation clip, has no position
  | none => g
  | some w => if w = target then g else g.addEdge ⟨target, w, .mutation, .evenIfDisabled⟩

/-- Records a write once, and keeps the writer if what it writes switches the node. -/
def write (d : Draft) (roster : Roster) (target : Nat) (kind : NodeKind) (property : String)
    (writer : NodeId) : Draft :=
  if writer ∈ d.writers.writers target property then d
  else
    { d with
      writers := d.writers.add target property writer
      graph :=
        if property = kind.enabledProperty then keepWriter d.graph roster target writer
        else d.graph }

def apply (roster : Roster) (d : Draft) : Contribution → Draft
  | .attach child parent =>
    let attached := d.graph.modifyNode child fun n => { n with parent? := some parent }
    { d with graph := attached.addEdge ⟨child, parent, .hierarchy, .evenIfDisabled⟩ }
  | .depend source target qualifiers =>
    { d with graph := d.graph.addEdge ⟨source, target, .dependency, qualifiers⟩ }
  | .write target kind property writer => d.write roster target kind property writer
  | .mark node cause => { d with graph := d.graph.modifyNode node (·.mark cause) }
  | .diagnose diagnostic => { d with diagnostics := d.diagnostics ++ [diagnostic] }
  | .warn text => { d with warnings := d.warnings ++ [text] }
  | .cancel => { d with cancelled := true }

end Draft

def Graph.draft (g : Graph) (v : SceneView) (registry : PluginRegistry)
    (animations : AnimationTable) : Draft :=
  let enrolled := g.enroll v
  let roster := g.roster v
  (contributions v registry animations enrolled roster).foldl (Draft.apply roster)
    { graph := enrolled }

end ScenePrune
