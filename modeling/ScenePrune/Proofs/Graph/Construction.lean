import ScenePrune.Proofs.Graph.Links
import ScenePrune.Proofs.Graph.Verdicts

/-! # The graph of a scene in closed form

For a well-listed scene the graph that a run analyses can be written down without building it:
`Collector.nodeAt` says which node stands for an id, and `Collector.links` which edges there are.
The main statement is that building the graph and marking its entrypoints gives exactly this.
-/
namespace ScenePrune

namespace Collector
variable (c : Collector) (v : SceneView)

def declaredCause? (id : NodeId) : Option EntrypointCause :=
  match c.registry.lookup (v.typeOf id) with
  | .error (.unregistered _) => some .unregistered
  | .error (.ambiguous _ _) => some .ambiguous
  | .ok p =>
    if .entrypoint ∈ (p.dependencies ⟨v, id⟩).items then some .declared
    else (p.failure? ⟨v, id⟩).map fun _ => .callbackFailure

/-- Why a node is an entrypoint: the registry is asked before the structural rules. -/
def cause? (id : NodeId) : Option EntrypointCause :=
  (c.declaredCause? v id).or (c.rules.classify ⟨v, id⟩)

def nodeAt (id : NodeId) : GraphNode :=
  { v.bareNode id with
    parent? := (v.listedParent? id).map v.place
    entrypoint? := c.cause? v id }

def graph : Graph := ⟨v.ids.map fun id => some (c.nodeAt v id), (c.links v).map (Link.edge v)⟩

abbrev draft : Draft := (∅ : Graph).draft v c.registry c.animations

end Collector

section Touch
variable {v : SceneView} {c : Collector} {i j : Nat} {x : Contribution}

theorem GraphNode.mark_mark (n : GraphNode) (a b : EntrypointCause) : (n.mark a).mark b = n.mark a := by
  cases h : n.entrypoint? <;> simp [GraphNode.mark, h]

theorem Contribution.IsNote.touch (hx : x.IsNote) (n : GraphNode) : x.touch i n = n := by
  cases hx <;> rfl

theorem touch_ofParent_of_ne (hij : j ≠ i) {id : NodeId} (hx : x ∈ Contribution.ofParent v v.roster j id)
    (n : GraphNode) : x.touch i n = n := by
  rcases Contribution.mem_ofParent hx with ⟨_, rfl⟩ | hx
  · exact if_neg hij
  · exact hx.touch n

theorem touch_ofDependency (id : NodeId) {d : Dependency} (hd : d ≠ .entrypoint)
    (hx : x ∈ Contribution.ofDependency v.roster j id d) (n : GraphNode) : x.touch i n = n := by
  rcases Contribution.mem_ofDependency hx with ⟨h, -⟩ | ⟨_, _, _, rfl⟩ | hx
  · exact absurd h hd
  · rfl
  · exact hx.touch n

theorem touch_ofMutation {id : NodeId} {m : Mutation}
    (hx : x ∈ Contribution.ofMutation v.bareGraph v.roster id m) (n : GraphNode) : x.touch i n = n := by
  rcases Contribution.mem_ofMutation hx with ⟨_, _, _, rfl⟩ | hx
  · rfl
  · exact hx.touch n

theorem touch_ofNode_of_ne (hij : j ≠ i) {m : GraphNode}
    (hx : x ∈ Contribution.ofNode v v.bareGraph v.roster c.registry j m) (n : GraphNode) :
    x.touch i n = n := by
  rcases Contribution.mem_ofNode hx with ⟨_, _, ⟨-, rfl⟩ | ⟨_, -, hx⟩⟩ | ⟨_, rfl⟩ | ⟨_, _, _, rfl⟩ | hx
  · rfl
  · exact touch_ofMutation hx n
  · exact if_neg hij
  · rfl
  · exact hx.touch n

theorem foldl_touch_ofParent (hv : v.WellListed) (id : NodeId) :
    (Contribution.ofParent v v.roster i id).foldl (fun n x => x.touch i n) (v.bareNode id) =
      { v.bareNode id with parent? := (v.listedParent? id).map v.place } := by
  unfold Contribution.ofParent SceneView.listedParent?
  cases v.parent? id with
  | none => rfl
  | some parent =>
    by_cases hp : parent ∈ v.ids
    · simp [Graph.lookup_roster hv, hp, Contribution.touch, Option.filter]
    · simp [Graph.lookup_roster hv, hp, Contribution.touch, Option.filter]
      rfl

theorem foldl_touch_ofDependency (id : NodeId) (items : List Dependency) (n : GraphNode) :
    (items.flatMap (Contribution.ofDependency v.roster i id)).foldl (fun n x => x.touch i n) n =
      if .entrypoint ∈ items then n.mark .declared else n := by
  induction items generalizing n with
  | nil => rfl
  | cons d items ih =>
    rw [List.flatMap_cons, List.foldl_append, ih]
    cases d with
    | entrypoint => simp [Contribution.ofDependency, Contribution.touch, GraphNode.mark_mark]
    | edge source target qualifiers =>
      rw [foldl_eq_self fun x hx => touch_ofDependency id (by simp) hx]
      simp

theorem foldl_touch_ofFailure (p : Plugin) (m n : GraphNode) (e? : Option PluginError) :
    (Contribution.ofFailure p i m e?).foldl (fun n x => x.touch i n) n =
      if e?.isSome then n.mark .callbackFailure else n := by
  cases e? <;> simp [Contribution.ofFailure, Contribution.touch]

theorem GraphNode.mark_of_none {n : GraphNode} (hn : n.entrypoint? = none) (cause : EntrypointCause) :
    n.mark cause = { n with entrypoint? := some cause } := by
  simp [GraphNode.mark, hn]

/-- The registry marks a node with the first cause that it gives. -/
theorem foldl_touch_ofNode {n : GraphNode} (hn : n.entrypoint? = none) (id : NodeId) :
    (Contribution.ofNode v v.bareGraph v.roster c.registry i (v.bareNode id)).foldl
      (fun n x => x.touch i n) n = { n with entrypoint? := c.declaredCause? v id } := by
  have htype : (v.bareNode id).type = v.typeOf id := rfl
  have hid : (v.bareNode id).id = id := rfl
  unfold Contribution.ofNode Collector.declaredCause?
  rw [htype]
  cases c.registry.lookup (v.typeOf id) with
  | error e => cases e <;> simp [Contribution.touch, GraphNode.mark_of_none hn]
  | ok p =>
    have hcancel : ∀ b : Bool, (if b then [Contribution.cancel] else []).foldl (fun n x => x.touch i n) n = n := by
      intro b
      cases b <;> rfl
    have hmutations : ∀ m : GraphNode, ((p.mutations ⟨v, id⟩).items.flatMap
        (Contribution.ofMutation v.bareGraph v.roster id)).foldl (fun n x => x.touch i n) m = m := by
      intro m
      apply foldl_eq_self
      intro x hx
      obtain ⟨mutation, -, hx⟩ := List.mem_flatMap.mp hx
      exact touch_ofMutation hx
    simp only [Contribution.ofPlugin, hid, List.foldl_append, hcancel, foldl_touch_ofDependency, hmutations,
      foldl_touch_ofFailure]
    by_cases hentry : .entrypoint ∈ (p.dependencies ⟨v, id⟩).items
    · simp only [hentry, if_true, GraphNode.mark_mark, ite_self]
      exact GraphNode.mark_of_none hn _
    · cases p.failure? ⟨v, id⟩ with
      | none => simp [hentry, ← hn]
      | some e => simp [hentry, GraphNode.mark_of_none hn]

/-- What all contributions together make of the node of a listed id. -/
theorem foldl_touch_contributions (hv : v.WellListed) {id : NodeId} (hid : id ∈ v.ids) :
    (contributions v c.registry c.animations v.bareGraph v.roster).foldl
        (fun n x => x.touch (v.place id) n) (v.bareNode id) =
      { v.bareNode id with
        parent? := (v.listedParent? id).map v.place, entrypoint? := c.declaredCause? v id } := by
  have hplace : ∀ id' ∈ v.ids, id' ≠ id → v.place id' ≠ v.place id :=
    fun id' hid' hne hp => hne (SceneView.place_inj hid' hp)
  have hbare : ∀ id, (v.bareNode id).id = id := fun _ => rfl
  simp only [contributions, nodesWithIndex_bareGraph hv, List.flatMap_map, hbare, List.foldl_append]
  rw [foldl_flatMap_of_only hv.nodup hid fun id' hid' hne x hx => touch_ofParent_of_ne (hplace id' hid' hne) hx,
    foldl_touch_ofParent hv,
    foldl_flatMap_of_only hv.nodup hid fun id' hid' hne x hx => touch_ofNode_of_ne (hplace id' hid' hne) hx,
    foldl_touch_ofNode rfl]
  apply foldl_eq_self
  intro x hx
  obtain ⟨r, -, hx⟩ := List.mem_flatMap.mp hx
  obtain ⟨_, _, _, rfl⟩ := Contribution.mem_ofRecord hx
  exact fun _ => rfl

end Touch

section Closed
variable {v : SceneView} {c : Collector}

theorem slots_draft (hv : v.WellListed) : (c.draft v).graph.slots = v.ids.map fun id =>
    some { v.bareNode id with
      parent? := (v.listedParent? id).map v.place, entrypoint? := c.declaredCause? v id } := by
  apply List.ext_getElem?
  intro i
  rw [Collector.draft, Graph.draft, Draft.getElem?_slots_foldl]
  have hslots : v.bareGraph.slots = v.ids.map fun id => some (v.bareNode id) := by
    rw [SceneView.bareGraph, Graph.enroll_empty hv.typed]
  rw [hslots, List.getElem?_map, List.getElem?_map]
  cases hi : v.ids[i]? with
  | none => rfl
  | some id =>
    obtain ⟨hlt, rfl⟩ := List.getElem?_eq_some_iff.mp hi
    have hplace : v.place v.ids[i] = i := hv.nodup.idxOf_getElem i hlt
    have htouch := foldl_touch_contributions (c := c) hv (List.getElem_mem hlt)
    rw [hplace] at htouch
    simpa using htouch

theorem edges_draft (hv : v.WellListed) :
    (c.draft v).graph.edges = (c.links v).map (Link.edge v) := by
  have hroster : ∀ w w' i, v.roster.lookup w = some i → v.roster.lookup w' = some i → w = w' := by
    intro w w' i hw hw'
    simp only [SceneView.roster, Graph.lookup_roster hv, Option.ite_none_right_eq_some,
      Option.some.injEq] at hw hw'
    exact SceneView.place_inj hw.1 (hw.2.trans hw'.2.symm)
  have hkinds : Draft.KindsAgree (fun i => ((v.bareGraph.node? i).map (·.kind)).getD .component)
      (contributions v c.registry c.animations v.bareGraph v.roster) := by
    intro t k property writer hmem
    obtain ⟨target, ht, rfl, rfl, -⟩ := (write_mem_contributions hv).mp hmem
    simp only [node?_bareGraph hv ht]
    rfl
  have hedges : v.bareGraph.edges = [] := by rw [SceneView.bareGraph, Graph.enroll_empty hv.typed]
  rw [Collector.draft, Graph.draft, Draft.edges_foldl hroster hkinds hedges fun _ _ => rfl,
    edges_contributions hv, Collector.links]
  apply map_keepOnce
  · intro l hl l' _ he
    exact Link.edge_inj (Collector.isListed_of_mem_links (mem_keepOnce.mpr hl)) he
  · exact fun _ _ => rfl

/-- Building and marking the graph of a scene gives the graph in closed form. -/
theorem graph_eq (hv : v.WellListed) : (c.draft v).graph.withEntrypoints c.rules v = c.graph v := by
  rw [Graph.withEntrypoints, slots_draft hv, edges_draft hv, Collector.graph, List.map_map]
  congr 1
  apply List.map_congr_left
  intro id _
  have hid : (v.bareNode id).id = id := rfl
  simp only [Function.comp_apply, Option.map_some, Collector.nodeAt, Collector.cause?, hid]
  cases c.rules.classify ⟨v, id⟩ <;> simp [GraphNode.mark]

theorem mem_writers_draft (hv : v.WellListed) {id : NodeId} (hid : id ∈ v.ids) {property : String}
    {writer : NodeId} :
    writer ∈ (c.draft v).writers.writers (v.place id) property ↔ c.Writes v writer id property := by
  rw [Collector.draft, Graph.draft, Draft.mem_writers_foldl, Writers.writers_empty, List.mem_nil_iff, false_or]
  simp only [write_mem_contributions hv]
  constructor
  · rintro ⟨k, target, ht, hp, -, hw⟩
    exact SceneView.place_inj hid hp ▸ hw
  · exact fun hw => ⟨v.kindOf id, id, hid, rfl, rfl, hw⟩

theorem isWritten_draft_iff (hv : v.WellListed) {id : NodeId} (hid : id ∈ v.ids) {property : String} :
    (c.draft v).writers.isWritten (v.place id) property = true ↔ ∃ writer, c.Writes v writer id property := by
  simp only [Writers.isWritten_iff, mem_writers_draft hv hid]

theorem Collector.node?_graph {id : NodeId} (hid : id ∈ v.ids) :
    (c.graph v).node? (v.place id) = some (c.nodeAt v id) := Graph.node?_of_mem hid

theorem Collector.exists_of_node?_graph (hv : v.WellListed) {i : Nat} {n : GraphNode}
    (h : (c.graph v).node? i = some n) : ∃ id ∈ v.ids, i = v.place id ∧ n = c.nodeAt v id :=
  Graph.exists_of_node? hv.nodup h

theorem Collector.nodes_graph : (c.graph v).nodes = v.ids.map (c.nodeAt v) := by
  rw [Graph.nodes, graph, List.filterMap_map, ← List.filterMap_eq_map]
  exact List.filterMap_congr fun _ _ => rfl

theorem Collector.distinctIds_graph (hv : v.WellListed) : (c.graph v).DistinctIds := by
  rw [Graph.DistinctIds, nodes_graph, List.map_map]
  exact (List.map_id v.ids).symm ▸ hv.nodup

theorem Collector.nodesWithIndex_graph (hv : v.WellListed) :
    (c.graph v).nodesWithIndex = v.ids.map fun id => (v.place id, c.nodeAt v id) :=
  Graph.nodesWithIndex_map hv.nodup

/-- Just the listed ids are found in the graph. -/
theorem Collector.indexOf?_graph (hv : v.WellListed) (id : NodeId) :
    (c.graph v).indexOf? id = if id ∈ v.ids then some (v.place id) else none := by
  have hmem : ∀ x, x ∈ (v.ids.map fun id => (v.place id, c.nodeAt v id)).reverse ↔
      ∃ other ∈ v.ids, (v.place other, c.nodeAt v other) = x := by simp
  rw [Graph.indexOf?, nodesWithIndex_graph hv]
  cases h : ((v.ids.map fun id => (v.place id, c.nodeAt v id)).reverse.find? fun x => x.2.id = id) with
  | none =>
    have hnone : id ∉ v.ids := by
      intro hid
      have hne : ¬ decide ((c.nodeAt v id).id = id) = true :=
        List.find?_eq_none.mp h _ ((hmem _).mpr ⟨id, hid, rfl⟩)
      exact hne (decide_eq_true rfl)
    rw [if_neg hnone]
    rfl
  | some x =>
    obtain ⟨other, hother, rfl⟩ := (hmem x).mp (List.mem_of_find?_eq_some h)
    have hfound : decide ((c.nodeAt v other).id = id) = true :=
      List.find?_some (p := fun x : Nat × GraphNode => x.2.id = id) h
    obtain rfl : other = id := of_decide_eq_true hfound
    rw [if_pos hother]
    rfl

end Closed

end ScenePrune
