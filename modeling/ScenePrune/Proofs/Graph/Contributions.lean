import ScenePrune.Collector
import ScenePrune.Proofs.Graph.Verdicts
import ScenePrune.Proofs.Scene.View

/-! # What a scene says about its graph

Each source of contributions has few things to say: the hierarchy attaches a node, a declared
dependency marks or links, a mutation or a record writes. What a whole scene contributes in the
way of writes and requests to cancel is read off from that.
-/
namespace ScenePrune

abbrev SceneView.bareGraph (v : SceneView) : Graph := (∅ : Graph).enroll v

abbrev SceneView.roster (v : SceneView) : Roster := (∅ : Graph).roster v

namespace Collector
variable (c : Collector) (v : SceneView)

def Writes (writer target : NodeId) (property : String) : Prop :=
  (writer ∈ v.ids ∧ ∃ p, c.registry.lookup (v.typeOf writer) = .ok p ∧
    ∃ m ∈ (p.mutations ⟨v, writer⟩).items, m.target = target ∧ m.path (v.kindOf target) = property) ∨
  ∃ r ∈ c.animations.records, r.node = target ∧ r.property = property ∧ writer ∈ r.writers

def pluginCancels (id : NodeId) : Bool :=
  match c.registry.lookup (v.typeOf id) with
  | .ok p => (p.dependencies ⟨v, id⟩).cancels || (p.mutations ⟨v, id⟩).cancels
  | .error _ => false

end Collector

section Bare
variable {v : SceneView}

theorem node?_bareGraph (hv : v.WellListed) {id : NodeId} (hid : id ∈ v.ids) :
    v.bareGraph.node? (v.place id) = some (v.bareNode id) := by
  rw [SceneView.bareGraph, Graph.enroll_empty hv.typed]
  exact Graph.node?_of_mem hid

theorem nodesWithIndex_bareGraph (hv : v.WellListed) :
    v.bareGraph.nodesWithIndex = v.ids.map fun id => (v.place id, v.bareNode id) := by
  rw [SceneView.bareGraph, Graph.enroll_empty hv.typed]
  exact Graph.nodesWithIndex_map hv.nodup

end Bare

namespace Contribution
variable {v : SceneView} {g : Graph} {roster : Roster} {i : Nat} {id : NodeId} {x : Contribution}

inductive IsNote : Contribution → Prop where
  | warn (text : String) : IsNote (.warn text)
  | diagnose (d : Diagnostic) : IsNote (.diagnose d)

theorem mem_ofParent (hx : x ∈ ofParent v roster i id) : (∃ parent, x = .attach i parent) ∨ x.IsNote := by
  unfold ofParent at hx
  split at hx
  · simp at hx
  · split at hx
    · exact Or.inl ⟨_, List.mem_singleton.mp hx⟩
    · simp only [List.mem_cons, List.not_mem_nil, or_false] at hx
      rcases hx with rfl | rfl
      · exact Or.inr (.warn _)
      · exact Or.inr (.diagnose _)

theorem mem_ofDependency {d : Dependency} (hx : x ∈ ofDependency roster i id d) :
    (d = .entrypoint ∧ x = .mark i .declared) ∨ (∃ s t q, x = .depend s t q) ∨ x.IsNote := by
  cases d with
  | entrypoint => exact Or.inl ⟨rfl, List.mem_singleton.mp hx⟩
  | edge source target qualifiers =>
    simp only [ofDependency] at hx
    split at hx
    · exact Or.inr (Or.inl ⟨_, _, _, List.mem_singleton.mp hx⟩)
    · simp only [List.mem_cons, List.not_mem_nil, or_false] at hx
      rcases hx with rfl | rfl
      · exact Or.inr (Or.inr (.warn _))
      · exact Or.inr (Or.inr (.diagnose _))

theorem mem_ofMutation {m : Mutation} (hx : x ∈ ofMutation g roster id m) :
    (∃ t k property, x = .write t k property id) ∨ x.IsNote := by
  unfold ofMutation at hx
  split at hx
  · simp only [List.mem_cons, List.not_mem_nil, or_false] at hx
    rcases hx with rfl | rfl
    · exact Or.inr (.warn _)
    · exact Or.inr (.diagnose _)
  · split at hx
    · simp at hx
    · exact Or.inl ⟨_, _, _, List.mem_singleton.mp hx⟩

theorem mem_ofFailure {p : Plugin} {n : GraphNode} {e? : Option PluginError} (hx : x ∈ ofFailure p i n e?) :
    (e?.isSome ∧ x = .mark i .callbackFailure) ∨ x.IsNote := by
  cases e? with
  | none => simp [ofFailure] at hx
  | some e =>
    simp only [ofFailure, List.mem_cons, List.not_mem_nil, or_false] at hx
    rcases hx with rfl | rfl | rfl
    · exact Or.inr (.warn _)
    · exact Or.inl ⟨rfl, rfl⟩
    · exact Or.inr (.diagnose _)

theorem mem_ofRecord {r : AnimationRecord} (hx : x ∈ ofRecord g roster r) :
    ∃ t k writer, x = .write t k r.property writer := by
  unfold ofRecord at hx
  split at hx
  · simp at hx
  · obtain ⟨w, -, rfl⟩ := List.mem_map.mp hx
    exact ⟨_, _, w, rfl⟩

theorem mem_ofPlugin {p : Plugin} {n : GraphNode} (hx : x ∈ ofPlugin v g roster p i n) :
    ((p.dependencies ⟨v, n.id⟩).cancels || (p.mutations ⟨v, n.id⟩).cancels) ∧ x = .cancel ∨
      (∃ m ∈ (p.mutations ⟨v, n.id⟩).items, x ∈ ofMutation g roster n.id m) ∨
      (∃ cause, x = .mark i cause) ∨ (∃ s t q, x = .depend s t q) ∨ x.IsNote := by
  simp only [ofPlugin, List.mem_append, List.mem_flatMap] at hx
  rcases hx with ((hx | ⟨d, -, hx⟩) | hx) | hx
  · split at hx
    case isTrue hc => exact Or.inl ⟨hc, List.mem_singleton.mp hx⟩
    case isFalse => simp at hx
  · rcases mem_ofDependency hx with ⟨-, h⟩ | h | h
    · exact Or.inr (Or.inr (Or.inl ⟨_, h⟩))
    · exact Or.inr (Or.inr (Or.inr (Or.inl h)))
    · exact Or.inr (Or.inr (Or.inr (Or.inr h)))
  · exact Or.inr (Or.inl hx)
  · rcases mem_ofFailure hx with ⟨-, h⟩ | h
    · exact Or.inr (Or.inr (Or.inl ⟨_, h⟩))
    · exact Or.inr (Or.inr (Or.inr (Or.inr h)))

theorem mem_ofNode {registry : PluginRegistry} {n : GraphNode}
    (hx : x ∈ ofNode v g roster registry i n) :
    (∃ p, registry.lookup n.type = .ok p ∧
      (((p.dependencies ⟨v, n.id⟩).cancels || (p.mutations ⟨v, n.id⟩).cancels) ∧ x = .cancel ∨
        ∃ m ∈ (p.mutations ⟨v, n.id⟩).items, x ∈ ofMutation g roster n.id m)) ∨
      (∃ cause, x = .mark i cause) ∨ (∃ s t q, x = .depend s t q) ∨ x.IsNote := by
  unfold ofNode at hx
  split at hx
  · rename_i p hp
    rcases mem_ofPlugin hx with h | h | h
    · exact Or.inl ⟨p, hp, Or.inl h⟩
    · exact Or.inl ⟨p, hp, Or.inr h⟩
    · exact Or.inr h
  · simp only [List.mem_cons, List.not_mem_nil, or_false] at hx
    rcases hx with rfl | rfl
    · exact Or.inr (Or.inl ⟨_, rfl⟩)
    · exact Or.inr (Or.inr (Or.inr (.diagnose _)))
  · simp only [List.mem_cons, List.not_mem_nil, or_false] at hx
    rcases hx with rfl | rfl | rfl
    · exact Or.inr (Or.inr (Or.inr (.warn _)))
    · exact Or.inr (Or.inl ⟨_, rfl⟩)
    · exact Or.inr (Or.inr (Or.inr (.diagnose _)))

end Contribution

section Told
variable {v : SceneView} {c : Collector} {t : Nat} {k : NodeKind} {property : String} {writer : NodeId}

theorem write_mem_ofMutation (hv : v.WellListed) (id : NodeId) (m : Mutation) :
    Contribution.write t k property writer ∈ Contribution.ofMutation v.bareGraph v.roster id m ↔
      m.target ∈ v.ids ∧ t = v.place m.target ∧ k = v.kindOf m.target ∧ property = m.path k ∧ writer = id := by
  by_cases ht : m.target ∈ v.ids
  · have hkind : (v.bareNode m.target).kind = v.kindOf m.target := rfl
    simp only [Contribution.ofMutation, Graph.lookup_roster hv, ht, if_true, node?_bareGraph hv ht, hkind,
      List.mem_singleton, Contribution.write.injEq, true_and]
    constructor
    · rintro ⟨rfl, rfl, rfl, rfl⟩
      exact ⟨rfl, rfl, rfl, rfl⟩
    · rintro ⟨rfl, rfl, rfl, rfl⟩
      exact ⟨rfl, rfl, rfl, rfl⟩
  · simp [Contribution.ofMutation, Graph.lookup_roster hv, ht]

theorem write_mem_ofRecord (hv : v.WellListed) (r : AnimationRecord) :
    Contribution.write t k property writer ∈ Contribution.ofRecord v.bareGraph v.roster r ↔
      r.node ∈ v.ids ∧ t = v.place r.node ∧ k = v.kindOf r.node ∧ property = r.property ∧ writer ∈ r.writers := by
  by_cases ht : r.node ∈ v.ids
  · have hkind : (v.bareNode r.node).kind = v.kindOf r.node := rfl
    simp only [Contribution.ofRecord, Graph.lookup_roster hv, ht, if_true, Option.bind_some,
      node?_bareGraph hv ht, Option.map_some, hkind, List.mem_map, Contribution.write.injEq, true_and]
    constructor
    · rintro ⟨_, hw, rfl, rfl, rfl, rfl⟩
      exact ⟨rfl, rfl, rfl, hw⟩
    · rintro ⟨rfl, rfl, rfl, hw⟩
      exact ⟨writer, hw, rfl, rfl, rfl, rfl⟩
  · simp [Contribution.ofRecord, Graph.lookup_roster hv, ht]

theorem write_mem_ofNode (hv : v.WellListed) (id : NodeId) :
    Contribution.write t k property writer ∈
        Contribution.ofNode v v.bareGraph v.roster c.registry (v.place id) (v.bareNode id) ↔
      ∃ p, c.registry.lookup (v.typeOf id) = .ok p ∧ ∃ m ∈ (p.mutations ⟨v, id⟩).items,
        m.target ∈ v.ids ∧ t = v.place m.target ∧ k = v.kindOf m.target ∧ property = m.path k ∧ writer = id := by
  constructor
  · intro h
    rcases Contribution.mem_ofNode h with ⟨p, hp, ⟨-, h⟩ | ⟨m, hm, h⟩⟩ | ⟨cause, h⟩ | ⟨_, _, _, h⟩ | h
    · cases h
    · exact ⟨p, hp, m, hm, (write_mem_ofMutation hv id m).mp h⟩
    · cases h
    · cases h
    · cases h
  · rintro ⟨p, hp, m, hm, h⟩
    have hlookup : c.registry.lookup (v.bareNode id).type = .ok p := hp
    simp only [Contribution.ofNode, hlookup, Contribution.ofPlugin, List.mem_append, List.mem_flatMap]
    exact Or.inl (Or.inr ⟨m, hm, (write_mem_ofMutation hv id m).mpr h⟩)

theorem write_mem_contributions (hv : v.WellListed) :
    Contribution.write t k property writer ∈
        contributions v c.registry c.animations v.bareGraph v.roster ↔
      ∃ target ∈ v.ids, t = v.place target ∧ k = v.kindOf target ∧ c.Writes v writer target property := by
  simp only [contributions, nodesWithIndex_bareGraph hv, List.mem_append, List.mem_flatMap, List.mem_map,
    Prod.exists, Prod.mk.injEq, write_mem_ofRecord hv, Collector.Writes]
  constructor
  · rintro ((⟨i, n, ⟨id, _, rfl, rfl⟩, h⟩ | ⟨i, n, ⟨id, hmem, rfl, rfl⟩, h⟩) | ⟨r, hr, ht, rfl, rfl, rfl, hw⟩)
    · rcases Contribution.mem_ofParent h with ⟨_, h⟩ | h <;> cases h
    · obtain ⟨p, hp, m, hm, ht, rfl, rfl, rfl, rfl⟩ := (write_mem_ofNode hv id).mp h
      exact ⟨m.target, ht, rfl, rfl, Or.inl ⟨hmem, p, hp, m, hm, rfl, rfl⟩⟩
    · exact ⟨r.node, ht, rfl, rfl, Or.inr ⟨r, hr, rfl, rfl, hw⟩⟩
  · rintro ⟨target, ht, rfl, rfl, ⟨hmem, p, hp, m, hm, rfl, rfl⟩ | ⟨r, hr, rfl, rfl, hw⟩⟩
    · refine Or.inl (Or.inr ⟨_, _, ⟨writer, hmem, rfl, rfl⟩, (write_mem_ofNode hv writer).mpr ?_⟩)
      exact ⟨p, hp, m, hm, ht, rfl, rfl, rfl, rfl⟩
    · exact Or.inr ⟨r, hr, ht, rfl, rfl, rfl, hw⟩

theorem cancel_mem_ofNode {g : Graph} {roster : Roster} {registry : PluginRegistry} {i : Nat} {n : GraphNode} :
    Contribution.cancel ∈ Contribution.ofNode v g roster registry i n ↔ ∃ p, registry.lookup n.type = .ok p ∧
      ((p.dependencies ⟨v, n.id⟩).cancels || (p.mutations ⟨v, n.id⟩).cancels) := by
  constructor
  · intro h
    rcases Contribution.mem_ofNode h with ⟨p, hp, ⟨hc, -⟩ | ⟨m, -, h⟩⟩ | ⟨_, h⟩ | ⟨_, _, _, h⟩ | h
    · exact ⟨p, hp, hc⟩
    · rcases Contribution.mem_ofMutation h with ⟨_, _, _, h⟩ | h <;> cases h
    · cases h
    · cases h
    · cases h
  · rintro ⟨p, hp, hc⟩
    simp [Contribution.ofNode, hp, Contribution.ofPlugin, hc]

/-- Only a plugin that is asked about a node of the graph can ask to cancel. -/
theorem cancel_mem_contributions_iff {g : Graph} {roster : Roster} {registry : PluginRegistry}
    {animations : AnimationTable} :
    Contribution.cancel ∈ contributions v registry animations g roster ↔
      ∃ n ∈ g.nodes, ∃ p, registry.lookup n.type = .ok p ∧
        ((p.dependencies ⟨v, n.id⟩).cancels || (p.mutations ⟨v, n.id⟩).cancels) := by
  simp only [contributions, List.mem_append, List.mem_flatMap, Prod.exists, cancel_mem_ofNode,
    Graph.mem_nodesWithIndex, Graph.mem_nodes]
  constructor
  · rintro ((⟨i, n, _, h⟩ | ⟨i, n, hn, h⟩) | ⟨r, _, h⟩)
    · rcases Contribution.mem_ofParent h with ⟨_, h⟩ | h <;> cases h
    · exact ⟨n, ⟨i, hn⟩, h⟩
    · obtain ⟨_, _, _, h⟩ := Contribution.mem_ofRecord h
      cases h
  · rintro ⟨n, ⟨i, hn⟩, h⟩
    exact Or.inl (Or.inr ⟨i, n, hn, h⟩)

theorem nodes_bareGraph (hv : v.Typed) : v.bareGraph.nodes = v.ids.map v.bareNode := by
  rw [SceneView.bareGraph, Graph.enroll_empty hv, Graph.nodes, List.filterMap_map, ← List.filterMap_eq_map]
  rfl

theorem cancel_mem_contributions (hv : v.Typed) :
    Contribution.cancel ∈ contributions v c.registry c.animations v.bareGraph v.roster ↔
      ∃ id ∈ v.ids, c.pluginCancels v id = true := by
  rw [cancel_mem_contributions_iff, nodes_bareGraph hv]
  simp only [List.mem_map, exists_exists_and_eq_and]
  refine exists_congr fun id => and_congr_right fun _ => ?_
  have htype : (v.bareNode id).type = v.typeOf id := rfl
  have hid : (v.bareNode id).id = id := rfl
  rw [htype, hid, Collector.pluginCancels]
  cases c.registry.lookup (v.typeOf id) <;> simp

end Told

end ScenePrune
