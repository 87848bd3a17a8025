import Mathlib.Data.List.Basic
import ScenePrune.Proofs.Graph.Contributions
import ScenePrune.Proofs.Graph.Draft

/-! # The edges of the graph of a scene, between ids

`Collector.links` lists the edges that the hierarchy, the plugins and the animation table ask for,
in the order in which they do, each mutation edge once. It speaks of ids and so survives a change
of the listing; `Link.edge` puts a link into a graph.
-/
namespace ScenePrune

structure Link where
  source : NodeId
  target : NodeId
  kind : EdgeKind
  qualifiers : Qualifiers
deriving DecidableEq

namespace Link

def isMutation (l : Link) : Bool := l.kind = .mutation

def edge (v : SceneView) (l : Link) : Edge :=
  ⟨v.place l.source, v.place l.target, l.kind, l.qualifiers⟩

def IsListed (v : SceneView) (l : Link) : Prop := l.source ∈ v.ids ∧ l.target ∈ v.ids

end Link

namespace SceneView

def hierarchyLinks (v : SceneView) (id : NodeId) : List Link :=
  (v.listedParent? id).toList.map fun parent => ⟨id, parent, .hierarchy, .evenIfDisabled⟩

def dependencyLinks (v : SceneView) : Dependency → List Link
  | .entrypoint => []
  | .edge source target qualifiers =>
    if source ∈ v.ids ∧ target ∈ v.ids then [⟨source, target, .dependency, qualifiers⟩] else []

def writerLinks (v : SceneView) (target : NodeId) (property : String) (writer : NodeId) : List Link :=
  if target ∈ v.ids ∧ writer ∈ v.ids ∧ writer ≠ target ∧ property = v.switch target then
    [⟨target, writer, .mutation, .evenIfDisabled⟩]
  else []

def mutationLinks (v : SceneView) (writer : NodeId) (m : Mutation) : List Link :=
  v.writerLinks m.target (m.path (v.kindOf m.target)) writer

def recordLinks (v : SceneView) (r : AnimationRecord) : List Link :=
  r.writers.flatMap (v.writerLinks r.node r.property)

end SceneView

namespace Collector
variable (c : Collector) (v : SceneView)

def pluginLinks (id : NodeId) : List Link :=
  match c.registry.lookup (v.typeOf id) with
  | .ok p => (p.dependencies ⟨v, id⟩).items.flatMap v.dependencyLinks ++
      (p.mutations ⟨v, id⟩).items.flatMap (v.mutationLinks id)
  | .error _ => []

def askedLinks : List Link :=
  v.ids.flatMap v.hierarchyLinks ++ v.ids.flatMap (c.pluginLinks v) ++
    c.animations.records.flatMap v.recordLinks

def links : List Link := keepOnce Link.isMutation (c.askedLinks v)

/-- Why there is a link: a node needs its parent, a plugin says so, or a node that is switched needs
whoever switches it. -/
inductive Asks : Link → Prop where
  | parent {id parent : NodeId} : id ∈ v.ids → v.listedParent? id = some parent →
      Asks ⟨id, parent, .hierarchy, .evenIfDisabled⟩
  | declared {id source target : NodeId} {qualifiers : Qualifiers} {p : Plugin} : id ∈ v.ids →
      c.registry.lookup (v.typeOf id) = .ok p → .edge source target qualifiers ∈ (p.dependencies ⟨v, id⟩).items →
      source ∈ v.ids → target ∈ v.ids → Asks ⟨source, target, .dependency, qualifiers⟩
  | switched {target writer : NodeId} : target ∈ v.ids → writer ∈ v.ids → writer ≠ target →
      c.Writes v writer target (v.switch target) → Asks ⟨target, writer, .mutation, .evenIfDisabled⟩

end Collector

section Asked
variable {v : SceneView} {c : Collector} {l : Link}

theorem SceneView.mem_writerLinks {target writer : NodeId} {property : String} :
    l ∈ v.writerLinks target property writer ↔
      (target ∈ v.ids ∧ writer ∈ v.ids ∧ writer ≠ target ∧ property = v.switch target) ∧
        l = ⟨target, writer, .mutation, .evenIfDisabled⟩ := by
  rw [SceneView.writerLinks, List.mem_ite_nil_right, List.mem_singleton]

/-- Records ask for mutation links only. -/
theorem SceneView.filter_recordLinks (v : SceneView) (records : List AnimationRecord) :
    ((records.flatMap v.recordLinks).filter fun l => !l.isMutation) = [] := by
  rw [List.filter_eq_nil_iff]
  intro l hl
  obtain ⟨r, -, hl⟩ := List.mem_flatMap.mp hl
  obtain ⟨writer, -, hl⟩ := List.mem_flatMap.mp hl
  obtain ⟨-, rfl⟩ := SceneView.mem_writerLinks.mp hl
  simp [Link.isMutation]

theorem Collector.mem_pluginLinks {id : NodeId} : l ∈ c.pluginLinks v id ↔
    ∃ p, c.registry.lookup (v.typeOf id) = .ok p ∧
      ((∃ d ∈ (p.dependencies ⟨v, id⟩).items, l ∈ v.dependencyLinks d) ∨
        ∃ m ∈ (p.mutations ⟨v, id⟩).items, l ∈ v.mutationLinks id m) := by
  unfold Collector.pluginLinks
  cases c.registry.lookup (v.typeOf id) <;> simp

/-- The links of a scene are those that someone asks for. -/
theorem Collector.mem_links_iff : l ∈ c.links v ↔ c.Asks v l := by
  simp only [Collector.links, mem_keepOnce, Collector.askedLinks, List.mem_append, List.mem_flatMap,
    Collector.mem_pluginLinks]
  constructor
  · rintro ((⟨id, hid, hl⟩ | ⟨id, hid, p, hp, ⟨d, hd, hl⟩ | ⟨m, hm, hl⟩⟩) | ⟨r, hr, hl⟩)
    · obtain ⟨parent, hparent, rfl⟩ := List.mem_map.mp hl
      exact .parent hid (Option.mem_toList.mp hparent)
    · cases d with
      | entrypoint => cases hl
      | edge source target qualifiers =>
        simp only [SceneView.dependencyLinks, List.mem_ite_nil_right, List.mem_singleton] at hl
        obtain ⟨⟨hs, ht⟩, rfl⟩ := hl
        exact .declared hid hp hd hs ht
    · obtain ⟨⟨ht, hw, hne, hproperty⟩, rfl⟩ := SceneView.mem_writerLinks.mp hl
      exact .switched ht hw hne (Or.inl ⟨hid, p, hp, m, hm, rfl, hproperty⟩)
    · obtain ⟨w, hw, hl⟩ := List.mem_flatMap.mp hl
      obtain ⟨⟨ht, hlisted, hne, hproperty⟩, rfl⟩ := SceneView.mem_writerLinks.mp hl
      exact .switched ht hlisted hne (Or.inr ⟨r, hr, rfl, hproperty, hw⟩)
  · intro h
    cases h with
    | @parent id parent hid hp =>
      exact Or.inl (Or.inl ⟨id, hid, by simp [SceneView.hierarchyLinks, hp]⟩)
    | @declared id source target qualifiers p hid hp hd hs ht =>
      exact Or.inl (Or.inr ⟨id, hid, p, hp, Or.inl ⟨_, hd, by simp [SceneView.dependencyLinks, hs, ht]⟩⟩)
    | @switched target writer ht hw hne hwrites =>
      rcases hwrites with ⟨hid, p, hp, m, hm, rfl, hproperty⟩ | ⟨r, hr, rfl, hproperty, hwriter⟩
      · refine Or.inl (Or.inr ⟨writer, hid, p, hp, Or.inr ⟨m, hm, ?_⟩⟩)
        exact SceneView.mem_writerLinks.mpr ⟨⟨ht, hw, hne, hproperty⟩, rfl⟩
      · refine Or.inr ⟨r, hr, List.mem_flatMap.mpr ⟨writer, hwriter, ?_⟩⟩
        exact SceneView.mem_writerLinks.mpr ⟨⟨ht, hw, hne, hproperty⟩, rfl⟩

theorem Collector.isListed_of_mem_links (h : l ∈ c.links v) : l.IsListed v := by
  cases mem_links_iff.mp h with
  | parent hid hp => exact ⟨hid, (SceneView.listedParent?_eq_some.mp hp).2⟩
  | declared _ _ _ hs ht => exact ⟨hs, ht⟩
  | switched ht hw _ _ => exact ⟨ht, hw⟩

theorem Link.edge_inj {l' : Link} (hl : l.IsListed v) (h : l.edge v = l'.edge v) : l = l' := by
  obtain ⟨source, target, kind, qualifiers⟩ := l
  obtain ⟨source', target', kind', qualifiers'⟩ := l'
  simp only [Link.edge, Edge.mk.injEq] at h
  obtain ⟨hs, ht, rfl, rfl⟩ := h
  obtain rfl : source = source' := SceneView.place_inj hl.1 hs
  obtain rfl : target = target' := SceneView.place_inj hl.2 ht
  rfl

end Asked

section Edges
variable {v : SceneView} {c : Collector}

theorem edges_ofParent (hv : v.WellListed) (id : NodeId) :
    (Contribution.ofParent v v.roster (v.place id) id).filterMap (Contribution.edge? v.roster) =
      (v.hierarchyLinks id).map (Link.edge v) := by
  unfold Contribution.ofParent SceneView.hierarchyLinks SceneView.listedParent?
  cases v.parent? id with
  | none => rfl
  | some parent =>
    by_cases hp : parent ∈ v.ids
    · simp [Graph.lookup_roster hv, hp, Contribution.edge?, Link.edge, Option.filter]
    · simp [Graph.lookup_roster hv, hp, Contribution.edge?, List.filterMap_cons, Option.filter]

theorem edges_ofDependency (hv : v.WellListed) (i : Nat) (id : NodeId) (d : Dependency) :
    (Contribution.ofDependency v.roster i id d).filterMap (Contribution.edge? v.roster) =
      (v.dependencyLinks d).map (Link.edge v) := by
  cases d with
  | entrypoint => rfl
  | edge source target qualifiers =>
    by_cases hs : source ∈ v.ids <;> by_cases ht : target ∈ v.ids <;>
      simp [Contribution.ofDependency, SceneView.dependencyLinks, Graph.lookup_roster hv, hs, ht,
        Contribution.edge?, Link.edge]

theorem edge?_write (hv : v.WellListed) {target writer : NodeId} (ht : target ∈ v.ids)
    (property : String) :
    ((Contribution.write (v.place target) (v.kindOf target) property writer).edge? v.roster).toList =
      (v.writerLinks target property writer).map (Link.edge v) := by
  by_cases hw : writer ∈ v.ids
  · have hself : v.place writer = v.place target ↔ writer = target :=
      ⟨SceneView.place_inj hw, fun h => h ▸ rfl⟩
    by_cases he : writer = target <;> by_cases hp : property = v.switch target <;>
      simp_all [Contribution.edge?, SceneView.writerLinks, Graph.lookup_roster hv, SceneView.switch, Link.edge]
  · simp [Contribution.edge?, SceneView.writerLinks, Graph.lookup_roster hv, hw]

theorem edges_ofMutation (hv : v.WellListed) (id : NodeId) (m : Mutation) :
    (Contribution.ofMutation v.bareGraph v.roster id m).filterMap (Contribution.edge? v.roster) =
      (v.mutationLinks id m).map (Link.edge v) := by
  by_cases ht : m.target ∈ v.ids
  · have hkind : (v.bareNode m.target).kind = v.kindOf m.target := rfl
    simp only [Contribution.ofMutation, Graph.lookup_roster hv, ht, if_true, node?_bareGraph hv ht, hkind,
      SceneView.mutationLinks]
    rw [← edge?_write hv ht, List.filterMap_cons]
    cases (Contribution.write _ _ _ _).edge? v.roster <;> rfl
  · simp [Contribution.ofMutation, Graph.lookup_roster hv, ht, SceneView.mutationLinks, SceneView.writerLinks, Contribution.edge?]

theorem edges_ofRecord (hv : v.WellListed) (r : AnimationRecord) :
    (Contribution.ofRecord v.bareGraph v.roster r).filterMap (Contribution.edge? v.roster) =
      (v.recordLinks r).map (Link.edge v) := by
  by_cases ht : r.node ∈ v.ids
  · have hkind : (v.bareNode r.node).kind = v.kindOf r.node := rfl
    simp only [Contribution.ofRecord, Graph.lookup_roster hv, ht, if_true, Option.bind_some,
      node?_bareGraph hv ht, Option.map_some, hkind, SceneView.recordLinks]
    induction r.writers with
    | nil => rfl
    | cons w ws ih =>
      rw [List.map_cons, List.flatMap_cons, List.map_append, ← edge?_write hv ht, ← ih]
      cases h : (Contribution.write _ _ _ w).edge? v.roster <;> simp [h]
  · simp [Contribution.ofRecord, Graph.lookup_roster hv, ht, SceneView.recordLinks, SceneView.writerLinks]

theorem edges_ofFailure (p : Plugin) (i : Nat) (n : GraphNode) (e? : Option PluginError) :
    (Contribution.ofFailure p i n e?).filterMap (Contribution.edge? v.roster) = [] := by
  cases e? <;> rfl

theorem edges_ofNode (hv : v.WellListed) (id : NodeId) :
    (Contribution.ofNode v v.bareGraph v.roster c.registry (v.place id) (v.bareNode id)).filterMap
      (Contribution.edge? v.roster) = (c.pluginLinks v id).map (Link.edge v) := by
  have htype : (v.bareNode id).type = v.typeOf id := rfl
  have hid : (v.bareNode id).id = id := rfl
  unfold Contribution.ofNode Collector.pluginLinks
  rw [htype]
  cases c.registry.lookup (v.typeOf id) with
  | error e => cases e <;> rfl
  | ok p =>
    simp only [Contribution.ofPlugin, hid, List.filterMap_append, List.filterMap_flatMap,
      edges_ofDependency hv, edges_ofMutation hv, edges_ofFailure, List.map_append, List.map_flatMap,
      List.append_nil]
    split <;> simp [Contribution.edge?]

theorem edges_contributions (hv : v.WellListed) :
    (contributions v c.registry c.animations v.bareGraph v.roster).filterMap (Contribution.edge? v.roster) =
      (c.askedLinks v).map (Link.edge v) := by
  simp only [contributions, nodesWithIndex_bareGraph hv, List.filterMap_append, List.filterMap_flatMap,
    List.flatMap_map, Collector.askedLinks, List.map_append, List.map_flatMap, edges_ofRecord hv,
    edges_ofNode hv]
  have hid : ∀ id, (v.bareNode id).id = id := fun _ => rfl
  simp only [hid, edges_ofParent hv]

end Edges

end ScenePrune
