import ScenePrune.Proofs.Graph.Diagnostics
import ScenePrune.Proofs.Run.Support

/-! # Every fact of a scene is in its graph, and nothing else is

The graph that the first pass builds has a node for each listed id, and its edges are accounted for by
kind: those of the hierarchy and those that plugins declare stand once for each time they are asked for,
and a mutation edge stands once for each pair of a node and somebody who may switch it, however often
and by whatever route that is on record.
-/
namespace ScenePrune

def Diagnostic.isDangling : Diagnostic → Bool
  | .danglingDeclaration _ _ => true
  | _ => false

namespace Collector
variable (c : Collector) (v : SceneView)

/-- The dependencies that the plugin of a node declares, those before a failure included. -/
def dependencies (id : NodeId) : List Dependency :=
  match c.registry.lookup (v.typeOf id) with
  | .ok p => (p.dependencies ⟨v, id⟩).items
  | .error _ => []

def mutations (id : NodeId) : List Mutation :=
  match c.registry.lookup (v.typeOf id) with
  | .ok p => (p.mutations ⟨v, id⟩).items
  | .error _ => []

end Collector

namespace SceneView
variable {v : SceneView} {id : NodeId}

theorem WellListed.getElem?_eq_some_iff (hv : v.WellListed) {i : Nat} :
    v.ids[i]? = some id ↔ id ∈ v.ids ∧ v.place id = i := by
  constructor
  · intro h
    obtain ⟨hi, rfl⟩ := List.getElem?_eq_some_iff.mp h
    exact ⟨List.getElem_mem hi, hv.nodup.idxOf_getElem i hi⟩
  · rintro ⟨hid, rfl⟩
    have hi := List.idxOf_lt_length_of_mem hid
    exact List.getElem?_eq_some_iff.mpr ⟨hi, List.getElem_idxOf hi⟩

theorem WellListed.type?_eq (hv : v.WellListed) (hid : id ∈ v.ids) : v.type? id = some (v.typeOf id) := by
  obtain ⟨type, htype⟩ := Option.isSome_iff_exists.mp (hv.typed id hid)
  rw [typeOf, htype]
  rfl

/-- The position of the parent, where the parent is listed. -/
theorem WellListed.map_place_eq_some_iff (hv : v.WellListed) {i : Nat} :
    (v.listedParent? id).map v.place = some i ↔ ∃ parent, v.parent? id = some parent ∧ v.ids[i]? = some parent := by
  simp only [Option.map_eq_some_iff, listedParent?_eq_some, hv.getElem?_eq_some_iff, and_assoc]

end SceneView

section Kinds
variable {v : SceneView} {c : Collector} {kind : EdgeKind}

/-- Links that are all of one kind are kept or dropped together when a kind is picked. -/
theorem Link.filter_kind {links : List Link} {kind' : EdgeKind} (h : ∀ l ∈ links, l.kind = kind') :
    links.filter (·.kind = kind) = if kind' = kind then links else [] := by
  split
  case isTrue he =>
    rw [List.filter_eq_self]
    exact fun l hl => decide_eq_true ((h l hl).trans he)
  case isFalse hne =>
    rw [List.filter_eq_nil_iff]
    exact fun l hl he => hne ((h l hl).symm.trans (of_decide_eq_true he))

theorem SceneView.filter_hierarchyLinks (id : NodeId) :
    (v.hierarchyLinks id).filter (·.kind = kind) = if .hierarchy = kind then v.hierarchyLinks id else [] := by
  apply Link.filter_kind
  intro l hl
  obtain ⟨parent, -, rfl⟩ := List.mem_map.mp hl
  rfl

theorem SceneView.filter_dependencyLinks (d : Dependency) :
    (v.dependencyLinks d).filter (·.kind = kind) = if .dependency = kind then v.dependencyLinks d else [] := by
  apply Link.filter_kind
  intro l hl
  cases d with
  | entrypoint => cases hl
  | edge source target qualifiers =>
    rw [SceneView.dependencyLinks, List.mem_ite_nil_right, List.mem_singleton] at hl
    rw [hl.2]

theorem SceneView.filter_writerLinks (target writer : NodeId) (property : String) :
    (v.writerLinks target property writer).filter (·.kind = kind) =
      if .mutation = kind then v.writerLinks target property writer else [] := by
  apply Link.filter_kind
  intro l hl
  rw [(SceneView.mem_writerLinks.mp hl).2]

theorem Collector.pluginLinks_eq_append (id : NodeId) : c.pluginLinks v id =
    (c.dependencies v id).flatMap v.dependencyLinks ++ (c.mutations v id).flatMap (v.mutationLinks id) := by
  unfold Collector.pluginLinks Collector.dependencies Collector.mutations
  cases c.registry.lookup (v.typeOf id) <;> rfl

/-- Links other than those to a writer stand as often as they are asked for. -/
theorem Collector.filter_links (hkind : kind ≠ .mutation) :
    (c.links v).filter (·.kind = kind) = (c.askedLinks v).filter (·.kind = kind) := by
  rw [Collector.links, filter_keepOnce]
  apply keepOnce_eq_self
  intro l hl
  have hl : l.kind = kind := of_decide_eq_true (List.mem_filter.mp hl).2
  exact decide_eq_false (hl ▸ hkind)

theorem Collector.filter_links_hierarchy :
    (c.links v).filter (·.kind = .hierarchy) = v.ids.flatMap v.hierarchyLinks := by
  simp [Collector.filter_links, Collector.askedLinks, Collector.pluginLinks_eq_append, List.filter_flatMap,
    SceneView.filter_hierarchyLinks, SceneView.filter_dependencyLinks, SceneView.mutationLinks,
    SceneView.recordLinks, SceneView.filter_writerLinks]

theorem Collector.filter_links_dependency : (c.links v).filter (·.kind = .dependency) =
    v.ids.flatMap fun id => (c.dependencies v id).flatMap v.dependencyLinks := by
  have hnone : ∀ {α : Type} (l : List α), (l.flatMap fun _ => ([] : List Link)) = [] := by simp
  simp [Collector.filter_links, Collector.askedLinks, Collector.pluginLinks_eq_append, List.filter_flatMap,
    SceneView.filter_hierarchyLinks, SceneView.filter_dependencyLinks, SceneView.mutationLinks,
    SceneView.recordLinks, SceneView.filter_writerLinks, hnone]

theorem Collector.nodup_links_mutation : ((c.links v).filter (·.kind = .mutation)).Nodup := by
  rw [Collector.links, filter_keepOnce]
  apply nodup_keepOnce
  intro l hl
  exact (List.mem_filter.mp hl).2

theorem Collector.mem_links_mutation {l : Link} : l ∈ (c.links v).filter (·.kind = .mutation) ↔
    ∃ target ∈ v.ids, ∃ writer ∈ v.ids, writer ≠ target ∧ c.Switches v writer target ∧
      l = ⟨target, writer, .mutation, .evenIfDisabled⟩ := by
  rw [List.mem_filter, Collector.mem_links_iff]
  constructor
  · rintro ⟨hl, hkind⟩
    cases hl with
    | parent => cases of_decide_eq_true hkind
    | declared => cases of_decide_eq_true hkind
    | switched ht hw hne hwrites => exact ⟨_, ht, _, hw, hne, Collector.switches_iff_writes.mpr hwrites, rfl⟩
  · rintro ⟨target, ht, writer, hw, hne, hswitches, rfl⟩
    exact ⟨.switched ht hw hne (Collector.switches_iff_writes.mp hswitches), rfl⟩

theorem Link.filter_kind_map (links : List Link) :
    (links.map (Link.edge v)).filter (·.kind = kind) = (links.filter (·.kind = kind)).map (Link.edge v) := by
  rw [List.filter_map]
  rfl

end Kinds

section Reports
variable {v : SceneView} {c : Collector}

theorem SceneView.filter_dependencyDiagnostics (id : NodeId) (d : Dependency) :
    (v.dependencyDiagnostics id d).filter Diagnostic.isDangling = v.dependencyDiagnostics id d := by
  rw [List.filter_eq_self]
  intro x hx
  obtain ⟨missing, rfl⟩ := mem_dependencyDiagnostics hx
  rfl

theorem SceneView.filter_mutationDiagnostics (id : NodeId) (m : Mutation) :
    (v.mutationDiagnostics id m).filter Diagnostic.isDangling = v.mutationDiagnostics id m := by
  rw [List.filter_eq_self]
  intro x hx
  obtain ⟨missing, rfl⟩ := mem_mutationDiagnostics hx
  rfl

theorem SceneView.filter_parentDiagnostics (id : NodeId) :
    (v.parentDiagnostics id).filter Diagnostic.isDangling = [] := by
  rw [List.filter_eq_nil_iff]
  intro x hx
  obtain ⟨parent, rfl⟩ := mem_parentDiagnostics hx
  simp [Diagnostic.isDangling]

/-- What is declared about missing nodes is reported node by node, edges before mutations. -/
theorem Collector.filter_diagnostics : (c.diagnostics v).filter Diagnostic.isDangling =
    v.ids.flatMap fun id => (c.dependencies v id).flatMap (v.dependencyDiagnostics id) ++
      (c.mutations v id).flatMap (v.mutationDiagnostics id) := by
  have hplugin : ∀ id, (c.pluginDiagnostics v id).filter Diagnostic.isDangling =
      (c.dependencies v id).flatMap (v.dependencyDiagnostics id) ++
        (c.mutations v id).flatMap (v.mutationDiagnostics id) := by
    intro id
    unfold Collector.pluginDiagnostics Collector.dependencies Collector.mutations
    cases c.registry.lookup (v.typeOf id) with
    | error e => cases e <;> rfl
    | ok p =>
      have hfailure : ((p.failure? ⟨v, id⟩).toList.map fun e =>
          Diagnostic.pluginCallbackFailure id (v.typeOf id) e.message).filter Diagnostic.isDangling = [] := by
        cases p.failure? ⟨v, id⟩ <;> rfl
      simp only [List.filter_append, List.filter_flatMap, SceneView.filter_dependencyDiagnostics,
        SceneView.filter_mutationDiagnostics, hfailure, List.append_nil]
  have hparent : (v.ids.flatMap v.parentDiagnostics).filter Diagnostic.isDangling = [] := by
    simp [List.filter_flatMap, SceneView.filter_parentDiagnostics]
  rw [Collector.diagnostics, List.filter_append, hparent, List.nil_append, List.filter_flatMap]
  simp only [hplugin]

end Reports

namespace Collector
variable (c : Collector) (v : SceneView) (m : Monitor)

/-- The first pass gives each listed id its node, in the order of the listing, and draws exactly the edges
that the hierarchy, the plugins and the writers ask for. What is declared about a node that is not listed
is reported instead. -/
theorem perform_dependencies_exact (hv : v.WellListed) :
    let p := c.perform v { monitor := m } .dependencies
    p.graph.slots.length = v.ids.length ∧
    (∀ i id, v.ids[i]? = some id → ∃ n, p.graph.node? i = some n ∧ n.id = id ∧ v.type? id = some n.type ∧
      n.kind = (v.kind? id).getD .component ∧ n.enabled = v.enabled id ∧
      ∀ j, n.parent? = some j ↔ ∃ parent, v.parent? id = some parent ∧ v.ids[j]? = some parent) ∧
    p.graph.edges.filter (·.kind = .hierarchy) = (v.ids.flatMap v.hierarchyLinks).map (Link.edge v) ∧
    p.graph.edges.filter (·.kind = .dependency) =
      (v.ids.flatMap fun id => (c.dependencies v id).flatMap v.dependencyLinks).map (Link.edge v) ∧
    (p.graph.edges.filter (·.kind = .mutation)).Nodup ∧
    (∀ e, e ∈ p.graph.edges.filter (·.kind = .mutation) ↔
      ∃ target ∈ v.ids, ∃ writer ∈ v.ids, writer ≠ target ∧ c.Switches v writer target ∧
        e = ⟨v.place target, v.place writer, .mutation, .evenIfDisabled⟩) ∧
    (∃ writers, p.writers? = some writers ∧ ∀ target ∈ v.ids, ∀ writer,
      writer ∈ writers.writers (v.place target) (v.switch target) ↔ c.Switches v writer target) ∧
    p.diagnostics.filter Diagnostic.isDangling =
      v.ids.flatMap fun id => (c.dependencies v id).flatMap (v.dependencyDiagnostics id) ++
        (c.mutations v id).flatMap (v.mutationDiagnostics id) := by
  intro p
  have hslots : p.graph.slots = v.ids.map fun id => some { v.bareNode id with
      parent? := (v.listedParent? id).map v.place, entrypoint? := c.declaredCause? v id } := slots_draft hv
  have hedges : p.graph.edges = (c.links v).map (Link.edge v) := edges_draft hv
  have hdiagnostics : p.diagnostics = c.diagnostics v := diagnostics_draft hv
  refine ⟨?_, ?_, ?_, ?_, ?_, ?_, ⟨(c.draft v).writers, rfl, fun target ht writer => mem_writers_switch_iff hv ht⟩, ?_⟩
  · rw [hslots, List.length_map]
  · intro i id hi
    have hid := (hv.getElem?_eq_some_iff.mp hi).1
    refine ⟨_, by rw [Graph.node?, hslots, List.getElem?_map, hi]; rfl, rfl, hv.type?_eq hid, rfl, rfl, fun j => ?_⟩
    exact hv.map_place_eq_some_iff
  · rw [hedges, Link.filter_kind_map, filter_links_hierarchy]
  · rw [hedges, Link.filter_kind_map, filter_links_dependency]
  · rw [hedges, Link.filter_kind_map]
    refine nodup_links_mutation.map_on fun l hl l' _ he => ?_
    exact Link.edge_inj (isListed_of_mem_links (List.mem_filter.mp hl).1) he
  · intro e
    rw [hedges, Link.filter_kind_map, List.mem_map]
    constructor
    · rintro ⟨l, hl, rfl⟩
      obtain ⟨target, ht, writer, hw, hne, hswitches, rfl⟩ := mem_links_mutation.mp hl
      exact ⟨target, ht, writer, hw, hne, hswitches, rfl⟩
    · rintro ⟨target, ht, writer, hw, hne, hswitches, rfl⟩
      exact ⟨_, mem_links_mutation.mpr ⟨target, ht, writer, hw, hne, hswitches, rfl⟩, rfl⟩
  · rw [hdiagnostics, filter_diagnostics]

/-- The animator 1 drives 3 twice and, like its avatar root, the missing node 8; a clip names 1 once more
as a writer of 3, and a writer outside the scene. -/
def workshop : Listing := .ofList
    [(1, { type? := some "Animator", kind? := some .component, parent? := some 2,
           fields := ⟨[("avatar_root", .ref (some 8)), ("drives", .refs [some 3, some 3, some 8])]⟩ }),
     (2, { type? := some "Transform", kind? := some .transform }),
     (3, { type? := some "Transform", kind? := some .transform, parent? := some 2, enabled := false })] []

def workshopClips : AnimationTable := .ofRecords [⟨3, NodeKind.enabledProperty .transform, [1, 7]⟩]

/-- The animator 1 switches node 3 by two routes, and there is one mutation edge for it. -/
theorem perform_dependencies_exact_workshop :
    let p := { Bundled.collector with animations := workshopClips }.perform (Host.view workshop) { monitor := {} } .dependencies
    p.graph.edges.filter (·.kind = .hierarchy) =
      [⟨0, 1, .hierarchy, .evenIfDisabled⟩, ⟨2, 1, .hierarchy, .evenIfDisabled⟩] ∧
    p.graph.edges.filter (·.kind = .dependency) = [] ∧
    (p.graph.edges.filter (·.kind = .mutation)).count ⟨2, 0, .mutation, .evenIfDisabled⟩ = 1 ∧
    p.diagnostics.filter Diagnostic.isDangling = [.danglingDeclaration 1 8, .danglingDeclaration 1 8] := by
  have hv : (Host.view workshop).WellListed := Listing.wellListed_view (by decide)
  obtain ⟨-, -, hhierarchy, hdependency, hnodup, hmutation, -, hdangling⟩ :=
    perform_dependencies_exact { Bundled.collector with animations := workshopClips } (Host.view workshop) {} hv
  refine ⟨hhierarchy.trans (by decide), hdependency.trans (by decide), ?_, hdangling.trans (by decide)⟩
  refine List.count_eq_one_of_mem hnodup ((hmutation _).mpr ⟨3, by decide, 1, by decide, by decide, ?_, rfl⟩)
  exact .toggle (p := Bundled.animator) (by decide) rfl (by decide)

end Collector

end ScenePrune
