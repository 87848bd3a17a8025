import ScenePrune.Proofs.Graph.Construction

/-! # The diagnostics of a scene

A run reports each parent that is missing, and then for each node what the registry or its plugin got
wrong. What is reported about a node depends on what is declared about it and on the listing.
-/
namespace ScenePrune

namespace SceneView
variable (v : SceneView) (id : NodeId)

def parentDiagnostics : List Diagnostic :=
  ((v.parent? id).filter (· ∉ v.ids)).toList.map (.unresolvedParent id)

/-- An edge is reported for one end only; the source comes first. -/
def dependencyDiagnostics : Dependency → List Diagnostic
  | .entrypoint => []
  | .edge source target _ =>
    ([source, target].find? (· ∉ v.ids)).toList.map (.danglingDeclaration id)

def mutationDiagnostics (m : Mutation) : List Diagnostic :=
  if m.target ∈ v.ids then [] else [.danglingDeclaration id m.target]

end SceneView

namespace Collector
variable (c : Collector) (v : SceneView)

def pluginDiagnostics (id : NodeId) : List Diagnostic :=
  match c.registry.lookup (v.typeOf id) with
  | .ok p =>
    (p.dependencies ⟨v, id⟩).items.flatMap (v.dependencyDiagnostics id) ++
      (p.mutations ⟨v, id⟩).items.flatMap (v.mutationDiagnostics id) ++
      (p.failure? ⟨v, id⟩).toList.map fun e => .pluginCallbackFailure id (v.typeOf id) e.message
  | .error (.unregistered _) => [.unregisteredType id (v.typeOf id)]
  | .error (.ambiguous _ candidates) => [.ambiguousPluginResolution id (v.typeOf id) candidates]

def diagnostics : List Diagnostic :=
  v.ids.flatMap v.parentDiagnostics ++ v.ids.flatMap (c.pluginDiagnostics v)

end Collector

variable {v : SceneView} {c : Collector} {id : NodeId}

section Members
variable {x : Diagnostic}

theorem mem_parentDiagnostics (hx : x ∈ v.parentDiagnostics id) : ∃ parent, x = .unresolvedParent id parent := by
  obtain ⟨parent, -, rfl⟩ := List.mem_map.mp hx
  exact ⟨parent, rfl⟩

theorem mem_dependencyDiagnostics {d : Dependency} (hx : x ∈ v.dependencyDiagnostics id d) :
    ∃ missing, x = .danglingDeclaration id missing := by
  cases d with
  | entrypoint => cases hx
  | edge source target qualifiers =>
    obtain ⟨missing, -, rfl⟩ := List.mem_map.mp hx
    exact ⟨missing, rfl⟩

theorem mem_mutationDiagnostics {m : Mutation} (hx : x ∈ v.mutationDiagnostics id m) :
    ∃ missing, x = .danglingDeclaration id missing := by
  unfold SceneView.mutationDiagnostics at hx
  split at hx
  · cases hx
  · exact ⟨_, List.mem_singleton.mp hx⟩

end Members

theorem diagnostics_ofParent (hv : v.WellListed) (i : Nat) :
    (Contribution.ofParent v v.roster i id).filterMap Contribution.diagnostic? = v.parentDiagnostics id := by
  unfold Contribution.ofParent SceneView.parentDiagnostics
  cases v.parent? id with
  | none => rfl
  | some parent =>
    by_cases hp : parent ∈ v.ids <;>
      simp [Graph.lookup_roster hv, hp, Contribution.diagnostic?, Option.filter, List.filterMap_cons]

theorem diagnostics_ofDependency (hv : v.WellListed) (i : Nat) (d : Dependency) :
    (Contribution.ofDependency v.roster i id d).filterMap Contribution.diagnostic? =
      v.dependencyDiagnostics id d := by
  cases d with
  | entrypoint => rfl
  | edge source target qualifiers =>
    by_cases hs : source ∈ v.ids <;> by_cases ht : target ∈ v.ids <;>
      simp [Contribution.ofDependency, SceneView.dependencyDiagnostics, Graph.lookup_roster hv, hs, ht,
        Contribution.diagnostic?, List.filterMap_cons]

theorem diagnostics_ofMutation (hv : v.WellListed) (m : Mutation) :
    (Contribution.ofMutation v.bareGraph v.roster id m).filterMap Contribution.diagnostic? =
      v.mutationDiagnostics id m := by
  by_cases ht : m.target ∈ v.ids
  · simp [Contribution.ofMutation, SceneView.mutationDiagnostics, Graph.lookup_roster hv, ht,
      node?_bareGraph hv ht, Contribution.diagnostic?]
  · simp [Contribution.ofMutation, SceneView.mutationDiagnostics, Graph.lookup_roster hv, ht,
      Contribution.diagnostic?, List.filterMap_cons]

theorem diagnostics_ofFailure (p : Plugin) (i : Nat) (n : GraphNode) (e? : Option PluginError) :
    (Contribution.ofFailure p i n e?).filterMap Contribution.diagnostic? =
      e?.toList.map fun e => .pluginCallbackFailure n.id n.type e.message := by
  cases e? <;> rfl

theorem diagnostics_ofNode (hv : v.WellListed) (i : Nat) :
    (Contribution.ofNode v v.bareGraph v.roster c.registry i (v.bareNode id)).filterMap Contribution.diagnostic? =
      c.pluginDiagnostics v id := by
  have htype : (v.bareNode id).type = v.typeOf id := rfl
  have hid : (v.bareNode id).id = id := rfl
  unfold Contribution.ofNode Collector.pluginDiagnostics
  rw [htype]
  cases c.registry.lookup (v.typeOf id) with
  | error e => cases e <;> rfl
  | ok p =>
    simp only [Contribution.ofPlugin, hid, htype, List.filterMap_append, List.filterMap_flatMap,
      diagnostics_ofDependency hv, diagnostics_ofMutation hv, diagnostics_ofFailure]
    split <;> simp [Contribution.diagnostic?]

/-- Nothing is reported about the animation table. -/
theorem diagnostics_ofRecords (g : Graph) (roster : Roster) (records : List AnimationRecord) :
    (records.flatMap (Contribution.ofRecord g roster)).filterMap Contribution.diagnostic? = [] := by
  rw [List.filterMap_eq_nil_iff]
  intro x hx
  obtain ⟨r, -, hx⟩ := List.mem_flatMap.mp hx
  obtain ⟨_, _, _, rfl⟩ := Contribution.mem_ofRecord hx
  rfl

/-- The diagnostics of a run in closed form. -/
theorem diagnostics_draft (hv : v.WellListed) : (c.draft v).diagnostics = c.diagnostics v := by
  have hid : ∀ id, (v.bareNode id).id = id := fun _ => rfl
  rw [Collector.draft, Graph.draft, Draft.diagnostics_foldl, contributions, List.filterMap_append,
    diagnostics_ofRecords, List.append_nil, List.nil_append]
  simp only [nodesWithIndex_bareGraph hv, List.filterMap_append, List.filterMap_flatMap, List.flatMap_map, hid,
    diagnostics_ofParent hv, diagnostics_ofNode hv, Collector.diagnostics]

end ScenePrune
