import ScenePrune.Proofs.Graph.Diagnostics
import ScenePrune.Proofs.Graph.Distance
import ScenePrune.Proofs.Run.Analysis

/-! # Why a node is an entrypoint

Several things may make a node an entrypoint: that no plugin handles its type, what its plugin declares, that
its plugin fails, and the structural rules. They are listed in the order of their precedence, and the first one
that applies is the cause. Whatever goes wrong with a plugin is reported once for each node, and what was
declared before a failure counts.
-/
namespace ScenePrune

def Diagnostic.isFaultOf (id : NodeId) : Diagnostic → Bool
  | unregisteredType node _ | ambiguousPluginResolution node _ _ | pluginCallbackFailure node _ _ => node = id
  | danglingDeclaration _ _ | unresolvedParent _ _ | removalFailed _ _ | danglingReferenceAfterPrune _ _ _ => false

def Plugin.causes (p : Plugin) (n : Subject) : List EntrypointCause :=
  (if .entrypoint ∈ (p.dependencies n).items then [.declared] else []) ++
    if (p.dependencies n).failure?.isSome ∨ (p.mutations n).failure?.isSome then [.callbackFailure] else []

def EntrypointRules.causes (r : EntrypointRules) (n : Subject) : List EntrypointCause :=
  (if r.roots = true ∧ n.parent? = none then [.root] else []) ++
    (if ∃ type ∈ r.types, n.type? = some type then [.fixedType] else []) ++
    (r.predicates.filter fun p => (p.judge n).holds).map fun p => .predicate p.name

namespace Collector
variable (c : Collector) (v : SceneView) (id : NodeId)

/-- Whatever makes a node an entrypoint, in the order of precedence. -/
def causes : List EntrypointCause :=
  (match c.registry.lookup (v.typeOf id) with
    | .error (.unregistered _) => [.unregistered]
    | .error (.ambiguous _ _) => [.ambiguous]
    | .ok p => p.causes ⟨v, id⟩) ++
  c.rules.causes ⟨v, id⟩

/-- What is wrong about the plugin of a node. A failure over its dependencies hides one over its mutations. -/
def fault? : Option Diagnostic :=
  match c.registry.lookup (v.typeOf id) with
  | .error (.unregistered _) => some (.unregisteredType id (v.typeOf id))
  | .error (.ambiguous _ candidates) => some (.ambiguousPluginResolution id (v.typeOf id) candidates)
  | .ok p =>
    match (p.dependencies ⟨v, id⟩).failure?, (p.mutations ⟨v, id⟩).failure? with
    | some e, _ => some (.pluginCallbackFailure id (v.typeOf id) e.message)
    | none, some e => some (.pluginCallbackFailure id (v.typeOf id) e.message)
    | none, none => none

end Collector

section Causes

theorem EntrypointRules.keepsRoot_iff {r : EntrypointRules} {n : Subject} :
    (r.roots && n.parent?.isNone) = true ↔ r.roots = true ∧ n.parent? = none := by
  rw [Bool.and_eq_true, Option.isNone_iff_eq_none]

theorem EntrypointRules.isSome_classify {r : EntrypointRules} {n : Subject} : (r.classify n).isSome ↔
    (r.roots = true ∧ n.parent? = none) ∨ (∃ type, n.type? = some type ∧ type ∈ r.types) ∨
      ∃ p ∈ r.predicates, (p.judge n).holds = true := by
  rw [← keepsRoot_iff, ← fixesType_iff, classify]
  split
  case isTrue h => simp [h]
  case isFalse h =>
    split
    case isTrue h' => simp [h']
    case isFalse h' => simp [h, h']

theorem EntrypointRules.head?_causes (r : EntrypointRules) (n : Subject) : (r.causes n).head? = r.classify n := by
  have htype : r.fixesType n = true ↔ ∃ type ∈ r.types, n.type? = some type :=
    fixesType_iff.trans (exists_congr fun _ => and_comm)
  simp only [causes, classify, keepsRoot_iff, htype, List.head?_append, List.head?_map, List.head?_filter]
  by_cases h₁ : r.roots = true ∧ n.parent? = none
  · simp [h₁]
  · by_cases h₂ : ∃ type ∈ r.types, n.type? = some type
    · simp [h₁, h₂]
    · simp only [if_neg h₁, if_neg h₂]
      rfl

theorem Plugin.head?_causes (p : Plugin) (n : Subject) : (p.causes n).head? =
    if .entrypoint ∈ (p.dependencies n).items then some .declared
    else (p.failure? n).map fun _ => .callbackFailure := by
  unfold causes failure?
  split
  case isTrue => rfl
  case isFalse => cases (p.dependencies n).failure? <;> cases (p.mutations n).failure? <;> rfl

variable {c : Collector} {v : SceneView} {id : NodeId}

theorem Collector.head?_causes : (c.causes v id).head? = c.cause? v id := by
  rw [causes, List.head?_append, EntrypointRules.head?_causes, cause?, declaredCause?]
  congr 1
  cases c.registry.lookup (v.typeOf id) with
  | ok p => exact p.head?_causes _
  | error e => cases e <;> rfl

theorem Collector.isSome_declaredCause? : (c.declaredCause? v id).isSome ↔
    (∃ e, c.registry.lookup (v.typeOf id) = .error e) ∨ ∃ p, c.registry.lookup (v.typeOf id) = .ok p ∧
      (.entrypoint ∈ (p.dependencies ⟨v, id⟩).items ∨ (p.failure? ⟨v, id⟩).isSome) := by
  unfold declaredCause?
  cases c.registry.lookup (v.typeOf id) with
  | error e => cases e <;> simp
  | ok p => by_cases h : .entrypoint ∈ (p.dependencies ⟨v, id⟩).items <;> simp [h]

theorem Collector.isSome_cause? : (c.cause? v id).isSome ↔
    (c.declaredCause? v id).isSome ∨ (c.rules.classify ⟨v, id⟩).isSome := by
  rw [cause?, Option.isSome_or, Bool.or_eq_true]

end Causes

section Faults
variable {c : Collector} {v : SceneView} {id other : NodeId}

theorem filter_parentDiagnostics : (v.parentDiagnostics other).filter (·.isFaultOf id) = [] := by
  rw [List.filter_eq_nil_iff]
  intro x hx
  obtain ⟨parent, rfl⟩ := mem_parentDiagnostics hx
  exact Bool.false_ne_true

/-- What a plugin declares may be dangling, and that is no fault of the plugin. -/
theorem filter_declared (dependencies : List Dependency) (mutations : List Mutation) :
    (dependencies.flatMap (v.dependencyDiagnostics other) ++ mutations.flatMap (v.mutationDiagnostics other)).filter
      (·.isFaultOf id) = [] := by
  rw [List.filter_eq_nil_iff]
  intro x hx
  rcases List.mem_append.mp hx with hx | hx
  · obtain ⟨d, -, hx⟩ := List.mem_flatMap.mp hx
    obtain ⟨missing, rfl⟩ := mem_dependencyDiagnostics hx
    exact Bool.false_ne_true
  · obtain ⟨m, -, hx⟩ := List.mem_flatMap.mp hx
    obtain ⟨missing, rfl⟩ := mem_mutationDiagnostics hx
    exact Bool.false_ne_true

theorem filter_pluginDiagnostics : (c.pluginDiagnostics v other).filter (·.isFaultOf id) =
    if other = id then (c.fault? v other).toList else [] := by
  unfold Collector.pluginDiagnostics Collector.fault?
  cases c.registry.lookup (v.typeOf other) with
  | error e => cases e <;> by_cases h : other = id <;> simp [Diagnostic.isFaultOf, h]
  | ok p =>
    dsimp only
    rw [List.filter_append, filter_declared, List.nil_append, Plugin.failure?]
    cases (p.dependencies ⟨v, other⟩).failure? <;> cases (p.mutations ⟨v, other⟩).failure? <;>
      by_cases h : other = id <;> simp [Diagnostic.isFaultOf, h]

/-- What is wrong about the plugin of a node is reported once. -/
theorem filter_diagnostics (hv : v.WellListed) (hid : id ∈ v.ids) :
    (c.draft v).diagnostics.filter (·.isFaultOf id) = (c.fault? v id).toList := by
  rw [diagnostics_draft hv, Collector.diagnostics, List.filter_append, List.filter_flatMap, List.filter_flatMap]
  rw [List.flatMap_eq_nil_iff.mpr fun _ _ => filter_parentDiagnostics, List.nil_append]
  rw [flatMap_eq_of_only hv.nodup hid, filter_pluginDiagnostics, if_pos rfl]
  intro other _ hne
  rw [filter_pluginDiagnostics, if_neg hne]

/-- What the plugin of a node says about what the node changes is heard in any case. -/
theorem heard_mutation (hv : v.WellListed) (hid : id ∈ v.ids) {p : Plugin}
    (hp : c.registry.lookup (v.typeOf id) = .ok p) {m : Mutation} (hm : m ∈ (p.mutations ⟨v, id⟩).items) :
    if m.target ∈ v.ids then
      id ∈ (c.draft v).writers.writers (v.place m.target) (m.path (v.kindOf m.target))
    else .danglingDeclaration id m.target ∈ (c.draft v).diagnostics := by
  split
  case isTrue ht => exact (mem_writers_draft hv ht).mpr (Or.inl ⟨hid, p, hp, m, hm, rfl, rfl⟩)
  case isFalse ht =>
    have hsaid : .danglingDeclaration id m.target ∈ v.mutationDiagnostics id m := by
      rw [SceneView.mutationDiagnostics, if_neg ht]
      exact List.mem_singleton_self _
    rw [diagnostics_draft hv, Collector.diagnostics]
    refine List.mem_append_right _ (List.mem_flatMap.mpr ⟨id, hid, ?_⟩)
    rw [Collector.pluginDiagnostics, hp]
    exact List.mem_append_left _ (List.mem_append_right _ (List.mem_flatMap.mpr ⟨m, hm, hsaid⟩))

end Faults

namespace Collector
variable {c : Collector} {v : SceneView}

def marked (c : Collector) (v : SceneView) (m : Monitor) : Progress :=
  [Pass.dependencies, .entrypoints].foldl (c.perform v) { monitor := m }

theorem graph_marked (hv : v.WellListed) (m : Monitor) : (c.marked v m).graph = c.graph v := graph_eq hv

/-- The cause of a node is the first one that applies. Each node whose plugin is not found, or fails in one of
its callbacks, is reported once; what it says of its mutations is heard in any case. A run that ends gives a node
that is an entrypoint its cause as the reason to be live, and no other node. -/
theorem entrypoints_exact (hv : v.WellListed) (m : Monitor) :
    let p := c.marked v m
    ∀ id ∈ v.ids,
      (∃ n, p.graph.node? (v.place id) = some n ∧ n.id = id ∧ n.entrypoint? = (c.causes v id).head?) ∧
      p.diagnostics.filter (·.isFaultOf id) = (c.fault? v id).toList ∧
      (∃ writers, p.writers? = some writers ∧ ∀ q, c.registry.lookup (v.typeOf id) = .ok q →
        ∀ mutation ∈ (q.mutations ⟨v, id⟩).items,
          if mutation.target ∈ v.ids then
            id ∈ writers.writers (v.place mutation.target) (mutation.path (v.kindOf mutation.target))
          else .danglingDeclaration id mutation.target ∈ p.diagnostics) ∧
      ∀ o m' a, (c.analyze o v m').result = .ok a →
        (∀ cause, a.liveness.reason? id = some (.entrypoint cause) ↔ (c.causes v id).head? = some cause) ∧
        a.diagnostics.filter (·.isFaultOf id) = (c.fault? v id).toList := by
  intro p id hid
  have hnode : (c.graph v).node? (v.place id) = some (c.nodeAt v id) := node?_graph hid
  refine ⟨⟨_, graph_marked hv m ▸ hnode, rfl, head?_causes.symm⟩, filter_diagnostics hv hid,
    ⟨_, rfl, fun q hq mutation hm => heard_mutation hv hid hq hm⟩, fun o m' a ha => ?_⟩
  have hdone : (c.analyze o v m').result = .ok (c.analysis v o) := analyze_eq_ok hv (by rw [ha]; simp)
  obtain rfl := Except.ok.inj (ha.symm.trans hdone)
  refine ⟨fun cause => ?_, filter_diagnostics hv hid⟩
  rw [head?_causes]
  exact (distinctIds_graph hv).reason?_entrypoint_iff hnode

def press : Plugin where
  name := "press"
  dependencies _ := { items := [.entrypoint], failure? := some (.invalid "jammed") }
  mutations _ := { items := [.toggles 2], failure? := some (.invalid "stuck") }

def latch : Plugin where
  name := "latch"
  dependencies _ := {}
  mutations _ := { failure? := some (.invalid "stuck") }

def smithy : Listing := .ofList
    [(0, { type? := some "Latch", kind? := some .transform }),
     (1, { type? := some "Press", kind? := some .component, parent? := some 0 }),
     (2, { type? := some "Ghost", kind? := some .component, parent? := some 0 })] []

def pressing : Collector where
  registry := ⟨⟨[("Press", press), ("Latch", latch)]⟩, ∅⟩
  rules := {}

theorem lookup_ghost : pressing.registry.lookup "Ghost" = .error (.unregistered "Ghost") := by
  have hnone : pressing.registry.direct? "Ghost" = none := rfl
  have hsearch : pressing.registry.resolveAbove "Ghost" [] [] = .error (.unregistered "Ghost") := by
    rw [PluginRegistry.resolveAbove]
    rfl
  rw [PluginRegistry.lookup, PluginRegistry.resolve, hnone]
  exact congrArg (Except.map (·.plugin)) hsearch

/-- A mark counts although the callback fails after it, and its failure is the one that is reported; the mutation
that the same node declares is heard. The root is kept for the failure of its plugin, not for being a root. -/
theorem entrypoints_exact_smithy :
    let v := Host.view smithy
    let p := pressing.marked v {}
    v.WellListed ∧
    (∃ n, p.graph.node? (v.place 1) = some n ∧ n.id = 1 ∧ n.entrypoint? = some .declared) ∧
    p.diagnostics.filter (·.isFaultOf 1) = [.pluginCallbackFailure 1 "Press" "jammed"] ∧
    (∃ writers, p.writers? = some writers ∧ 1 ∈ writers.writers (v.place 2) "m_Enabled") ∧
    p.diagnostics.filter (·.isFaultOf 2) = [.unregisteredType 2 "Ghost"] ∧
    ∃ a, (pressing.analyze {} v {}).result = .ok a ∧ a.liveness.reason? 0 = some (.entrypoint .callbackFailure) := by
  intro v p
  have hv : v.WellListed := Listing.wellListed_view (by decide)
  have hexact := entrypoints_exact (c := pressing) hv {}
  obtain ⟨-, -, -, hrun⟩ := hexact 0 (by decide)
  obtain ⟨hnode, hfault, ⟨writers, hwriters, hheard⟩, -⟩ := hexact 1 (by decide)
  obtain ⟨-, hghost, -, -⟩ := hexact 2 (by decide)
  have htype : v.typeOf 2 = "Ghost" := rfl
  have hunasked : pressing.pluginCancels v 2 = false := by rw [pluginCancels, htype, lookup_ghost]
  have hquiet : pressing.cancels v = false := by
    have hids : v.ids = [0, 1, 2] := rfl
    simp only [cancels, hids, List.any_cons, hunasked]
    rfl
  have hdone : (pressing.analyze {} v {}).result = .ok (pressing.analysis v {}) := by
    rw [analyze_result hv, hquiet]
    rfl
  refine ⟨hv, hnode, hfault, ⟨writers, hwriters, hheard press rfl (.toggles 2) (by decide)⟩, ?_, _, hdone, ?_⟩
  · rw [hghost, fault?, htype, lookup_ghost]
    rfl
  · exact ((hrun {} {} _ hdone).1 _).mpr rfl

end Collector

end ScenePrune
