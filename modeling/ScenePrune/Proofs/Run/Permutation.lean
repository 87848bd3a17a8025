import ScenePrune.Proofs.Graph.Repeats
import ScenePrune.Proofs.Run.Exactness
import ScenePrune.Proofs.Run.Rearrangement
import ScenePrune.Proofs.Scene.Load

/-! # Verdicts do not depend on the order of a listing

A scene may be written down with its nodes in any order, and its animation table with the records and their
writers in any order. Runs on what is loaded end alike. They may give other reasons, and they have their
edges and diagnostics in another order.
-/
namespace ScenePrune

def Graph.links (g : Graph) : List Link :=
  g.edges.filterMap fun e => (g.node? e.source).bind fun s => (g.node? e.target).map fun t =>
    ⟨s.id, t.id, e.kind, e.qualifiers⟩

/-- Two analyses say the same up to reasons and the order of edges and diagnostics. -/
structure Analysis.Agrees (a a' : Analysis) : Prop where
  activeness : ∀ id, a'.activeness? id = a.activeness? id
  entrypoint : ∀ id, (a'.node? id).map (·.entrypoint?) = (a.node? id).map (·.entrypoint?)
  live : ∀ id, a'.liveness.isLive id = a.liveness.isLive id
  dead : ∀ id, a'.liveness.isDead id = a.liveness.isDead id
  links : a'.graph.links.Perm a.graph.links
  diagnostics : a'.diagnostics.Perm a.diagnostics

structure Outcome.Agrees (out out' : Outcome Scene) : Prop where
  analysis : out.analysis.Agrees out'.analysis
  nodes : out'.scene.nodes.Perm out.scene.nodes
  fate : ∀ id, (out'.mapping?.bind fun m => m.get? id) = out.mapping?.bind fun m => m.get? id
  removedCount : out'.removedCount = out.removedCount

/-- Both runs are cancelled, or both end and their results are related. -/
inductive EndAlike {α : Type} (R : α → α → Prop) : Except RunError α → Except RunError α → Prop where
  | cancelled : EndAlike R (.error .cancelled) (.error .cancelled)
  | done {a a' : α} : R a a' → EndAlike R (.ok a) (.ok a')

namespace Collector
variable {c c' : Collector} {v v' : SceneView} {s s' : Scene} {a a' : Analysis} {o : Options} {id : NodeId}

theorem links_graph : (c.graph v).links = c.links v := by
  have hlink : ∀ l ∈ c.links v, (((c.graph v).node? (l.edge v).source).bind fun s =>
      ((c.graph v).node? (l.edge v).target).map fun t => (⟨s.id, t.id, l.kind, l.qualifiers⟩ : Link)) = some l := by
    intro l hl
    obtain ⟨hs, ht⟩ := isListed_of_mem_links hl
    have hsource : (c.graph v).node? (l.edge v).source = some (c.nodeAt v l.source) := node?_graph hs
    have htarget : (c.graph v).node? (l.edge v).target = some (c.nodeAt v l.target) := node?_graph ht
    rw [hsource, htarget]
    rfl
  have hedges : (c.graph v).edges = (c.links v).map (Link.edge v) := rfl
  rw [Graph.links, hedges, List.filterMap_map]
  exact (List.filterMap_congr hlink).trans List.filterMap_some

theorem isDead_iff : (c.liveness v).isDead id = true ↔ id ∈ v.ids ∧ (c.liveness v).isLive id = false := by
  rw [liveness, Graph.isDead_iff_not_isLive, nodes_graph]
  simp [nodeAt, SceneView.bareNode, Graph.nodeOf]

structure Finds (c : Collector) (v : SceneView) (a : Analysis) : Prop where
  graph : a.graph = c.graph v
  activeness : a.activeness = c.activeness v
  liveness : a.liveness = c.liveness v
  diagnostics : a.diagnostics = c.diagnostics v

theorem finds_analysis (hv : v.WellListed) : c.Finds v (c.analysis v o) where
  graph := rfl
  activeness := rfl
  liveness := rfl
  diagnostics := diagnostics_draft hv

/-- A scene refuses no removal, so there is nothing more to report. -/
theorem finds_outcome (hs : s.WellFormed) : c.Finds (Host.view s) (c.outcome o s).analysis where
  graph := outcome_graph
  activeness := outcome_activeness
  liveness := outcome_liveness
  diagnostics := by
    unfold outcome
    split
    case isTrue => exact diagnostics_draft hs.wellListed
    case isFalse =>
      have hnone : (Sweep.run s (c.analysis (Host.view s) o).liveness).diagnostics = [] := sweep_diagnostics hs
      simp only [hnone, List.append_nil]
      exact diagnostics_draft hs.wellListed

namespace Rearranges

theorem isDead_eq (h : c.Rearranges v c' v') (hc : c.ReadsOwnRecords) (hv : v.WellListed) (id : NodeId) :
    (c'.liveness v').isDead id = (c.liveness v).isDead id := by
  rw [Bool.eq_iff_iff, isDead_iff, isDead_iff, h.mem_ids, h.isLive_eq hc hv]

theorem agrees (h : c.Rearranges v c' v') (hc : c.ReadsOwnRecords) (hv : v.WellListed) (ha : c.Finds v a)
    (ha' : c'.Finds v' a') : a.Agrees a' where
  activeness := by
    intro id
    rw [activeness?_eq hv ha.graph ha.activeness, activeness?_eq (h.wellListed hv) ha'.graph ha'.activeness]
    by_cases hid : id ∈ v.ids
    · rw [if_pos hid, if_pos (h.mem_ids.mpr hid), h.activeness_eq hc hv hid]
    · rw [if_neg hid, if_neg fun hid' => hid (h.mem_ids.mp hid')]
  entrypoint := by
    intro id
    rw [node?_eq hv ha.graph, node?_eq (h.wellListed hv) ha'.graph]
    by_cases hid : id ∈ v.ids
    · rw [if_pos hid, if_pos (h.mem_ids.mpr hid)]
      exact congrArg some (h.cause?_eq hc hid)
    · rw [if_neg hid, if_neg fun hid' => hid (h.mem_ids.mp hid')]
  live := fun id => by rw [ha.liveness, ha'.liveness, h.isLive_eq hc hv]
  dead := fun id => by rw [ha.liveness, ha'.liveness, h.isDead_eq hc hv]
  links := by
    rw [ha.graph, ha'.graph, links_graph, links_graph]
    exact h.links_perm hc
  diagnostics := by
    rw [ha.diagnostics, ha'.diagnostics]
    exact h.diagnostics_perm hc

end Rearranges

section Scenes

/-- Two scenes with the same nodes are two listings of the same. -/
theorem rearranges_of_perm (hs : s.WellFormed) (hs' : s'.WellFormed) (hnodes : s'.nodes.Perm s.nodes)
    (hregistry : c'.registry = c.registry) (hrules : c'.rules = c.rules)
    (htells : ∀ node property writer,
      c'.animations.Tells node property writer ↔ c.animations.Tells node property writer) :
    c.Rearranges (Host.view s) c' (Host.view s') where
  registry := hregistry
  rules := hrules
  animations := htells
  ids := by
    have hids : (s'.nodes.map (·.id)).Perm (s.nodes.map (·.id)) := hnodes.map _
    exact hids
  record := by
    intro id hid
    obtain ⟨n, hn, rfl⟩ := Scene.exists_node_of_mem_ids hid
    exact Scene.sameRecord hs hs' hn (hnodes.mem_iff.mpr hn)

/-- On scenes with the same nodes the same becomes of every node. -/
theorem Rearranges.outcome_agrees (h : c.Rearranges (Host.view s) c' (Host.view s')) (hc : c.ReadsOwnRecords)
    (hs : s.WellFormed) (hs' : s'.WellFormed) (hnodes : s'.nodes.Perm s.nodes) :
    (c.outcome o s).Agrees (c'.outcome o s') := by
  have hv := hs.wellListed
  have hanalysis := h.agrees hc hv (finds_outcome (o := o) hs) (finds_outcome (o := o) hs')
  have hfates : (s'.ids.map fun id =>
        (id, if (c'.liveness (Host.view s')).isDead id then Fate.removed else .kept id)).Perm
      (s.ids.map fun id => (id, if (c.liveness (Host.view s)).isDead id then Fate.removed else .kept id)) := by
    simp only [h.isDead_eq hc hv]
    exact List.Perm.map _ h.ids
  have hkeys : ((s.ids.map fun id =>
      (id, if (c.liveness (Host.view s)).isDead id then Fate.removed else .kept id)).map Prod.fst).Nodup := by
    rw [List.map_map]
    exact (List.map_id s.ids).symm ▸ hs.nodup
  refine ⟨hanalysis, ?_, ?_, ?_⟩
  · simp only [nodes_outcome hs, nodes_outcome hs', h.isLive_eq hc hv]
    split
    · exact hnodes
    · exact hnodes.filter _
  · intro id
    rw [mapping?_outcome hs, mapping?_outcome hs']
    split
    · rfl
    · exact lookup_eq_of_perm hkeys hfates.symm id
  · rw [Outcome.removedCount, Outcome.removedCount, mapping?_outcome hs, mapping?_outcome hs']
    split
    · rfl
    · exact ((hfates.filter _).map Prod.fst).length_eq

end Scenes

/-- Whoever writes the same scene and the same animation table down in another order gets the same verdicts,
and the same nodes removed, if all callbacks read only the record of the node that they are asked about. -/
theorem verdicts_ignore_order (registry : PluginRegistry) (rules : EntrypointRules)
    (hplugins : ∀ entry ∈ registry.plugins.entries, entry.2.ReadsOwnRecord)
    (hpredicates : ∀ p ∈ rules.predicates, p.ReadsOwnRecord) (nodes nodes' : List Node)
    (hnodes : nodes.Perm nodes') (records records' : List AnimationRecord)
    (hrecords : AnimationTable.Rearranged records records') (s : Scene) (hload : Scene.ofNodes nodes = .ok s) :
    ∃ s', Scene.ofNodes nodes' = .ok s' ∧ ∀ (o : Options) (m : Monitor),
      EndAlike Analysis.Agrees
        (Collector.analyze ⟨registry, rules, .ofRecords records⟩ o (Host.view s) m).result
        (Collector.analyze ⟨registry, rules, .ofRecords records'⟩ o (Host.view s') m).result ∧
      EndAlike Outcome.Agrees
        (Collector.collect ⟨registry, rules, .ofRecords records⟩ o s m).result
        (Collector.collect ⟨registry, rules, .ofRecords records'⟩ o s' m).result := by
  obtain ⟨s', hload', hperm⟩ := Scene.exists_ofNodes_of_perm hload hnodes
  obtain ⟨-, hs, -⟩ := Scene.valid_of_ofNodes hload
  obtain ⟨-, hs', -⟩ := Scene.valid_of_ofNodes hload'
  let c : Collector := ⟨registry, rules, .ofRecords records⟩
  let c' : Collector := ⟨registry, rules, .ofRecords records'⟩
  have hc : c.ReadsOwnRecords := ⟨hplugins, hpredicates⟩
  have h : c.Rearranges (Host.view s) c' (Host.view s') :=
    rearranges_of_perm hs hs' hperm rfl rfl fun _ _ _ => hrecords.tells_iff
  have hv := hs.wellListed
  have hv' := hs'.wellListed
  refine ⟨s', hload', fun o m => ⟨?_, ?_⟩⟩
  · rw [analyze_result hv, analyze_result hv', h.cancels_eq hc]
    split
    · exact .cancelled
    · exact .done (h.agrees hc hv (finds_analysis hv) (finds_analysis hv'))
  · rw [collect_result hv, collect_result hv', h.cancels_eq hc]
    split
    · exact .cancelled
    · exact .done (h.outcome_agrees hc hs hs' hperm)

/-- Two nodes of the lamp are switched, one of them by two writers. -/
def sways : List AnimationRecord :=
  [⟨2, NodeKind.enabledProperty .transform, [1, 4]⟩, ⟨4, NodeKind.enabledProperty .transform, [1]⟩]

def swaysMoved : List AnimationRecord :=
  [⟨4, NodeKind.enabledProperty .transform, [1]⟩, ⟨2, NodeKind.enabledProperty .transform, [4, 1]⟩]

/-- The nodes of the lamp from the last to the first, children before their parents. -/
theorem verdicts_ignore_order_lamp : ∃ s s' out out', Scene.ofNodes Scene.lamp.nodes = .ok s ∧
    Scene.ofNodes Scene.lamp.nodes.reverse = .ok s' ∧
    (Collector.collect ⟨Bundled.registry, Bundled.collector.rules, .ofRecords sways⟩ {} s {}).result = .ok out ∧
    (Collector.collect ⟨Bundled.registry, Bundled.collector.rules, .ofRecords swaysMoved⟩ {} s' {}).result = .ok out' ∧
    out'.scene.nodes.Perm out.scene.nodes := by
  let c : Collector := ⟨Bundled.registry, Bundled.collector.rules, .ofRecords sways⟩
  have hlamp := Scene.lamp_reachable.wellFormed
  have hc := Bundled.isLocal_collector.readsOwnRecords
  have hsways : AnimationTable.Rearranged sways swaysMoved :=
    ⟨_, List.Perm.swap _ _ [], .cons ⟨rfl, rfl, .refl _⟩ (.cons ⟨rfl, rfl, .swap _ _ _⟩ .nil)⟩
  obtain ⟨s, hload⟩ := hlamp.validHierarchy.exists_ofNodes
  obtain ⟨-, hs, hnodes⟩ := Scene.valid_of_ofNodes hload
  have hsame : c.Rearranges (Host.view Scene.lamp) c (Host.view s) :=
    rearranges_of_perm hlamp hs hnodes rfl rfl fun _ _ _ => Iff.rfl
  have hcancels : c.cancels (Host.view s) = false := (hsame.cancels_eq ⟨hc.plugins, hc.predicates⟩).trans (by decide)
  obtain ⟨s', hload', halike⟩ := verdicts_ignore_order Bundled.registry Bundled.collector.rules hc.plugins
    hc.predicates Scene.lamp.nodes Scene.lamp.nodes.reverse (List.reverse_perm _).symm sways swaysMoved hsways s hload
  have hrun : (c.collect {} s {}).result = .ok (c.outcome {} s) :=
    (collect_eq_ok_iff hs.wellListed).mpr ⟨⟨rfl, hcancels⟩, rfl⟩
  obtain ⟨-, halike⟩ := halike {} {}
  rw [hrun] at halike
  generalize hrun' : (Collector.collect _ _ s' _).result = r' at halike
  cases halike with
  | done hagrees => exact ⟨s, s', _, _, hload, hload', hrun, hrun', hagrees.nodes⟩

end Collector

end ScenePrune
