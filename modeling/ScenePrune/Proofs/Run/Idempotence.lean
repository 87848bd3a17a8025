import ScenePrune.Proofs.Graph.Embedding
import ScenePrune.Proofs.Run.Exactness

/-! # A second run finds nothing new

On what is left of a scene every node has the chain of parents it had, so its activeness is the
same. The live part of the graph is the whole of the new one, at other positions, and its edges
keep their order; so the second traversal goes the same way and gives the same reasons.
-/
namespace ScenePrune.Collector

variable {c : Collector} {v v' : SceneView} {id : NodeId}

/-- The two views agree on the way up from every shared node. -/
structure AgreesAbove (c : Collector) (v v' : SceneView) (shared : NodeId → Prop) : Prop where
  mem : ∀ id, shared id → id ∈ v.ids ∧ id ∈ v'.ids
  parent : ∀ id, shared id → v'.listedParent? id = v.listedParent? id
  up : ∀ id parent, shared id → v.listedParent? id = some parent → shared parent
  enabled : ∀ id, shared id → v'.enabled id = v.enabled id
  written : ∀ id, shared id → (c.draft v').writers.isWritten (v'.place id) (v'.switch id) =
    (c.draft v).writers.isWritten (v.place id) (v.switch id)

namespace AgreesAbove
variable {shared : NodeId → Prop}

theorem symm (h : c.AgreesAbove v v' shared) : c.AgreesAbove v' v shared where
  mem := fun id hid => (h.mem id hid).symm
  parent := fun id hid => (h.parent id hid).symm
  up := fun id parent hid hp => h.up id parent hid ((h.parent id hid).symm.trans hp)
  enabled := fun id hid => (h.enabled id hid).symm
  written := fun id hid => (h.written id hid).symm

theorem extendChain_eq (h : c.AgreesAbove v v' shared) (hid : shared id) (above : Chain) :
    c.extendChain v' id above = c.extendChain v id above := by
  have hwritten : (c.draft v').writers.isWritten (v'.place id) (c.nodeAt v' id).kind.enabledProperty =
      (c.draft v).writers.isWritten (v.place id) (c.nodeAt v id).kind.enabledProperty := h.written id hid
  have henabled : (c.nodeAt v' id).enabled = (c.nodeAt v id).enabled := h.enabled id hid
  rw [extendChain, Chain.extend, hwritten, henabled]
  rfl

theorem hasChain (h : c.AgreesAbove v v' shared) (hid : shared id) {chain : Chain}
    (hc : (c.graph v).HasChain (c.draft v).writers (v.place id) chain) :
    (c.graph v').HasChain (c.draft v').writers (v'.place id) chain := by
  refine hasChain_induction (c := c) (motive := fun id chain => shared id →
    (c.graph v').HasChain (c.draft v').writers (v'.place id) chain) ?_ ?_ (h.mem id hid).1 hc hid
  · intro id _ hp hid
    rw [← h.extendChain_eq hid]
    exact hasChain_top (h.mem id hid).2 ((h.parent id hid).trans hp)
  · intro id _ parent above hp ih hid
    rw [← h.extendChain_eq hid]
    exact hasChain_child (h.mem id hid).2 ((h.parent id hid).trans hp) (ih (h.up id parent hid hp))

theorem activeness_eq (h : c.AgreesAbove v v' shared) (hid : shared id) :
    (c.activeness v').get (v'.place id) = (c.activeness v).get (v.place id) := by
  by_cases hchain : ∃ chain, (c.graph v).HasChain (c.draft v).writers (v.place id) chain
  · obtain ⟨chain, hc⟩ := hchain
    rw [activeness, activeness, hc.get_activeness, (h.hasChain hid hc).get_activeness]
  · have hnone : ∀ chain, ¬ (c.graph v').HasChain (c.draft v').writers (v'.place id) chain :=
      fun chain hc => hchain ⟨chain, h.symm.hasChain hid hc⟩
    rw [activeness, activeness, Graph.get_activeness_of_no_chain hnone,
      Graph.get_activeness_of_no_chain fun chain hc => hchain ⟨chain, hc⟩]

end AgreesAbove

section Neighbours
variable {table : ActivenessTable}

theorem successors_graph (hid : id ∈ v.ids) : (c.graph v).successors table (v.place id) =
    (((c.links v).filter fun l => l.source = id).reverse.filter fun l => (l.edge v).isTraversable table).map
      fun l => (v.place l.target, .edge id l.kind) := by
  have houtgoing : (c.graph v).outgoing (v.place id) =
      (((c.links v).filter fun l => l.source = id).reverse).map (Link.edge v) := by
    rw [Graph.outgoing, graph, List.filter_map, List.map_reverse]
    congr 2
    apply List.filter_congr
    intro l hl
    have hiff : (l.edge v).source = v.place id ↔ l.source = id :=
      ⟨SceneView.place_inj (isListed_of_mem_links hl).1, fun h => congrArg v.place h⟩
    simp only [Function.comp_apply, hiff]
  rw [Graph.successors, node?_graph hid, houtgoing]
  simp only [List.filter_map, List.map_map]
  rfl

theorem entrypoints_graph (hv : v.WellListed) : (c.graph v).entrypoints =
    v.ids.filterMap fun id => (c.cause? v id).map fun cause => (v.place id, .entrypoint cause) := by
  rw [Graph.entrypoints, nodesWithIndex_graph hv, List.filterMap_map]
  rfl

end Neighbours

def move (v v' : SceneView) (i : Nat) : Nat :=
  match v.ids[i]? with
  | some id => v'.place id
  | none => i

theorem move_place (hid : id ∈ v.ids) : move v v' (v.place id) = v'.place id := by
  have hlt := List.idxOf_lt_length_of_mem hid
  have hget : v.ids[v.place id]? = some id := by
    rw [SceneView.place, List.getElem?_eq_getElem hlt, List.getElem_idxOf]
  rw [move, hget]

namespace Prunes

theorem agreesAbove (h : c.Prunes v v') (hc : c.IsLocal) : c.AgreesAbove v v' (· ∈ v'.ids) where
  mem := fun _ hid => ⟨h.mem_of_mem hid, hid⟩
  parent := fun _ hid => h.listedParent?_eq hid
  up := fun _ _ hid hp => h.mem_listedParent hid hp
  enabled := fun id hid => (h.record id hid).enabled
  written := fun _ hid => h.isWritten_eq hc hid

theorem activeness_eq (h : c.Prunes v v') (hc : c.IsLocal) (hid : id ∈ v'.ids) :
    (c.activeness v').get (v'.place id) = (c.activeness v).get (v.place id) :=
  (h.agreesAbove hc).activeness_eq hid

theorem isTraversable_eq (h : c.Prunes v v') (hc : c.IsLocal) {l : Link} (hs : l.source ∈ v'.ids)
    (ht : l.target ∈ v'.ids) :
    (l.edge v').isTraversable (c.activeness v') = (l.edge v).isTraversable (c.activeness v) := by
  simp only [Edge.isTraversable, Link.edge, h.activeness_eq hc hs, h.activeness_eq hc ht]

/-- Of the links of a live node, those that count lead to live nodes, and they still count. -/
theorem counts_eq (h : c.Prunes v v') (hc : c.IsLocal) {l : Link} (hl : l ∈ c.links v) (hs : l.source ∈ v'.ids) :
    ((l.edge v').isTraversable (c.activeness v') && c.spares v l) =
      (l.edge v).isTraversable (c.activeness v) := by
  obtain ⟨hsource, htarget⟩ := isListed_of_mem_links hl
  have hlive := (h.mem_ids.mp hs).2
  by_cases ht : l.target ∈ v'.ids
  · have hspares : c.spares v l = true := Bool.and_eq_true_iff.mpr ⟨hlive, (h.mem_ids.mp ht).2⟩
    rw [h.isTraversable_eq hc hs ht, hspares, Bool.and_true]
  · have hdead : (c.liveness v).isLive l.target = false := by simpa [h.mem_ids, htarget] using ht
    have hnot : (l.edge v).isTraversable (c.activeness v) = false := by
      by_contra hcount
      have := isLive_target h.wellListed hl (by simpa using hcount) hlive
      simp [hdead] at this
    simp [spares, hdead, hnot]

theorem successors_eq (h : c.Prunes v v') (hc : c.IsLocal) (hid : id ∈ v'.ids) :
    (c.graph v').successors (c.activeness v') (v'.place id) =
      ((c.graph v).successors (c.activeness v) (v.place id)).map fun x => (move v v' x.1, x.2) := by
  have hcounting : (((c.links v').filter fun l => l.source = id).reverse.filter fun l =>
        (l.edge v').isTraversable (c.activeness v')) =
      ((c.links v).filter fun l => l.source = id).reverse.filter fun l =>
        (l.edge v).isTraversable (c.activeness v) := by
    rw [h.links_eq hc]
    simp only [List.filter_reverse, List.filter_filter]
    congr 1
    apply List.filter_congr
    intro l hl
    by_cases hs : l.source = id
    · simp only [hs, decide_true, Bool.true_and, Bool.and_true]
      exact h.counts_eq hc hl (hs ▸ hid)
    · simp [hs]
  rw [successors_graph hid, successors_graph (h.mem_of_mem hid), hcounting, List.map_map]
  apply List.map_congr_left
  intro l hl
  have hmem : l ∈ c.links v := (List.mem_filter.mp (List.mem_reverse.mp (List.mem_filter.mp hl).1)).1
  simp only [Function.comp_apply, move_place (isListed_of_mem_links hmem).2]

theorem mem_of_successor (h : c.Prunes v v') (hid : id ∈ v'.ids) {x : Reached}
    (hx : x ∈ (c.graph v).successors (c.activeness v) (v.place id)) : ∃ target ∈ v'.ids, x.1 = v.place target := by
  rw [successors_graph (h.mem_of_mem hid)] at hx
  obtain ⟨l, hl, rfl⟩ := List.mem_map.mp hx
  obtain ⟨hl, hcount⟩ := List.mem_filter.mp hl
  obtain ⟨hl, hsource⟩ := List.mem_filter.mp (List.mem_reverse.mp hl)
  have hsource : l.source = id := of_decide_eq_true hsource
  have hlive := isLive_target h.wellListed hl hcount (hsource ▸ (h.mem_ids.mp hid).2)
  exact ⟨l.target, h.mem_ids.mpr ⟨(isListed_of_mem_links hl).2, hlive⟩, rfl⟩

theorem entrypoints_eq (h : c.Prunes v v') (hc : c.IsLocal) :
    (c.graph v').entrypoints = (c.graph v).entrypoints.map fun x => (move v v' x.1, x.2) := by
  rw [entrypoints_graph h.wellListed', entrypoints_graph h.wellListed, List.map_filterMap, h.ids,
    List.filterMap_filter]
  apply List.filterMap_congr
  intro id hid
  cases hlive : (c.liveness v).isLive id with
  | true =>
    rw [if_pos rfl, h.cause?_eq hc (h.mem_ids.mpr ⟨hid, hlive⟩), Option.map_map]
    cases c.cause? v id with
    | none => rfl
    | some cause => simp [move_place hid]
  | false =>
    cases hcause : c.cause? v id with
    | none => rfl
    | some cause =>
      have := isLive_of_cause h.wellListed hid (by rw [hcause]; rfl)
      simp [hlive] at this

/-- The live part of the graph is the graph of what is left. -/
theorem embeds (h : c.Prunes v v') (hc : c.IsLocal) :
    Graph.Embeds (c.graph v) (c.graph v') (c.activeness v) (c.activeness v')
      (fun i => ∃ id ∈ v'.ids, i = v.place id) (move v v') where
  inj := by
    rintro _ _ ⟨id, hid, rfl⟩ ⟨other, hother, rfl⟩ he
    rw [move_place (h.mem_of_mem hid), move_place (h.mem_of_mem hother)] at he
    rw [SceneView.place_inj hid he]
  indices := by
    rintro _ ⟨id, hid, rfl⟩
    rw [move_place (h.mem_of_mem hid), Graph.mem_indices, Graph.mem_indices, node?_graph hid,
      node?_graph (h.mem_of_mem hid)]
    exact Iff.rfl
  start := by
    intro x hx
    rw [entrypoints_graph h.wellListed] at hx
    obtain ⟨id, hid, hx⟩ := List.mem_filterMap.mp hx
    obtain ⟨cause, hcause, rfl⟩ := Option.map_eq_some_iff.mp hx
    exact ⟨id, h.mem_ids.mpr ⟨hid, isLive_of_cause h.wellListed hid (by rw [hcause]; rfl)⟩, rfl⟩
  entrypoints := h.entrypoints_eq hc
  closed := by
    rintro _ ⟨id, hid, rfl⟩ x hx
    exact h.mem_of_successor hid hx
  successors := by
    rintro _ ⟨id, hid, rfl⟩
    rw [move_place (h.mem_of_mem hid)]
    exact h.successors_eq hc hid

/-- Both runs reach the same nodes in the same order and for the same reasons. -/
theorem reasons_eq (h : c.Prunes v v') (hc : c.IsLocal) :
    (c.graph v').reasons (c.activeness v') = (c.graph v).reasons (c.activeness v) := by
  have he := h.embeds hc
  rw [Graph.reasons, he.reach_map, List.filterMap_map, Graph.reasons]
  congr 1
  apply List.filterMap_congr
  rintro ⟨i, reason⟩ hx
  obtain ⟨id, hid, rfl⟩ := he.inside_reach _ hx
  simp only [Function.comp_apply, Prod.map_apply, move_place (h.mem_of_mem hid), node?_graph hid,
    node?_graph (h.mem_of_mem hid)]
  rfl

theorem verdict?_eq (h : c.Prunes v v') (hc : c.IsLocal) (hid : id ∈ v'.ids) :
    (c.liveness v').verdict? id = (c.liveness v).verdict? id := by
  rw [verdict?_liveness h.wellListed' hid, verdict?_liveness h.wellListed (h.mem_of_mem hid), h.reasons_eq hc]

theorem isDead_eq_false (h : c.Prunes v v') (hc : c.IsLocal) (hid : id ∈ v'.ids) :
    (c.liveness v').isDead id = false := by
  have hlive := (h.mem_ids.mp hid).2
  rw [Liveness.isLive, ← h.verdict?_eq hc hid] at hlive
  exact Liveness.isDead_eq_false_of_isLive hlive

end Prunes

section Again
variable {o o' : Options} {s : Scene}

theorem activeness?_outcome (hv : (Host.view s).WellListed) (hid : id ∈ s.ids) :
    (c.outcome o s).analysis.activeness? id =
      some ((c.activeness (Host.view s)).get ((Host.view s).place id)) :=
  (activeness?_eq hv outcome_graph outcome_activeness id).trans (if_pos hid)

theorem node?_outcome (hv : (Host.view s).WellListed) (hid : id ∈ s.ids) :
    (c.outcome o s).analysis.node? id = some (c.nodeAt (Host.view s) id) :=
  (node?_eq hv outcome_graph id).trans (if_pos hid)

theorem outcome_of_none_dead (hv : (Host.view s).WellListed)
    (hdead : ∀ id ∈ s.ids, (c.liveness (Host.view s)).isDead id = false) :
    (c.outcome o s).scene = s ∧ (c.outcome o s).removedCount = 0 := by
  have hrun : Sweep.run s (c.analysis (Host.view s) o).liveness = { scene := s, mapping := .keeping (Host.view s).ids } :=
    Sweep.run_of_none_dead hv.nodup hdead
  unfold outcome
  split
  · exact ⟨rfl, rfl⟩
  · simp only [hrun, Outcome.removedCount, Option.map_some, Option.getD_some, RemovalMap.removed_keeping hv.nodup]
    exact ⟨trivial, rfl⟩

end Again

/-- A second run removes nothing and gives every node the activeness, the entrypoint cause and the
reason it had, if plugins and predicates look at one node only, as the bundled ones do. -/
theorem prune_idempotent : Bundled.registry.IsLocal ∧
    ∀ (c : Collector) (o : Options) (m : Monitor) (s : Scene) (out : Outcome Scene),
      c.IsLocal → s.Reachable → o.dryRun = false → (c.collect o s m).result = .ok out →
      ∀ (o' : Options) (m' : Monitor), m'.cancelled = false →
        ∃ again, (c.collect o' out.scene m').result = .ok again ∧
          again.scene = out.scene ∧ again.removedCount = 0 ∧
          ∀ id ∈ out.scene.ids,
            (∃ a, out.analysis.activeness? id = some a ∧ again.analysis.activeness? id = some a) ∧
            (∃ n n', out.analysis.node? id = some n ∧ again.analysis.node? id = some n' ∧
              n'.entrypoint? = n.entrypoint?) ∧
            ∃ reason, out.analysis.liveness.reason? id = some reason ∧
              again.analysis.liveness.reason? id = some reason := by
  refine ⟨Bundled.isLocal_registry, ?_⟩
  intro c o m s out hc hs hdry hrun o' m' hm'
  have hv := hs.wellFormed.wellListed
  obtain ⟨⟨-, hcancels⟩, rfl⟩ := (collect_eq_ok_iff hv).mp hrun
  have hprunes := prunes_outcome (c := c) hs.wellFormed hdry
  have hv' := hprunes.wellListed'
  have hcancels' := hprunes.cancels_eq_false hc hcancels
  obtain ⟨hscene, hcount⟩ := outcome_of_none_dead (o := o') hv' fun id hid => hprunes.isDead_eq_false hc hid
  refine ⟨c.outcome o' (c.outcome o s).scene, (collect_eq_ok_iff hv').mpr ⟨⟨hm', hcancels'⟩, rfl⟩, hscene, hcount, ?_⟩
  intro id hid
  have hmem : id ∈ s.ids := hprunes.mem_of_mem hid
  refine ⟨⟨_, activeness?_outcome hv hmem, ?_⟩, ⟨_, _, node?_outcome hv hmem, node?_outcome hv' hid, ?_⟩, ?_⟩
  · rw [activeness?_outcome hv' hid, hprunes.activeness_eq hc hid]
  · exact hprunes.cause?_eq hc hid
  · obtain ⟨reason, hreason⟩ := Liveness.exists_of_isLive (hprunes.mem_ids.mp hid).2
    have hreason' := (hprunes.verdict?_eq hc hid).trans hreason
    refine ⟨reason, ?_, ?_⟩
    · rw [outcome_liveness, Liveness.reason?, hreason]
    · rw [outcome_liveness, Liveness.reason?, hreason']

theorem prune_idempotent_lamp : ∃ out again,
    (Bundled.collector.collect {} Scene.lamp {}).result = .ok out ∧
    (Bundled.collector.collect {} out.scene {}).result = .ok again ∧
    again.scene = out.scene ∧ again.removedCount = 0 := by
  obtain ⟨again, hagain, hscene, hcount, -⟩ := prune_idempotent.2 Bundled.collector {} {} Scene.lamp _
    Bundled.isLocal_collector Scene.lamp_reachable rfl collect_lamp {} {} rfl
  exact ⟨_, again, collect_lamp, hagain, hscene, hcount⟩

end ScenePrune.Collector
