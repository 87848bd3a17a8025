import ScenePrune.Proofs.Graph.Diagnostics
import ScenePrune.Proofs.Run.Collect
import ScenePrune.Proofs.Run.Pruning
import ScenePrune.Proofs.Scene.Sweep

/-! # A run on a scene removes exactly the dead nodes

Below a dead node everything is dead, as a live node keeps its parent. So the scene refuses no
removal, and what is left are the live nodes as they were.
-/
namespace ScenePrune

/-- Two scenes that share a node say the same about it. -/
theorem Scene.sameRecord {s t : Scene} (hs : s.WellFormed) (ht : t.WellFormed) {n : Node} (hn : n ∈ s.nodes)
    (hn' : n ∈ t.nodes) : (Host.view s).SameRecord (Host.view t) n.id := by
  have hnode := hs.node?_of_mem hn
  have hnode' := ht.node?_of_mem hn'
  constructor <;> simp [Host.view, view, hnode, hnode']

namespace Collector

variable {c : Collector} {o : Options} {s : Scene} {id : NodeId}

/-- In a scene the dead nodes are those below which everything is dead. -/
theorem doomed_iff_isDead (hs : s.WellFormed) :
    s.Doomed (c.liveness (Host.view s)) id ↔ (c.liveness (Host.view s)).isDead id = true := by
  constructor
  · exact Scene.Doomed.isDead
  · intro hdead x hx
    induction hx with
    | self => exact hdead
    | @child n parent _ hn hp ih =>
      have hparent : parent ∈ s.ids := hs.parent_mem hn hp
      have hnid : n.id ∈ s.ids := List.mem_map_of_mem hn
      have hlisted : (Host.view s).listedParent? n.id = some parent := (hs.listedParent?_view hn).trans hp
      rw [isDead_eq_not_isLive hs.wellListed hparent, Bool.not_eq_true'] at ih
      rw [isDead_eq_not_isLive hs.wellListed hnid, Bool.not_eq_true']
      by_contra hlive
      have hup := isLive_listedParent (c := c) hs.wellListed hnid hlisted (by simpa using hlive)
      simp [ih] at hup

theorem sweep_scene (hs : s.WellFormed) :
    (Sweep.run s (c.liveness (Host.view s))).scene.nodes =
      s.nodes.filter fun n => (c.liveness (Host.view s)).isLive n.id := by
  rw [Sweep.nodes_run hs]
  apply List.filter_congr
  intro n hn
  have hid : n.id ∈ s.ids := List.mem_map_of_mem hn
  have hdead := isDead_eq_not_isLive (c := c) hs.wellListed hid
  cases hlive : (c.liveness (Host.view s)).isLive n.id <;> simp [doomed_iff_isDead hs, hdead, hlive]

theorem sweep_mapping (hs : s.WellFormed) : (Sweep.run s (c.liveness (Host.view s))).mapping =
    ⟨⟨s.ids.map fun id => (id, if (c.liveness (Host.view s)).isDead id then .removed else .kept id)⟩⟩ := by
  simp only [Sweep.mapping_run hs, doomed_iff_isDead hs]

theorem sweep_diagnostics (hs : s.WellFormed) :
    (Sweep.run s (c.liveness (Host.view s))).diagnostics = [] := by
  rw [(Sweep.run_after hs).diagnostics, List.map_eq_nil_iff, List.filter_eq_nil_iff]
  intro id hid
  simpa [doomed_iff_isDead hs] using ((Sweep.mem_agenda hs).mp hid).2

theorem sweep_wellFormed (hs : s.WellFormed) :
    (Sweep.run s (c.liveness (Host.view s))).scene.WellFormed :=
  (Sweep.run_after hs).wellFormed

/-- What a run leaves is the scene without the dead nodes. -/
theorem prunes_sweep (hs : s.WellFormed) :
    c.Prunes (Host.view s) (Host.view (Sweep.run s (c.liveness (Host.view s))).scene) where
  wellListed := hs.wellListed
  ids := by
    change (Sweep.run s _).scene.nodes.map (·.id) = (s.nodes.map (·.id)).filter _
    rw [sweep_scene hs, List.filter_map]
    rfl
  record := by
    intro id hid
    obtain ⟨n, hn, rfl⟩ := Scene.exists_node_of_mem_ids hid
    have hmem : n ∈ s.nodes := by
      rw [sweep_scene hs] at hn
      exact (List.mem_filter.mp hn).1
    exact Scene.sameRecord hs (sweep_wellFormed hs) hmem hn

theorem outcome_scene (hdry : o.dryRun = false) :
    (c.outcome o s).scene = (Sweep.run s (c.liveness (Host.view s))).scene := by
  rw [outcome, if_neg (by simp [hdry])]
  rfl

theorem nodes_outcome (hs : s.WellFormed) : (c.outcome o s).scene.nodes =
    if o.dryRun then s.nodes else s.nodes.filter fun n => (c.liveness (Host.view s)).isLive n.id := by
  unfold outcome
  split
  · rfl
  · exact sweep_scene hs

theorem mem_ids_outcome (hs : s.WellFormed) (hdry : o.dryRun = false) :
    id ∈ (c.outcome o s).scene.ids ↔ (c.liveness (Host.view s)).isLive id = true := by
  rw [Scene.ids, nodes_outcome hs, if_neg (by simp [hdry])]
  constructor
  · rintro h
    obtain ⟨n, hn, rfl⟩ := List.mem_map.mp h
    exact (List.mem_filter.mp hn).2
  · intro hlive
    obtain ⟨n, hn, rfl⟩ := Scene.exists_node_of_mem_ids (mem_ids_of_isLive hs.wellListed hlive)
    exact List.mem_map_of_mem (List.mem_filter.mpr ⟨hn, hlive⟩)

theorem mapping?_outcome (hs : s.WellFormed) : (c.outcome o s).mapping? =
    if o.dryRun then none else some ⟨⟨s.ids.map fun id =>
      (id, if (c.liveness (Host.view s)).isDead id then .removed else .kept id)⟩⟩ := by
  unfold outcome
  split
  · rfl
  · exact congrArg some (sweep_mapping hs)

/-- What a run leaves behind, as the next run sees it. -/
theorem prunes_outcome (hs : s.WellFormed) (hdry : o.dryRun = false) :
    c.Prunes (Host.view s) (Host.view (c.outcome o s).scene) := by
  rw [outcome_scene hdry]
  exact prunes_sweep hs

variable (c o s) (m : Monitor)

end Collector

end ScenePrune
