import Mathlib.Data.List.Perm.Basic
import ScenePrune.Proofs.Animations
import ScenePrune.Proofs.Graph.Diagnostics
import ScenePrune.Proofs.Run.Comparison

/-! # Listing the same nodes in another order

Two views may list the same nodes in different orders, and two animation tables may tell the same in
different orders. If all callbacks read only the record of the node that they are asked about, then all that
a run is told is the same in both cases: writers, causes and links. So each case covers the other one.
-/
namespace ScenePrune.Collector

/-- The second collector and view differ from the first ones in the order of what they list. -/
structure Rearranges (c : Collector) (v : SceneView) (c' : Collector) (v' : SceneView) : Prop where
  registry : c'.registry = c.registry
  rules : c'.rules = c.rules
  animations : ∀ node property writer,
    c'.animations.Tells node property writer ↔ c.animations.Tells node property writer
  ids : v'.ids.Perm v.ids
  record : ∀ id ∈ v.ids, v.SameRecord v' id

namespace Rearranges
variable {c c' : Collector} {v v' : SceneView} {id : NodeId}

theorem mem_ids (h : c.Rearranges v c' v') : id ∈ v'.ids ↔ id ∈ v.ids := h.ids.mem_iff

theorem symm (h : c.Rearranges v c' v') : c'.Rearranges v' c v where
  registry := h.registry.symm
  rules := h.rules.symm
  animations := fun _ _ _ => (h.animations _ _ _).symm
  ids := h.ids.symm
  record := fun id hid => (h.record id (h.mem_ids.mp hid)).symm

theorem readsOwnRecords (h : c.Rearranges v c' v') (hc : c.ReadsOwnRecords) : c'.ReadsOwnRecords where
  plugins := h.registry ▸ hc.plugins
  predicates := h.rules ▸ hc.predicates

theorem wellListed (h : c.Rearranges v c' v') (hv : v.WellListed) : v'.WellListed where
  nodup := h.ids.nodup_iff.mpr hv.nodup
  typed := by
    intro id hid
    have hid := h.mem_ids.mp hid
    rw [(h.record id hid).type]
    exact hv.typed id hid

theorem listedParent?_eq (h : c.Rearranges v c' v') (hid : id ∈ v.ids) :
    v'.listedParent? id = v.listedParent? id := by
  simp only [SceneView.listedParent?, (h.record id hid).parent, h.mem_ids]

section Told

theorem writes (h : c.Rearranges v c' v') (hc : c.ReadsOwnRecords) (hid : id ∈ v.ids) {writer : NodeId}
    {property : String} (hw : c.Writes v writer id property) : c'.Writes v' writer id property := by
  rcases hw with ⟨hlisted, hp⟩ | htells
  · have hp' := ((h.record writer hlisted).pluginWrites_iff hc (h.record id hid).kindOf_eq property).mpr hp
    exact Or.inl ⟨h.mem_ids.mpr hlisted, h.registry ▸ hp'⟩
  · exact Or.inr ((h.animations _ _ _).mpr htells)

theorem asks (h : c.Rearranges v c' v') (hc : c.ReadsOwnRecords) {l : Link} (hl : c.Asks v l) : c'.Asks v' l := by
  cases hl with
  | parent hid hp => exact .parent (h.mem_ids.mpr hid) ((h.listedParent?_eq hid).trans hp)
  | @declared id source target qualifiers p hid hp hd hs ht =>
    have hrecord := h.record id hid
    have hp' : c'.registry.lookup (v'.typeOf id) = .ok p := by rw [h.registry, hrecord.typeOf_eq, hp]
    have hd' : .edge source target qualifiers ∈ (p.dependencies ⟨v', id⟩).items := by
      rw [(hrecord.declared_eq hc hp).1]
      exact hd
    exact .declared (h.mem_ids.mpr hid) hp' hd' (h.mem_ids.mpr hs) (h.mem_ids.mpr ht)
  | switched ht hw hne hwrites =>
    refine .switched (h.mem_ids.mpr ht) (h.mem_ids.mpr hw) hne ?_
    rw [(h.record _ ht).switch_eq]
    exact h.writes hc ht hwrites

theorem mem_links (h : c.Rearranges v c' v') (hc : c.ReadsOwnRecords) {l : Link} :
    l ∈ c'.links v' ↔ l ∈ c.links v := by
  rw [mem_links_iff, mem_links_iff]
  exact ⟨h.symm.asks (h.readsOwnRecords hc), h.asks hc⟩

theorem cause?_eq (h : c.Rearranges v c' v') (hc : c.ReadsOwnRecords) (hid : id ∈ v.ids) :
    c'.cause? v' id = c.cause? v id := by
  rw [← (h.record id hid).cause?_eq hc]
  simp only [cause?, declaredCause?, h.registry, h.rules]

theorem covers (h : c.Rearranges v c' v') (hc : c.ReadsOwnRecords) (hv : v.WellListed) : c.Covers v c' v' where
  wellListed := hv
  wellListed' := h.wellListed hv
  ids := fun _ hid => h.mem_ids.mpr hid
  parent := fun _ hid => h.listedParent?_eq hid
  enabled := fun id hid => (h.record id hid).enabled
  written := by
    intro id hid writer hw
    rw [(h.record id hid).switch_eq]
    exact h.writes hc hid hw
  cause := fun id hid he => h.cause?_eq hc hid ▸ he
  links := fun _ hl => (h.mem_links hc).mpr hl

end Told

section Found

theorem activeness_eq (h : c.Rearranges v c' v') (hc : c.ReadsOwnRecords) (hv : v.WellListed) (hid : id ∈ v.ids) :
    (c'.activeness v').get (v'.place id) = (c.activeness v).get (v.place id) :=
  (h.covers hc hv).activeness_eq (h.symm.covers (h.readsOwnRecords hc) (h.wellListed hv)) hid

theorem isLive_eq (h : c.Rearranges v c' v') (hc : c.ReadsOwnRecords) (hv : v.WellListed) (id : NodeId) :
    (c'.liveness v').isLive id = (c.liveness v).isLive id :=
  Bool.eq_iff_iff.mpr
    ⟨(h.symm.covers (h.readsOwnRecords hc) (h.wellListed hv)).isLive, (h.covers hc hv).isLive⟩

theorem cancels_eq (h : c.Rearranges v c' v') (hc : c.ReadsOwnRecords) : c'.cancels v' = c.cancels v := by
  have hnode : ∀ id ∈ v.ids, (c'.pluginCancels v' id || c'.rules.cancels ⟨v', id⟩) =
      (c.pluginCancels v id || c.rules.cancels ⟨v, id⟩) := by
    intro id hid
    rw [← (h.record id hid).pluginCancels_eq hc, ← (h.record id hid).rules_cancels_eq hc, h.rules]
    simp only [pluginCancels, h.registry]
  rw [cancels, cancels, h.ids.any_eq, Bool.eq_iff_iff, List.any_eq_true, List.any_eq_true]
  exact exists_congr fun id => and_congr_right fun hid => by rw [hnode id hid]

end Found

section Order

theorem flatMap_ids (h : c.Rearranges v c' v') {β : Type} {f g : NodeId → List β}
    (hfg : ∀ id ∈ v.ids, f id = g id) : (v'.ids.flatMap f).Perm (v.ids.flatMap g) :=
  h.ids.flatMap fun id hid => .of_eq (hfg id (h.mem_ids.mp hid))

theorem dependencyLinks_eq (h : c.Rearranges v c' v') : v'.dependencyLinks = v.dependencyLinks := by
  funext d
  cases d <;> simp only [SceneView.dependencyLinks, h.mem_ids]

theorem mutationLinks_eq (h : c.Rearranges v c' v') : v'.mutationLinks = v.mutationLinks := by
  funext writer m
  unfold SceneView.mutationLinks SceneView.writerLinks
  by_cases ht : m.target ∈ v.ids
  · simp only [h.mem_ids, (h.record _ ht).kindOf_eq, (h.record _ ht).switch_eq]
  · rw [if_neg fun hall => ht (h.mem_ids.mp hall.1), if_neg fun hall => ht hall.1]

theorem pluginLinks_eq (h : c.Rearranges v c' v') (hc : c.ReadsOwnRecords) (hid : id ∈ v.ids) :
    c'.pluginLinks v' id = c.pluginLinks v id := by
  unfold pluginLinks
  rw [h.registry, (h.record id hid).typeOf_eq]
  cases hp : c.registry.lookup (v.typeOf id) with
  | error e => rfl
  | ok p =>
    obtain ⟨hd, hm⟩ := (h.record id hid).declared_eq hc hp
    simp only [hd, hm, h.dependencyLinks_eq, h.mutationLinks_eq]

/-- The links are the same up to their order. -/
theorem links_perm (h : c.Rearranges v c' v') (hc : c.ReadsOwnRecords) : (c'.links v').Perm (c.links v) := by
  have hparents : (v'.ids.flatMap v'.hierarchyLinks).Perm (v.ids.flatMap v.hierarchyLinks) := by
    refine h.flatMap_ids fun id hid => ?_
    rw [SceneView.hierarchyLinks, h.listedParent?_eq hid, SceneView.hierarchyLinks]
  have hplugins : (v'.ids.flatMap (c'.pluginLinks v')).Perm (v.ids.flatMap (c.pluginLinks v)) :=
    h.flatMap_ids fun id hid => h.pluginLinks_eq hc hid
  -- Mutation links stand once, so of them only membership counts; the records ask for no others.
  refine keepOnce_perm (fun l _ => ?_) ?_
  · have hmem := h.mem_links hc (l := l)
    rwa [links, links, mem_keepOnce, mem_keepOnce] at hmem
  · simp only [askedLinks, List.filter_append _ (c.animations.records.flatMap _),
      List.filter_append _ (c'.animations.records.flatMap _), SceneView.filter_recordLinks, List.append_nil]
    exact (hparents.append hplugins).filter _

theorem parentDiagnostics_eq (h : c.Rearranges v c' v') (hid : id ∈ v.ids) :
    v'.parentDiagnostics id = v.parentDiagnostics id := by
  simp only [SceneView.parentDiagnostics, (h.record id hid).parent, h.mem_ids]

theorem pluginDiagnostics_eq (h : c.Rearranges v c' v') (hc : c.ReadsOwnRecords) (hid : id ∈ v.ids) :
    c'.pluginDiagnostics v' id = c.pluginDiagnostics v id := by
  have hdependency : v'.dependencyDiagnostics id = v.dependencyDiagnostics id := by
    funext d
    cases d <;> simp only [SceneView.dependencyDiagnostics, h.mem_ids]
  have hmutation : v'.mutationDiagnostics id = v.mutationDiagnostics id := by
    funext m
    simp only [SceneView.mutationDiagnostics, h.mem_ids]
  unfold pluginDiagnostics
  rw [h.registry, (h.record id hid).typeOf_eq]
  cases hp : c.registry.lookup (v.typeOf id) with
  | error e => cases e <;> rfl
  | ok p =>
    obtain ⟨hd, hm⟩ := (h.record id hid).declared_eq hc hp
    simp only [hd, hm, hdependency, hmutation, Plugin.failure?]

/-- The diagnostics are the same up to their order. -/
theorem diagnostics_perm (h : c.Rearranges v c' v') (hc : c.ReadsOwnRecords) :
    (c'.diagnostics v').Perm (c.diagnostics v) :=
  (h.flatMap_ids fun _ hid => h.parentDiagnostics_eq hid).append
    (h.flatMap_ids fun _ hid => h.pluginDiagnostics_eq hc hid)

end Order

end Rearranges

end ScenePrune.Collector
