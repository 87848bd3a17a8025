import ScenePrune.Proofs.Run.Analysis
import ScenePrune.Proofs.Run.Locality

/-! # What a run finds once the dead nodes are gone

Between a scene and what is left of it when the dead nodes are taken out, the graphs are related in
the simplest way: the remaining links are those between live nodes, in the same order. A live node
keeps its parent and whoever switches it, so nothing else about it changes.
-/
namespace ScenePrune

/-- Elements that are left out contribute nothing that counts. -/
theorem flatMap_filter_eq {α β : Type} {l : List α} {p : α → Bool} {q : β → Bool} {f f' : α → List β}
    (hkeep : ∀ a ∈ l, p a = true → f' a = (f a).filter q)
    (hdrop : ∀ a ∈ l, p a = false → (f a).filter q = []) :
    (l.filter p).flatMap f' = (l.flatMap f).filter q := by
  induction l with
  | nil => rfl
  | cons a l ih =>
    have ih := ih (fun b hb => hkeep b (List.mem_cons_of_mem _ hb)) fun b hb => hdrop b (List.mem_cons_of_mem _ hb)
    rw [List.flatMap_cons, List.filter_append]
    cases hp : p a with
    | true =>
      rw [List.filter_cons_of_pos hp, List.flatMap_cons, hkeep a List.mem_cons_self hp, ih]
    | false =>
      rw [List.filter_cons_of_neg (by simp [hp]), hdrop a List.mem_cons_self hp, ih, List.nil_append]

namespace Collector

def spares (c : Collector) (v : SceneView) (l : Link) : Bool :=
  (c.liveness v).isLive l.source && (c.liveness v).isLive l.target

/-- The second view is the first one without the dead nodes. -/
structure Prunes (c : Collector) (v v' : SceneView) : Prop where
  wellListed : v.WellListed
  ids : v'.ids = v.ids.filter (c.liveness v).isLive
  record : ∀ id ∈ v'.ids, v.SameRecord v' id

namespace Prunes
variable {c : Collector} {v v' : SceneView} {id : NodeId}

theorem mem_ids (h : c.Prunes v v') : id ∈ v'.ids ↔ id ∈ v.ids ∧ (c.liveness v).isLive id = true := by
  rw [h.ids, List.mem_filter]

theorem mem_of_mem (h : c.Prunes v v') (hid : id ∈ v'.ids) : id ∈ v.ids := (h.mem_ids.mp hid).1

theorem wellListed' (h : c.Prunes v v') : v'.WellListed where
  nodup := h.ids ▸ h.wellListed.nodup.filter _
  typed := fun id hid => (h.record id hid).type ▸ h.wellListed.typed id (h.mem_of_mem hid)

theorem listedParent?_eq (h : c.Prunes v v') (hid : id ∈ v'.ids) : v'.listedParent? id = v.listedParent? id := by
  obtain ⟨hmem, hlive⟩ := h.mem_ids.mp hid
  apply Option.ext
  intro parent
  rw [SceneView.listedParent?_eq_some, SceneView.listedParent?_eq_some, (h.record id hid).parent, h.mem_ids]
  constructor
  · exact fun ⟨hp, hparent, _⟩ => ⟨hp, hparent⟩
  · rintro ⟨hp, hparent⟩
    have hlisted := SceneView.listedParent?_eq_some.mpr ⟨hp, hparent⟩
    exact ⟨hp, hparent, isLive_listedParent h.wellListed hmem hlisted hlive⟩

theorem mem_listedParent (h : c.Prunes v v') (hid : id ∈ v'.ids) {parent : NodeId}
    (hp : v.listedParent? id = some parent) : parent ∈ v'.ids := by
  rw [← h.listedParent?_eq hid] at hp
  exact (SceneView.listedParent?_eq_some.mp hp).2

section Links

theorem hierarchyLinks_eq (h : c.Prunes v v') (hid : id ∈ v'.ids) :
    v'.hierarchyLinks id = (v.hierarchyLinks id).filter (c.spares v) := by
  rw [SceneView.hierarchyLinks, h.listedParent?_eq hid, SceneView.hierarchyLinks]
  cases hp : v.listedParent? id with
  | none => rfl
  | some parent =>
    have hlive := (h.mem_ids.mp hid).2
    have hparent := (h.mem_ids.mp (h.mem_listedParent hid hp)).2
    simp [spares, hlive, hparent]

theorem dependencyLinks_eq (h : c.Prunes v v') (d : Dependency) :
    v'.dependencyLinks d = (v.dependencyLinks d).filter (c.spares v) := by
  cases d with
  | entrypoint => rfl
  | edge source target qualifiers =>
    simp only [SceneView.dependencyLinks, h.mem_ids]
    by_cases hlisted : source ∈ v.ids ∧ target ∈ v.ids
    · by_cases hs : (c.liveness v).isLive source = true <;>
        by_cases ht : (c.liveness v).isLive target = true <;> simp [hlisted, hs, ht, spares]
    · have hnone : ¬ ((source ∈ v.ids ∧ (c.liveness v).isLive source = true) ∧
          target ∈ v.ids ∧ (c.liveness v).isLive target = true) := fun hall => hlisted ⟨hall.1.1, hall.2.1⟩
      rw [if_neg hlisted, if_neg hnone]
      rfl

theorem writerLinks_eq (h : c.Prunes v v') (target : NodeId) (property : String) (writer : NodeId) :
    v'.writerLinks target property writer = (v.writerLinks target property writer).filter (c.spares v) := by
  unfold SceneView.writerLinks
  by_cases ht : target ∈ v'.ids
  · rw [(h.record _ ht).switch_eq]
    obtain ⟨htmem, htlive⟩ := h.mem_ids.mp ht
    by_cases hw : writer ∈ v'.ids
    · obtain ⟨hwmem, hwlive⟩ := h.mem_ids.mp hw
      simp only [ht, hw, htmem, hwmem, true_and]
      split <;> simp [spares, htlive, hwlive]
    · rw [if_neg fun hall => hw hall.2.1]
      split
      case isTrue hall =>
        have hwdead : (c.liveness v).isLive writer = false := by
          simpa [h.mem_ids, hall.2.1] using hw
        simp [spares, hwdead]
      case isFalse => rfl
  · rw [if_neg fun hall => ht hall.1]
    split
    case isTrue hall =>
      have htdead : (c.liveness v).isLive target = false := by
        simpa [h.mem_ids, hall.1] using ht
      simp [spares, htdead]
    case isFalse => rfl

theorem recordLinks_eq (h : c.Prunes v v') (r : AnimationRecord) :
    v'.recordLinks r = (v.recordLinks r).filter (c.spares v) := by
  rw [SceneView.recordLinks, SceneView.recordLinks, List.filter_flatMap]
  exact List.flatMap_congr fun w _ => h.writerLinks_eq _ _ w

theorem mutationLinks_eq (h : c.Prunes v v') (m : Mutation) :
    v'.mutationLinks id m = (v.mutationLinks id m).filter (c.spares v) := by
  by_cases ht : m.target ∈ v'.ids
  · rw [SceneView.mutationLinks, (h.record _ ht).kindOf_eq, h.writerLinks_eq]
    rfl
  · have hnone : v'.mutationLinks id m = [] := if_neg fun hall => ht hall.1
    rw [hnone, eq_comm, List.filter_eq_nil_iff]
    intro l hl hspared
    unfold SceneView.mutationLinks SceneView.writerLinks at hl
    split at hl
    case isTrue hall =>
      obtain rfl := List.mem_singleton.mp hl
      exact ht (h.mem_ids.mpr ⟨hall.1, (Bool.and_eq_true_iff.mp hspared).1⟩)
    case isFalse => cases hl

theorem pluginLinks_eq (h : c.Prunes v v') (hc : c.IsLocal) (hid : id ∈ v'.ids) :
    c.pluginLinks v' id = (c.pluginLinks v id).filter (c.spares v) := by
  unfold pluginLinks
  rw [(h.record id hid).typeOf_eq]
  cases hp : c.registry.lookup (v.typeOf id) with
  | error e => rfl
  | ok p =>
    obtain ⟨hd, hm⟩ := (h.record id hid).declared_eq hc.readsOwnRecords hp
    simp only [hd, hm, List.filter_append, List.filter_flatMap]
    rw [List.flatMap_congr fun d _ => h.dependencyLinks_eq d, List.flatMap_congr fun m _ => h.mutationLinks_eq m]

/-- A dead node takes all its links along: each has it as an end. -/
theorem pluginLinks_of_dead (hc : c.IsLocal) (hdead : (c.liveness v).isLive id = false) :
    (c.pluginLinks v id).filter (c.spares v) = [] := by
  rw [List.filter_eq_nil_iff]
  intro l hl hspared
  obtain ⟨hs, ht⟩ := Bool.and_eq_true_iff.mp hspared
  unfold pluginLinks at hl
  cases hp : c.registry.lookup (v.typeOf id) with
  | error e => simp [hp] at hl
  | ok p =>
    simp only [hp, List.mem_append, List.mem_flatMap] at hl
    rcases hl with ⟨d, hd, hl⟩ | ⟨m, -, hl⟩
    · cases d with
      | entrypoint => cases hl
      | edge source target qualifiers =>
        simp only [SceneView.dependencyLinks, List.mem_ite_nil_right, List.mem_singleton] at hl
        obtain ⟨-, rfl⟩ := hl
        rcases (hc.registry.of_lookup hp).2 v id _ _ _ hd with rfl | rfl
        · simp [hdead] at hs
        · simp [hdead] at ht
    · simp only [SceneView.mutationLinks, SceneView.writerLinks, List.mem_ite_nil_right, List.mem_singleton] at hl
      obtain ⟨-, rfl⟩ := hl
      simp [hdead] at ht

theorem hierarchyLinks_of_dead (hdead : (c.liveness v).isLive id = false) :
    (v.hierarchyLinks id).filter (c.spares v) = [] := by
  rw [List.filter_eq_nil_iff]
  intro l hl hspared
  obtain ⟨parent, -, rfl⟩ := List.mem_map.mp hl
  simp [spares, hdead] at hspared

/-- The links that remain are those between live nodes. -/
theorem links_eq (h : c.Prunes v v') (hc : c.IsLocal) : c.links v' = (c.links v).filter (c.spares v) := by
  have hlive : ∀ id ∈ v.ids, (c.liveness v).isLive id = true → id ∈ v'.ids := fun id hid hl => h.mem_ids.mpr ⟨hid, hl⟩
  have hparents : v'.ids.flatMap v'.hierarchyLinks = (v.ids.flatMap v.hierarchyLinks).filter (c.spares v) := by
    rw [h.ids]
    exact flatMap_filter_eq (fun id hid hl => h.hierarchyLinks_eq (hlive id hid hl))
      fun id _ hd => hierarchyLinks_of_dead hd
  have hplugins : v'.ids.flatMap (c.pluginLinks v') = (v.ids.flatMap (c.pluginLinks v)).filter (c.spares v) := by
    rw [h.ids]
    exact flatMap_filter_eq (fun id hid hl => h.pluginLinks_eq hc (hlive id hid hl))
      fun id _ hd => pluginLinks_of_dead hc hd
  have hrecords : c.animations.records.flatMap v'.recordLinks =
      (c.animations.records.flatMap v.recordLinks).filter (c.spares v) := by
    rw [List.filter_flatMap]
    exact List.flatMap_congr fun r _ => h.recordLinks_eq r
  rw [links, links, filter_keepOnce, askedLinks, askedLinks, List.filter_append, List.filter_append, hparents,
    hplugins, hrecords]

end Links

section Nodes

theorem cause?_eq (h : c.Prunes v v') (hc : c.IsLocal) (hid : id ∈ v'.ids) : c.cause? v' id = c.cause? v id :=
  (h.record id hid).cause?_eq hc.readsOwnRecords

theorem cancels_eq_false (h : c.Prunes v v') (hc : c.IsLocal) (hnone : c.cancels v = false) :
    c.cancels v' = false := by
  rw [cancels, List.any_eq_false] at hnone ⊢
  intro id hid
  rw [(h.record id hid).pluginCancels_eq hc.readsOwnRecords, (h.record id hid).rules_cancels_eq hc.readsOwnRecords]
  exact hnone id (h.mem_of_mem hid)

end Nodes

section Writers

theorem mem_of_writes (h : c.Prunes v v') (hid : id ∈ v'.ids) {writer : NodeId}
    (hw : c.Writes v writer id (v.switch id)) (hlisted : writer ∈ v.ids) : writer ∈ v'.ids := by
  obtain ⟨hmem, hlive⟩ := h.mem_ids.mp hid
  exact h.mem_ids.mpr ⟨hlisted, isLive_writer h.wellListed hmem hlisted hw hlive⟩

theorem writes_switch_iff (h : c.Prunes v v') (hc : c.IsLocal) (hid : id ∈ v'.ids) (writer : NodeId) :
    c.Writes v' writer id (v'.switch id) ↔ c.Writes v writer id (v.switch id) := by
  rw [(h.record id hid).switch_eq]
  have hplugin := fun hw : writer ∈ v'.ids =>
    (h.record writer hw).pluginWrites_iff hc.readsOwnRecords (h.record id hid).kindOf_eq (v.switch id)
  constructor
  · rintro (⟨hw, hp⟩ | hr)
    · exact Or.inl ⟨h.mem_of_mem hw, (hplugin hw).mp hp⟩
    · exact Or.inr hr
  · rintro (⟨hw, hp⟩ | hr)
    · have hw' : writer ∈ v'.ids := h.mem_of_writes hid (Or.inl ⟨hw, hp⟩) hw
      exact Or.inl ⟨hw', (hplugin hw').mpr hp⟩
    · exact Or.inr hr

theorem isWritten_eq (h : c.Prunes v v') (hc : c.IsLocal) (hid : id ∈ v'.ids) :
    (c.draft v').writers.isWritten (v'.place id) (v'.switch id) =
      (c.draft v).writers.isWritten (v.place id) (v.switch id) := by
  apply Bool.eq_iff_iff.mpr
  rw [isWritten_draft_iff h.wellListed' hid, isWritten_draft_iff h.wellListed (h.mem_of_mem hid)]
  exact exists_congr fun writer => h.writes_switch_iff hc hid writer

end Writers

end Prunes

end Collector

end ScenePrune
