import ScenePrune.Proofs.OrderedMap
import ScenePrune.Proofs.Scene.Edit
import ScenePrune.Scene.Listing
import ScenePrune.Sweep

/-! # Sweeps of any host

The agenda of a sweep holds each dead node once, deeper ones first. A node that is not tried keeps
its entry in the mapping, and on a host that removes nothing but what it is asked to it stays.
-/
namespace ScenePrune

/-- Removing a node takes no other node away. -/
def Host.RemovesOnly (σ : Type) [Host σ] : Prop := ∀ (s : σ) (id : NodeId) (s' : σ),
  Host.remove s id = .ok s' → ∀ other ∈ (Host.view s).ids, other ≠ id → other ∈ (Host.view s').ids

theorem Scene.removesOnly : Host.RemovesOnly Scene := by
  intro s id s' h other hother hne
  simp only [Host.remove, Scene.remove_eq] at h
  split at h
  · cases h
  · split at h
    · cases h
    · cases h
      simp only [Host.view, Scene.view, Scene.ids, List.mem_map] at hother ⊢
      obtain ⟨n, hn, rfl⟩ := hother
      exact ⟨n, List.mem_filter.mpr ⟨hn, by simpa using hne⟩, rfl⟩

theorem Listing.removesOnly : Host.RemovesOnly Listing := by
  intro s id s' h other hother hne
  simp only [Host.remove, Listing.remove] at h
  split at h
  · cases h
  · split at h
    · cases h
      simp only [Host.view, Listing.view, OrderedMap.keys_erase] at hother ⊢
      exact List.mem_filter.mpr ⟨hother, by simpa using hne⟩
    · cases h

theorem Liveness.exists_of_isLive {l : Liveness} {id : NodeId} (h : l.isLive id = true) :
    ∃ reason, l.verdict? id = some (.live reason) := by
  obtain ⟨verdict, hv, hlive⟩ := (Option.any_eq_true _ _).mp h
  cases verdict with
  | live reason => exact ⟨reason, hv⟩
  | dead => cases hlive

theorem Liveness.isDead_eq_false_of_isLive {l : Liveness} {id : NodeId} (h : l.isLive id = true) :
    l.isDead id = false := by
  obtain ⟨reason, hv⟩ := exists_of_isLive h
  simp [isDead, hv]

abbrev RemovalMap.keeping (ids : List NodeId) : RemovalMap := ⟨.ofList (ids.map fun id => (id, .kept id))⟩

namespace RemovalMap
variable {ids : List NodeId}

theorem entries_keeping (h : ids.Nodup) : (keeping ids).entries.entries = ids.map fun id => (id, .kept id) :=
  OrderedMap.entries_ofList_map h _

theorem keys_keeping (h : ids.Nodup) : (keeping ids).entries.keys = ids := by
  rw [OrderedMap.keys, entries_keeping h, List.map_map]
  exact List.map_id ids

theorem get?_keeping {id : NodeId} (hid : id ∈ ids) : (keeping ids).get? id = some (.kept id) := by
  have hkey : ((keeping ids).entries.get? id).isSome := by
    rw [OrderedMap.isSome_get?_ofList]
    exact List.mem_map.mpr ⟨_, List.mem_map_of_mem hid, rfl⟩
  obtain ⟨fate, hfate⟩ := Option.isSome_iff_exists.mp hkey
  have hmem := mem_of_lookup_eq_some ((OrderedMap.get?_ofList _ _).symm.trans hfate)
  obtain ⟨other, -, he⟩ := List.mem_map.mp (List.mem_reverse.mp hmem)
  obtain ⟨rfl, rfl⟩ := Prod.mk.inj he
  exact hfate

theorem removed_keeping (h : ids.Nodup) : (keeping ids).removed = [] := by
  rw [removed, entries_keeping h, List.map_eq_nil_iff, List.filter_eq_nil_iff]
  intro x hx
  obtain ⟨id, -, rfl⟩ := List.mem_map.mp hx
  simp

end RemovalMap

namespace Sweep

section Agenda
variable {v : SceneView} {l : Liveness} {id : NodeId}

theorem order_trans (v : SceneView) (a b c : NodeId) (hab : order v a b = true) (hbc : order v b c = true) :
    order v a c = true := by
  simp only [order, Bool.or_eq_true, Bool.and_eq_true, decide_eq_true_eq] at hab hbc ⊢
  rcases hab with hab | ⟨hab, hab'⟩
  · rcases hbc with hbc | ⟨hbc, -⟩
    · exact Or.inl (Nat.lt_trans hbc hab)
    · exact Or.inl (hbc ▸ hab)
  · rcases hbc with hbc | ⟨hbc, hbc'⟩
    · exact Or.inl (hab ▸ hbc)
    · exact Or.inr ⟨hab.trans hbc, UInt32.le_trans hab' hbc'⟩

theorem order_total (v : SceneView) (a b : NodeId) : (order v a b || order v b a) = true := by
  simp only [order, Bool.or_eq_true, Bool.and_eq_true, decide_eq_true_eq]
  rcases Nat.lt_trichotomy (v.depth a) (v.depth b) with h | h | h
  · exact Or.inr (Or.inl h)
  · rcases UInt32.le_total a b with hab | hab
    · exact Or.inl (Or.inr ⟨h, hab⟩)
    · exact Or.inr (Or.inr ⟨h.symm, hab⟩)
  · exact Or.inl (Or.inl h)

theorem agenda_sorted (mapping : RemovalMap) : (agenda v mapping l).Pairwise fun a b => order v a b = true :=
  List.pairwise_mergeSort (order_trans v) (order_total v) _

theorem mem_agenda_iff (h : v.ids.Nodup) :
    id ∈ agenda v (.keeping v.ids) l ↔ id ∈ v.ids ∧ l.isDead id = true := by
  rw [agenda, List.mem_mergeSort, List.mem_filter, RemovalMap.keys_keeping h]

theorem nodup_agenda (h : v.ids.Nodup) : (agenda v (.keeping v.ids) l).Nodup := by
  rw [agenda, (List.mergeSort_perm _ _).nodup_iff, RemovalMap.keys_keeping h]
  exact h.filter _

/-- Of two equally deep nodes the one with the lesser id is tried first. -/
theorem pairwise_agenda (h : v.ids.Nodup) : (agenda v (.keeping v.ids) l).Pairwise fun a b =>
    v.depth b < v.depth a ∨ v.depth a = v.depth b ∧ a < b := by
  refine ((agenda_sorted _).and (nodup_agenda h)).imp ?_
  rintro a b ⟨horder, hne⟩
  simp only [order, Bool.or_eq_true, Bool.and_eq_true, decide_eq_true_eq] at horder
  exact horder.imp_right fun ⟨hdepth, hle⟩ => ⟨hdepth, UInt32.lt_of_le_of_ne hle hne⟩

theorem notMem_agenda (h : v.ids.Nodup) (hlive : l.isLive id = true) : id ∉ agenda v (.keeping v.ids) l := by
  intro hmem
  have hdead := ((mem_agenda_iff h).mp hmem).2
  rw [Liveness.isDead_eq_false_of_isLive hlive] at hdead
  cases hdead

/-- Ids may repeat for this. -/
theorem notMem_agenda_of_not_dead {mapping : RemovalMap} (h : l.isDead id = false) : id ∉ agenda v mapping l := by
  intro hmem
  rw [agenda, List.mem_mergeSort, List.mem_filter] at hmem
  simp [h] at hmem

end Agenda

section Run
variable {σ : Type} [Host σ] {s : Sweep σ} {scene : σ} {liveness : Liveness} {id : NodeId}

theorem get?_removeOne_of_ne {other : NodeId} (h : other ≠ id) :
    (removeOne s id).mapping.get? other = s.mapping.get? other := by
  unfold removeOne
  split
  · simp [RemovalMap.get?, OrderedMap.get?_insert, h]
  · rfl

theorem get?_foldl_removeOne {agenda : List NodeId} (h : id ∉ agenda) :
    (agenda.foldl removeOne s).mapping.get? id = s.mapping.get? id := by
  induction agenda generalizing s with
  | nil => rfl
  | cons other agenda ih =>
    simp only [List.mem_cons, not_or] at h
    rw [List.foldl_cons, ih h.2, get?_removeOne_of_ne h.1]

theorem mem_ids_removeOne (hr : Host.RemovesOnly σ) {other : NodeId} (h : other ≠ id)
    (hmem : other ∈ (Host.view s.scene).ids) : other ∈ (Host.view (removeOne s id).scene).ids := by
  unfold removeOne
  split
  case h_1 scene hscene => exact hr _ _ _ hscene _ hmem h
  case h_2 => exact hmem

theorem mem_ids_foldl_removeOne (hr : Host.RemovesOnly σ) {agenda : List NodeId} (h : id ∉ agenda)
    (hmem : id ∈ (Host.view s.scene).ids) : id ∈ (Host.view (agenda.foldl removeOne s).scene).ids := by
  induction agenda generalizing s with
  | nil => exact hmem
  | cons other agenda ih =>
    simp only [List.mem_cons, not_or] at h
    rw [List.foldl_cons]
    exact ih h.2 (mem_ids_removeOne hr h.1 hmem)

theorem get?_run_of_isLive (hids : (Host.view scene).ids.Nodup) (hid : id ∈ (Host.view scene).ids)
    (h : liveness.isLive id = true) : (run scene liveness).mapping.get? id = some (.kept id) := by
  rw [run, get?_foldl_removeOne (notMem_agenda hids h)]
  exact RemovalMap.get?_keeping hid

theorem mem_ids_run_of_isLive (hr : Host.RemovesOnly σ) (hids : (Host.view scene).ids.Nodup)
    (hid : id ∈ (Host.view scene).ids) (h : liveness.isLive id = true) :
    id ∈ (Host.view (run scene liveness).scene).ids :=
  mem_ids_foldl_removeOne hr (notMem_agenda hids h) hid

theorem get?_run_of_not_dead (hid : id ∈ (Host.view scene).ids) (h : liveness.isDead id = false) :
    (run scene liveness).mapping.get? id = some (.kept id) := by
  rw [run, get?_foldl_removeOne (notMem_agenda_of_not_dead h)]
  exact RemovalMap.get?_keeping hid

theorem mem_ids_run_of_not_dead (hr : Host.RemovesOnly σ) (hid : id ∈ (Host.view scene).ids)
    (h : liveness.isDead id = false) : id ∈ (Host.view (run scene liveness).scene).ids :=
  mem_ids_foldl_removeOne hr (notMem_agenda_of_not_dead h) hid

theorem run_of_none_dead (hids : (Host.view scene).ids.Nodup)
    (h : ∀ id ∈ (Host.view scene).ids, liveness.isDead id = false) :
    run scene liveness = { scene, mapping := .keeping (Host.view scene).ids } := by
  have hnone : agenda (Host.view scene) (.keeping (Host.view scene).ids) liveness = [] := by
    rw [List.eq_nil_iff_forall_not_mem]
    intro id hid
    obtain ⟨hmem, hdead⟩ := (mem_agenda_iff hids).mp hid
    simp [h id hmem] at hdead
  rw [run, hnone]
  rfl

end Run

section Tried
variable {σ : Type} [Host σ] {s : Sweep σ} {scene : σ} {liveness : Liveness} {id other : NodeId}

def Tried (s : Sweep σ) (id : NodeId) : Prop :=
  s.mapping.get? id = some .removed ∨ ∃ e, .removalFailed id e ∈ s.diagnostics

theorem tried_removeOne (s : Sweep σ) (id : NodeId) : (removeOne s id).Tried id := by
  unfold removeOne
  split
  case h_1 => exact Or.inl (by simp [RemovalMap.get?, OrderedMap.get?_insert])
  case h_2 e _ => exact Or.inr ⟨e.message, List.mem_append_right _ (List.mem_singleton_self _)⟩

theorem Tried.removeOne (h : s.Tried id) : (removeOne s other).Tried id := by
  by_cases he : other = id
  · exact he ▸ tried_removeOne s other
  rcases h with hgone | ⟨e, hrefused⟩
  · exact Or.inl ((get?_removeOne_of_ne (Ne.symm he)).trans hgone)
  · refine Or.inr ⟨e, ?_⟩
    unfold Sweep.removeOne
    split
    · exact hrefused
    · exact List.mem_append_left _ hrefused

theorem Tried.foldl {agenda : List NodeId} (h : s.Tried id) : (agenda.foldl Sweep.removeOne s).Tried id := by
  induction agenda generalizing s with
  | nil => exact h
  | cons other agenda ih => exact ih h.removeOne

theorem tried_of_mem {agenda : List NodeId} (h : id ∈ agenda) : (agenda.foldl removeOne s).Tried id := by
  induction agenda generalizing s with
  | nil => cases h
  | cons other agenda ih =>
    rcases List.mem_cons.mp h with rfl | h
    · exact (tried_removeOne s id).foldl
    · exact ih h

/-- Every listed node that is dead is tried. -/
theorem tried_run (hid : id ∈ (Host.view scene).ids) (h : liveness.isDead id = true) : (run scene liveness).Tried id := by
  apply tried_of_mem
  rw [agenda, List.mem_mergeSort, List.mem_filter]
  refine ⟨?_, h⟩
  exact List.mem_map_of_mem (mem_of_lookup_eq_some (RemovalMap.get?_keeping hid))

end Tried

end Sweep

end ScenePrune
