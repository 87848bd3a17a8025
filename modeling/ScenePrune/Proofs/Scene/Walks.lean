import Mathlib.Logic.Relation
import ScenePrune.Proofs.Scene.Depth

/-! # Walks up the parents of a host

The parents of a host may be missing or form cycles. A way up that comes to an end passes no node
twice. So it has no more steps than nodes are listed, the bounded walk follows it to the end, and
what lies above a node is less deep than the node.
-/
namespace ScenePrune.SceneView
open Relation

/-- The first node names the second one as its parent, and there need not be such a node. -/
def HangsBelow (v : SceneView) (id parent : NodeId) : Prop := v.parent? id = some parent

def ListedBelowTop (v : SceneView) (id : NodeId) : Prop :=
  ∀ x, ReflTransGen v.HangsBelow id x → (v.parent? x).isSome → x ∈ v.ids

variable {v : SceneView} {id other : NodeId} {j k : Nat}

theorem HasDepth.unique (h : v.HasDepth id j) (h' : v.HasDepth id k) : j = k := by
  induction h generalizing k with
  | top hp =>
    cases h' with
    | top _ => rfl
    | child hp' _ => cases hp.symm.trans hp'
  | child hp _ ih =>
    cases h' with
    | top hp' => cases hp.symm.trans hp'
    | child hp' h' =>
      obtain rfl := Option.some.inj (hp.symm.trans hp')
      rw [ih h']

theorem HasDepth.above (h : v.HasDepth id k) (hup : TransGen v.HangsBelow id other) :
    ∃ j < k, v.HasDepth other j := by
  induction h with
  | top hp =>
    obtain ⟨parent, hparent, -⟩ := TransGen.head'_iff.mp hup
    cases hp.symm.trans hparent
  | @child id parent k hp hdepth ih =>
    obtain ⟨parent', hparent, hup⟩ := TransGen.head'_iff.mp hup
    obtain rfl := Option.some.inj (hp.symm.trans hparent)
    rcases reflTransGen_iff_eq_or_transGen.mp hup with rfl | hup
    · exact ⟨k, Nat.lt_succ_self k, hdepth⟩
    · obtain ⟨j, hj, hother⟩ := ih hup
      exact ⟨j, Nat.lt_succ_of_lt hj, hother⟩

/-- A way up that comes to an end does not lead back. -/
theorem HasDepth.not_above_self (h : v.HasDepth id k) : ¬ TransGen v.HangsBelow id id := by
  intro hback
  obtain ⟨j, hj, hagain⟩ := h.above hback
  exact Nat.ne_of_lt hj (hagain.unique h)

theorem HasDepth.exists_top (h : v.HasDepth id k) :
    ∃ top, ReflTransGen v.HangsBelow id top ∧ v.parent? top = none := by
  induction h with
  | top hp => exact ⟨_, .refl, hp⟩
  | child hp _ ih =>
    obtain ⟨top, hway, htop⟩ := ih
    exact ⟨top, .head hp hway, htop⟩

/-- The nodes on the way up that name a parent are as many as it has steps. -/
theorem HasDepth.exists_trail (h : v.HasDepth id k) : ∃ trail : List NodeId, trail.length = k ∧ trail.Nodup ∧
    ∀ x ∈ trail, ReflTransGen v.HangsBelow id x ∧ (v.parent? x).isSome := by
  induction h with
  | top _ => exact ⟨[], rfl, List.nodup_nil, fun x hx => absurd hx List.not_mem_nil⟩
  | @child id parent k hp hdepth ih =>
    obtain ⟨trail, hlength, hnodup, hway⟩ := ih
    refine ⟨id :: trail, by rw [List.length_cons, hlength], List.nodup_cons.mpr ⟨fun hmem => ?_, hnodup⟩, ?_⟩
    · exact (HasDepth.child hp hdepth).not_above_self (.head' hp (hway id hmem).1)
    · intro x hx
      rcases List.mem_cons.mp hx with rfl | hx
      · exact ⟨.refl, hp ▸ rfl⟩
      · exact ⟨.head hp (hway x hx).1, (hway x hx).2⟩

theorem HasDepth.le_length (h : v.HasDepth id k) (hlisted : v.ListedBelowTop id) : k ≤ v.ids.length := by
  obtain ⟨trail, rfl, hnodup, hway⟩ := h.exists_trail
  exact hnodup.length_le_of_subset fun x hx => hlisted x (hway x hx).1 (hway x hx).2

/-- If its last node is listed, too, the way up has fewer steps than nodes are listed. -/
theorem HasDepth.lt_length (h : v.HasDepth id k) (hlisted : ∀ x, ReflTransGen v.HangsBelow id x → x ∈ v.ids) :
    k < v.ids.length := by
  obtain ⟨trail, rfl, hnodup, hway⟩ := h.exists_trail
  obtain ⟨top, hup, htop⟩ := h.exists_top
  have hnew : top ∉ trail := fun hmem => by simpa [htop] using (hway top hmem).2
  have hle : (top :: trail).length ≤ v.ids.length := by
    apply (List.nodup_cons.mpr ⟨hnew, hnodup⟩).length_le_of_subset
    intro x hx
    rcases List.mem_cons.mp hx with rfl | hx
    · exact hlisted x hup
    · exact hlisted x (hway x hx).1
  exact hle

theorem ListedBelowTop.above (h : v.ListedBelowTop id) (hup : ReflTransGen v.HangsBelow id other) :
    v.ListedBelowTop other := fun x hx => h x (hup.trans hx)

/-- What lies above a node is less deep than the node, as the walk counts. -/
theorem HasDepth.depth_lt (h : v.HasDepth id k) (hlisted : v.ListedBelowTop id)
    (hup : TransGen v.HangsBelow id other) : v.depth other < v.depth id := by
  obtain ⟨j, hj, hother⟩ := h.above hup
  rw [h.depth_eq (h.le_length hlisted), hother.depth_eq (hother.le_length (hlisted.above hup.to_reflTransGen))]
  exact hj

end ScenePrune.SceneView
