import ScenePrune.Proofs.Scene.Invariant

/-! # Depths

A walk up the parents takes at most as many steps as nodes are listed. In a scene that is enough:
the walk from the node at position `k` has at most `k` steps, so `SceneView.depth` counts all the
nodes above, and a child is one deeper than its parent.
-/
namespace ScenePrune

namespace SceneView

inductive HasDepth (v : SceneView) : NodeId → Nat → Prop where
  | top {id : NodeId} : v.parent? id = none → HasDepth v id 0
  | child {id parent : NodeId} {k : Nat} : v.parent? id = some parent → HasDepth v parent k →
      HasDepth v id (k + 1)

variable {v : SceneView} {id : NodeId}

theorem HasDepth.length_ancestorsWithin {k : Nat} (h : v.HasDepth id k) (steps : Nat) :
    (v.ancestorsWithin steps id).length = min steps k := by
  induction h generalizing steps with
  | top hp => cases steps <;> simp [ancestorsWithin, hp]
  | child hp _ ih =>
    cases steps with
    | zero => simp [ancestorsWithin]
    | succ steps =>
      simp only [ancestorsWithin, hp, List.length_cons, ih]
      omega

theorem HasDepth.depth_eq {k : Nat} (h : v.HasDepth id k) (hk : k ≤ v.ids.length) : v.depth id = k := by
  rw [depth, h.length_ancestorsWithin]
  exact Nat.min_eq_right hk

end SceneView

namespace Scene
variable {s : Scene}

/-- The way up from a node stays among the nodes before it. -/
theorem WellFormed.hasDepth_le (hs : s.WellFormed) {l r : List Node} {n : Node} (he : s.nodes = l ++ n :: r) :
    ∃ k ≤ l.length, (Host.view s).HasDepth n.id k := by
  induction hl : l.length using Nat.strongRecOn generalizing l n r with
  | ind len ih =>
    have hparent := hs.parent?_view (n := n) (by simp [he])
    cases hp : n.parent? with
    | none => exact ⟨0, Nat.zero_le _, .top (hparent.trans hp)⟩
    | some p =>
      obtain ⟨m, hm, rfl⟩ := List.mem_map.mp (hs.parentsFirst l n r he p hp)
      obtain ⟨l₁, l₂, rfl⟩ := List.append_of_mem hm
      have hlt : l₁.length < len := by
        rw [← hl, List.length_append, List.length_cons]
        omega
      obtain ⟨k, hk, hdepth⟩ := ih l₁.length hlt (l := l₁) (n := m) (r := l₂ ++ n :: r) (by simp [he]) rfl
      exact ⟨k + 1, by omega, .child (hparent.trans hp) hdepth⟩

theorem WellFormed.hasDepth (hs : s.WellFormed) {n : Node} (hn : n ∈ s.nodes) :
    ∃ k < s.ids.length, (Host.view s).HasDepth n.id k := by
  obtain ⟨l, r, he⟩ := List.append_of_mem hn
  obtain ⟨k, hk, h⟩ := hs.hasDepth_le he
  refine ⟨k, ?_, h⟩
  rw [ids, List.length_map, he, List.length_append, List.length_cons]
  omega

theorem WellFormed.depth_child (hs : s.WellFormed) {n : Node} (hn : n ∈ s.nodes) {p : NodeId}
    (hp : n.parent? = some p) : (Host.view s).depth n.id = (Host.view s).depth p + 1 := by
  obtain ⟨m, hm, rfl⟩ := exists_node_of_mem_ids (hs.parent_mem hn hp)
  obtain ⟨k, hk, h⟩ := hs.hasDepth hm
  have hlength : (Host.view s).ids.length = s.ids.length := rfl
  have hchild : (Host.view s).HasDepth n.id (k + 1) := .child ((hs.parent?_view hn).trans hp) h
  rw [h.depth_eq (by omega), hchild.depth_eq (by omega)]

end Scene

end ScenePrune
