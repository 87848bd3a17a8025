import ScenePrune.Proofs.Scene.Depth
import ScenePrune.Proofs.Sweep

/-! # Sweeping a scene

A scene refuses to remove a node that still has children, so of the dead nodes only those can go
below which everything is dead. As deeper nodes are tried first, all of those do go. The invariant
`Sweep.After` tells what is left once a beginning of the agenda was tried.
-/
namespace ScenePrune

namespace Scene

inductive InSubtree (s : Scene) (top : NodeId) : NodeId → Prop where
  | self : InSubtree s top top
  | child {n : Node} {parent : NodeId} : InSubtree s top parent → n ∈ s.nodes → n.parent? = some parent →
      InSubtree s top n.id

def Doomed (s : Scene) (l : Liveness) (id : NodeId) : Prop := ∀ x, s.InSubtree id x → l.isDead x = true

open Classical in
noncomputable instance (s : Scene) (l : Liveness) : DecidablePred (s.Doomed l) := Classical.decPred _

variable {s : Scene} {l : Liveness} {id : NodeId}

theorem InSubtree.head {n : Node} {p x : NodeId} (h : s.InSubtree n.id x) (hn : n ∈ s.nodes)
    (hp : n.parent? = some p) : s.InSubtree p x := by
  induction h with
  | self => exact .child .self hn hp
  | child _ hm hmp ih => exact .child ih hm hmp

theorem InSubtree.cases_head {x : NodeId} (h : s.InSubtree id x) :
    x = id ∨ ∃ n ∈ s.nodes, n.parent? = some id ∧ s.InSubtree n.id x := by
  induction h with
  | self => exact Or.inl rfl
  | @child m parent _ hm hp ih =>
    right
    rcases ih with rfl | ⟨n, hn, hnp, hx⟩
    · exact ⟨m, hm, hp, .self⟩
    · exact ⟨n, hn, hnp, .child hx hm hp⟩

theorem Doomed.isDead (h : s.Doomed l id) : l.isDead id = true := h id .self

theorem Doomed.child (h : s.Doomed l id) {n : Node} (hn : n ∈ s.nodes) (hp : n.parent? = some id) :
    s.Doomed l n.id := fun x hx => h x (hx.head hn hp)

/-- A dead node that is not doomed has a child that is not. -/
theorem exists_child_of_not_doomed (hdead : l.isDead id = true) (h : ¬ s.Doomed l id) :
    ∃ n ∈ s.nodes, n.parent? = some id ∧ ¬ s.Doomed l n.id := by
  by_contra hnone
  apply h
  intro x hx
  rcases hx.cases_head with rfl | ⟨n, hn, hp, hx⟩
  · exact hdead
  · by_contra hlive
    exact hnone ⟨n, hn, hp, fun hd => hlive (hd x hx)⟩

theorem remove_of_leaf {n : Node} (hn : s.node? id = some n) (hleaf : s.children id = []) :
    ∃ s', s.remove id = .ok s' := by
  simp [remove_eq, hleaf, hn]

theorem remove_of_child {child : NodeId} (h : child ∈ s.children id) :
    s.remove id = .error (.hasChildren id) := by
  have hne : s.children id ≠ [] := List.ne_nil_of_mem h
  simp [remove_eq, hne]

end Scene

namespace Sweep
variable {s : Scene} {l : Liveness} {id : NodeId}

/-- What is left of a scene once the nodes of `tried` were tried. -/
structure After (s : Scene) (l : Liveness) (tried : List NodeId) (w : Sweep Scene) : Prop where
  wellFormed : w.scene.WellFormed
  nodes : w.scene.nodes = s.nodes.filter fun n => ¬ (n.id ∈ tried ∧ s.Doomed l n.id)
  entries : w.mapping.entries.entries =
    s.ids.map fun id => (id, if id ∈ tried ∧ s.Doomed l id then .removed else .kept id)
  diagnostics : w.diagnostics =
    (tried.filter fun id => ¬ s.Doomed l id).map fun id => .removalFailed id (SceneError.hasChildren id).message

theorem After.removable {tried : List NodeId} {w : Sweep Scene} (h : After s l tried w) (hid : id ∈ s.ids)
    (hnew : id ∉ tried) (hd : s.Doomed l id)
    (hbelow : ∀ n ∈ s.nodes, n.parent? = some id → l.isDead n.id = true → n.id ∈ tried) :
    ∃ s', w.scene.remove id = .ok s' := by
  obtain ⟨n, hn, rfl⟩ := Scene.exists_node_of_mem_ids hid
  have hmem : n ∈ w.scene.nodes := by
    rw [h.nodes]
    exact List.mem_filter.mpr ⟨hn, by simp [hnew]⟩
  have hleaf : w.scene.children n.id = [] := by
    rw [List.eq_nil_iff_forall_not_mem]
    intro child hchild
    obtain ⟨m, hm, hp, rfl⟩ := h.wellFormed.mem_children.mp hchild
    rw [h.nodes] at hm
    obtain ⟨hm, hkept⟩ := List.mem_filter.mp hm
    have hmd : s.Doomed l m.id := hd.child hm hp
    simp [hbelow m hm hp hmd.isDead, hmd] at hkept
  exact Scene.remove_of_leaf (h.wellFormed.node?_of_mem hmem) hleaf

theorem After.refused {tried : List NodeId} {w : Sweep Scene} (h : After s l tried w) (hdead : l.isDead id = true)
    (hd : ¬ s.Doomed l id) : w.scene.remove id = .error (.hasChildren id) := by
  obtain ⟨m, hm, hp, hmd⟩ := Scene.exists_child_of_not_doomed hdead hd
  have hchild : m.id ∈ w.scene.children id := by
    refine h.wellFormed.mem_children.mpr ⟨m, ?_, hp, rfl⟩
    rw [h.nodes]
    exact List.mem_filter.mpr ⟨hm, by simp [hmd]⟩
  exact Scene.remove_of_child hchild

/-- Trying one more node, after everything below it, removes it just if it is doomed. -/
theorem After.step (hs : s.WellFormed) {tried : List NodeId} {w : Sweep Scene} (h : After s l tried w)
    (hid : id ∈ s.ids) (hnew : id ∉ tried) (hdead : l.isDead id = true)
    (hbelow : ∀ n ∈ s.nodes, n.parent? = some id → l.isDead n.id = true → n.id ∈ tried) :
    After s l (tried ++ [id]) (removeOne w id) := by
  by_cases hd : s.Doomed l id
  · obtain ⟨s', hremove⟩ := h.removable hid hnew hd hbelow
    obtain ⟨-, -, -, hnodes, -, -⟩ := Scene.remove_ok hremove
    have hremove' : Host.remove w.scene id = .ok s' := hremove
    simp only [removeOne, hremove']
    constructor
    · exact h.wellFormed.remove hremove
    · simp only [hnodes, h.nodes, List.filter_filter]
      apply List.filter_congr
      intro m _
      by_cases he : m.id = id <;> simp [he, hd]
    · simp only [OrderedMap.insert, OrderedMap.upsert, h.entries]
      rw [OrderedMap.upsertEntries_map hs.nodup hid]
      apply List.map_congr_left
      intro i _
      by_cases he : i = id <;> simp [he, hd]
    · simp [h.diagnostics, List.filter_append, hd]
  · have hremove : Host.remove w.scene id = .error (.hasChildren id) := h.refused hdead hd
    simp only [removeOne, hremove]
    constructor
    · exact h.wellFormed
    · rw [h.nodes]
      apply List.filter_congr
      intro i _
      by_cases he : i.id = id <;> simp [he, hd]
    · rw [h.entries]
      apply List.map_congr_left
      intro i _
      by_cases he : i = id <;> simp [he, hd]
    · simp [h.diagnostics, List.filter_append, hd]

/-- Trying the rest of the agenda, deeper nodes first. -/
theorem After.run (hs : s.WellFormed) {rest tried : List NodeId} {w : Sweep Scene} (h : After s l tried w)
    (hsorted : (tried ++ rest).Pairwise fun a b => order (Host.view s) a b = true)
    (hnodup : (tried ++ rest).Nodup)
    (hmem : ∀ id, id ∈ tried ++ rest ↔ id ∈ s.ids ∧ l.isDead id = true) :
    After s l (tried ++ rest) (rest.foldl removeOne w) := by
  induction rest generalizing tried w with
  | nil => simpa using h
  | cons id rest ih =>
    have hsplit : tried ++ id :: rest = (tried ++ [id]) ++ rest := by simp
    have hid : id ∈ tried ++ id :: rest := by simp
    have hbelow : ∀ n ∈ s.nodes, n.parent? = some id → l.isDead n.id = true → n.id ∈ tried := by
      intro n hn hp hdead
      have hdepth := hs.depth_child hn hp
      have hn' : n.id ∈ tried ++ id :: rest := (hmem n.id).mpr ⟨List.mem_map_of_mem hn, hdead⟩
      rcases List.mem_append.mp hn' with hn' | hn'
      · exact hn'
      · rcases List.mem_cons.mp hn' with he | hn'
        · rw [he] at hdepth
          omega
        · have hlate := (List.pairwise_cons.mp (List.pairwise_append.mp hsorted).2.1).1 n.id hn'
          simp only [order, Bool.or_eq_true, Bool.and_eq_true, decide_eq_true_eq] at hlate
          omega
    have hnew : id ∉ tried := fun ht => (List.nodup_append.mp hnodup).2.2 id ht id (by simp) rfl
    have hstep := h.step hs ((hmem id).mp hid).1 hnew ((hmem id).mp hid).2 hbelow
    rw [hsplit] at hsorted hnodup hmem ⊢
    exact ih hstep hsorted hnodup hmem

theorem After.start (hs : s.WellFormed) :
    After s l [] { scene := s, mapping := .keeping (Host.view s).ids } where
  wellFormed := hs
  nodes := by simp
  entries := by
    have hids : (Host.view s).ids.Nodup := hs.nodup
    refine (RemovalMap.entries_keeping hids).trans ?_
    exact List.map_congr_left fun id _ => by simp
  diagnostics := rfl

theorem mem_agenda (hs : s.WellFormed) :
    id ∈ agenda (Host.view s) (.keeping (Host.view s).ids) l ↔ id ∈ s.ids ∧ l.isDead id = true :=
  mem_agenda_iff hs.nodup

theorem run_after (hs : s.WellFormed) :
    After s l (agenda (Host.view s) (.keeping (Host.view s).ids) l) (run s l) := by
  have hids : (Host.view s).ids.Nodup := hs.nodup
  exact (After.start hs).run hs (agenda_sorted _) (nodup_agenda hids) fun _ => mem_agenda hs

theorem tried_and_doomed (hs : s.WellFormed) (hid : id ∈ s.ids) :
    id ∈ agenda (Host.view s) (.keeping (Host.view s).ids) l ∧ s.Doomed l id ↔ s.Doomed l id :=
  ⟨And.right, fun hd => ⟨(mem_agenda hs).mpr ⟨hid, hd.isDead⟩, hd⟩⟩

/-- A sweep removes the doomed nodes of a scene and nothing else. -/
theorem nodes_run (hs : s.WellFormed) : (run s l).scene.nodes = s.nodes.filter fun n => ¬ s.Doomed l n.id := by
  rw [(run_after hs).nodes]
  apply List.filter_congr
  intro n hn
  rw [decide_eq_decide, tried_and_doomed hs (List.mem_map_of_mem hn)]

theorem mapping_run (hs : s.WellFormed) : (run s l).mapping =
    ⟨⟨s.ids.map fun id => (id, if s.Doomed l id then .removed else .kept id)⟩⟩ := by
  have hentries : ∀ r : RemovalMap, r = ⟨⟨r.entries.entries⟩⟩ := fun _ => rfl
  rw [hentries (run s l).mapping, (run_after hs).entries]
  congr 2
  apply List.map_congr_left
  intro id hid
  simp only [tried_and_doomed hs hid]

/-- For every scene and whatever a liveness says, a sweep removes those nodes below which, themselves
included, everything is dead. The others stay as they are, and the mapping tells them apart. The dead
ones among them are reported with their children as the cause, once each, deeper ones first and of
equally deep ones the lesser id first. -/
theorem sweep_exact (hs : s.Reachable) (l : Liveness) :
    (run s l).scene.nodes = s.nodes.filter (fun n => ¬ s.Doomed l n.id) ∧
    (run s l).mapping = ⟨⟨s.ids.map fun id => (id, if s.Doomed l id then .removed else .kept id)⟩⟩ ∧
    ∃ refused : List NodeId, refused.Nodup ∧
      (∀ id, id ∈ refused ↔ id ∈ s.ids ∧ l.isDead id = true ∧ ¬ s.Doomed l id) ∧
      (run s l).diagnostics = refused.map (fun id => .removalFailed id (SceneError.hasChildren id).message) ∧
      refused.Pairwise fun a b => ∃ j k, (Host.view s).HasDepth a j ∧ (Host.view s).HasDepth b k ∧
        (k < j ∨ j = k ∧ a < b) := by
  have hwell := hs.wellFormed
  have hids : (Host.view s).ids.Nodup := hwell.nodup
  refine ⟨nodes_run hwell, mapping_run hwell,
    (agenda (Host.view s) (.keeping (Host.view s).ids) l).filter fun id => ¬ s.Doomed l id,
    (nodup_agenda hids).filter _, fun id => ?_, (run_after hwell).diagnostics, ?_⟩
  · rw [List.mem_filter, mem_agenda hwell, decide_eq_true_eq, and_assoc]
  · refine ((pairwise_agenda hids).filter _).imp_of_mem fun {a b} ha hb horder => ?_
    have hdepth : ∀ id ∈ (agenda (Host.view s) (.keeping (Host.view s).ids) l).filter fun id => ¬ s.Doomed l id,
        (Host.view s).HasDepth id ((Host.view s).depth id) := by
      intro id hid
      obtain ⟨n, hn, rfl⟩ := Scene.exists_node_of_mem_ids ((mem_agenda hwell).mp (List.mem_filter.mp hid).1).1
      obtain ⟨k, hk, h⟩ := hwell.hasDepth hn
      have hexact : (Host.view s).depth n.id = k := h.depth_eq (Nat.le_of_lt hk)
      exact hexact ▸ h
    exact ⟨_, _, hdepth a ha, hdepth b hb, horder⟩

/-- Verdicts that no analysis of the lamp gives: nodes 0, 1 and 2 are dead, and so is 9, which is not
there. Node 3 below them is live, and of node 4 nothing is said. -/
def patchy : Liveness :=
  ⟨⟨[(0, .dead), (1, .dead), (2, .dead), (3, .live (.entrypoint .declared)), (9, .dead)]⟩⟩

/-- Node 1 goes. Nodes 2 and 0 are dead, too, but they stay above node 3 and are reported. -/
theorem sweep_exact_lamp : (run Scene.lamp patchy).mapping.get? 1 = some .removed ∧
    ∃ refused : List NodeId, 2 ∈ refused ∧ 0 ∈ refused ∧ 1 ∉ refused ∧
      (run Scene.lamp patchy).diagnostics =
        refused.map fun id => .removalFailed id (SceneError.hasChildren id).message := by
  obtain ⟨-, hmapping, refused, -, hmem, hdiagnostics, -⟩ := sweep_exact Scene.lamp_reachable patchy
  have hgone : Scene.lamp.Doomed patchy 1 := by
    intro x hx
    rcases hx.cases_head with rfl | ⟨n, hn, hp, -⟩
    · decide
    · have hleaf : ∀ n ∈ Scene.lamp.nodes, n.parent? ≠ some 1 := by decide
      exact absurd hp (hleaf n hn)
  have hlamp : ¬ Scene.lamp.Doomed patchy 2 := fun hd =>
    absurd (hd.child (n := Scene.lamp.nodes[3]) (by decide) rfl).isDead (by decide)
  have hroot : ¬ Scene.lamp.Doomed patchy 0 := fun hd => hlamp (hd.child (n := Scene.lamp.nodes[2]) (by decide) rfl)
  refine ⟨?_, refused, (hmem 2).mpr ⟨by decide, by decide, hlamp⟩, (hmem 0).mpr ⟨by decide, by decide, hroot⟩,
    fun h => ((hmem 1).mp h).2.2 hgone, hdiagnostics⟩
  have hlisted : 1 ∈ Scene.lamp.ids := by decide
  rw [hmapping]
  have hfate := lookup_map_of_mem hlisted fun id => if Scene.lamp.Doomed patchy id then Fate.removed else .kept id
  rw [if_pos hgone] at hfate
  exact hfate

end Sweep

end ScenePrune
