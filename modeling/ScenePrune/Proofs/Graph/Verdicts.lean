import ScenePrune.Proofs.Graph.Traversal
import ScenePrune.Proofs.OrderedMap

/-! # Verdicts of a graph whose ids are distinct

Where no two nodes share an id, every node of the graph has exactly one verdict, and it is live
just if its position is reached.
-/
namespace ScenePrune.Graph

def DistinctIds (g : Graph) : Prop := (g.nodes.map (·.id)).Nodup

variable {g : Graph} {activeness : ActivenessTable}

theorem nodes_eq_map : g.nodes = g.nodesWithIndex.map Prod.snd := by
  have hsnd : ∀ x : Option GraphNode × Nat, (x.1.map (x.2, ·)).map Prod.snd = x.1 := by
    rintro ⟨_ | n, i⟩ <;> rfl
  have hslots : (g.slots.zipIdx.map Prod.fst).filterMap id = g.slots.zipIdx.filterMap Prod.fst :=
    List.filterMap_map
  rw [List.zipIdx_map_fst] at hslots
  rw [nodesWithIndex, List.map_filterMap, nodes, hslots]
  exact List.filterMap_congr fun x _ => (hsnd x).symm

theorem mem_nodes {n : GraphNode} : n ∈ g.nodes ↔ ∃ i, g.node? i = some n := by
  simp only [nodes_eq_map, List.mem_map, Prod.exists, mem_nodesWithIndex]
  exact ⟨fun ⟨i, m, h, hm⟩ => ⟨i, hm ▸ h⟩, fun ⟨i, h⟩ => ⟨i, n, h, rfl⟩⟩

theorem DistinctIds.index_unique (hg : g.DistinctIds) {i j : Nat} {n m : GraphNode}
    (hi : g.node? i = some n) (hj : g.node? j = some m) (hid : n.id = m.id) : i = j := by
  rw [DistinctIds, nodes_eq_map, List.map_map] at hg
  have h := List.inj_on_of_nodup_map hg (mem_nodesWithIndex.mpr hi) (mem_nodesWithIndex.mpr hj) hid
  exact congrArg Prod.fst h

def verdictOf (reasons : OrderedMap NodeId Reason) (id : NodeId) : Verdict :=
  match reasons.get? id with
  | some reason => .live reason
  | none => .dead

theorem isLive_verdictOf {reasons : OrderedMap NodeId Reason} {id : NodeId} :
    (verdictOf reasons id).isLive = (reasons.get? id).isSome := by
  unfold verdictOf
  cases reasons.get? id <;> rfl

theorem verdictOf_erase {reasons : OrderedMap NodeId Reason} {id id' : NodeId} (h : id ≠ id') :
    verdictOf (reasons.erase id') id = verdictOf reasons id := by
  rw [verdictOf, verdictOf, OrderedMap.get?_erase_of_ne h]

theorem judge_cons (reasons : OrderedMap NodeId Reason) (n : GraphNode) (rest : List GraphNode) : judge reasons (n :: rest) =
    (n.id, verdictOf reasons n.id) :: judge (reasons.erase n.id) rest := by
  rw [judge, verdictOf]
  cases h : reasons.get? n.id with
  | none => rw [OrderedMap.erase_of_get?_eq_none h]
  | some reason => rfl

theorem judge_eq_map {reasons : OrderedMap NodeId Reason} {nodes : List GraphNode}
    (h : (nodes.map (·.id)).Nodup) :
    judge reasons nodes = nodes.map fun n => (n.id, verdictOf reasons n.id) := by
  induction nodes generalizing reasons with
  | nil => rfl
  | cons n rest ih =>
    obtain ⟨hn, hrest⟩ := List.nodup_cons.mp h
    rw [judge_cons, ih hrest, List.map_cons, List.cons_inj_right]
    apply List.map_congr_left
    intro m hm
    rw [verdictOf_erase fun he => hn (List.mem_map.mpr ⟨m, hm, he⟩)]

theorem DistinctIds.keys_verdicts (hg : g.DistinctIds) (reasons : OrderedMap NodeId Reason) :
    ((g.nodes.map fun n => (n.id, verdictOf reasons n.id)).map Prod.fst).Nodup := by
  simpa [DistinctIds, Function.comp_def] using hg

theorem DistinctIds.perm_verdicts (hg : g.DistinctIds) :
    (g.nodes.map fun n => (n.id, verdictOf (g.reasons activeness) n.id)).Perm
      (g.liveness activeness).verdicts.entries := by
  rw [liveness, judge_eq_map hg, OrderedMap.entries_ofList (hg.keys_verdicts _)]
  exact (List.mergeSort_perm _ _).symm

theorem DistinctIds.verdict?_eq (hg : g.DistinctIds) {n : GraphNode} (hn : n ∈ g.nodes) :
    (g.liveness activeness).verdict? n.id = some (verdictOf (g.reasons activeness) n.id) := by
  rw [Liveness.verdict?, OrderedMap.get?, lookup_eq_of_perm (hg.keys_verdicts _) hg.perm_verdicts]
  exact lookup_eq_some_of_mem (hg.keys_verdicts _) (List.mem_map_of_mem (f := fun n : GraphNode =>
    (n.id, verdictOf (g.reasons activeness) n.id)) hn)

theorem DistinctIds.isSome_reason_iff (hg : g.DistinctIds) {i : Nat} {n : GraphNode}
    (hn : g.node? i = some n) :
    ((g.reasons activeness).get? n.id).isSome ↔ i ∈ (g.reach activeness).map Prod.fst := by
  simp only [reasons, OrderedMap.isSome_get?_ofList, List.mem_map, List.mem_filterMap,
    Option.map_eq_some_iff, Prod.exists]
  constructor
  · rintro ⟨_, reason, ⟨j, r, hj, m, hm, he⟩, hid⟩
    obtain ⟨hmid, -⟩ := Prod.mk.inj he
    exact ⟨j, r, hj, hg.index_unique hm hn (hmid.trans hid)⟩
  · rintro ⟨j, r, hj, rfl⟩
    exact ⟨n.id, r, ⟨j, r, hj, n, hn, rfl⟩, rfl⟩

theorem DistinctIds.isLive_iff (hg : g.DistinctIds) {i : Nat} {n : GraphNode}
    (hn : g.node? i = some n) : (g.liveness activeness).isLive n.id = true ↔
      g.Reaches (fun e => e.isTraversable activeness = true) i := by
  rw [← mem_reach_iff, ← hg.isSome_reason_iff hn, Liveness.isLive,
    hg.verdict?_eq (mem_nodes.mpr ⟨i, hn⟩), Option.any_some, isLive_verdictOf]

theorem DistinctIds.exists_of_verdict? (hg : g.DistinctIds) {id : NodeId} {verdict : Verdict}
    (h : (g.liveness activeness).verdict? id = some verdict) : ∃ n ∈ g.nodes, n.id = id := by
  have hmem := hg.perm_verdicts.mem_iff.mpr (mem_of_lookup_eq_some h)
  obtain ⟨n, hn, he⟩ := List.mem_map.mp hmem
  exact ⟨n, hn, congrArg Prod.fst he⟩

theorem DistinctIds.exists_of_isLive (hg : g.DistinctIds) {id : NodeId}
    (h : (g.liveness activeness).isLive id = true) : ∃ n ∈ g.nodes, n.id = id := by
  obtain ⟨verdict, hverdict, -⟩ := (Option.any_eq_true _ _).mp h
  exact hg.exists_of_verdict? hverdict

theorem DistinctIds.isDead_iff (hg : g.DistinctIds) {n : GraphNode} (hn : n ∈ g.nodes) :
    (g.liveness activeness).isDead n.id = true ↔ (g.liveness activeness).isLive n.id = false := by
  rw [Liveness.isDead, Liveness.isLive, hg.verdict?_eq hn]
  cases verdictOf (g.reasons activeness) n.id <;> simp [Verdict.isLive]

end ScenePrune.Graph
