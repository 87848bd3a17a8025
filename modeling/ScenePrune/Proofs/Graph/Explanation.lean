import Mathlib.Data.List.Forall2
import ScenePrune.Proofs.Graph.Exactness
import ScenePrune.Report

/-! # A report explains why its nodes are dead

Every node is either counted as kept or has an entry, which lists each of its edges in either direction.
What is dead although a live node depends on it hangs on edges that could not be followed.
-/
namespace ScenePrune

namespace Graph

def Joined (g : Graph) : Prop := ∀ e ∈ g.edges, (g.node? e.source).isSome ∧ (g.node? e.target).isSome

section Joined
variable {g : Graph}

theorem Joined.empty : (∅ : Graph).Joined := by
  intro e he
  cases he

theorem Joined.addNode (h : g.Joined) (n : GraphNode) : (g.addNode n).Joined := by
  have hold : ∀ i, (g.node? i).isSome → ((g.addNode n).node? i).isSome := by
    intro i hi
    obtain ⟨m, hm⟩ := Option.isSome_iff_exists.mp hi
    have hslot : g.slots[i]? = some (some m) := Option.join_eq_some_iff.mp hm
    have hlt := (List.getElem?_eq_some_iff.mp hslot).1
    rw [Graph.node?, Graph.addNode, List.getElem?_append_left hlt, hslot]
    rfl
  intro e he
  exact (h e he).imp (hold _) (hold _)

theorem Joined.addEdge (h : g.Joined) {e : Edge} (hs : (g.node? e.source).isSome)
    (ht : (g.node? e.target).isSome) : (g.addEdge e).Joined := by
  intro e' he'
  rcases List.mem_append.mp he' with he' | he'
  · exact h e' he'
  · obtain rfl := List.mem_singleton.mp he'
    exact ⟨hs, ht⟩

/-- A node goes with its edges. -/
theorem Joined.removeNode (h : g.Joined) (i : Nat) : (g.removeNode i).Joined := by
  have hother : ∀ j, j ≠ i → (g.removeNode i).node? j = g.node? j := by
    intro j hj
    simp [Graph.node?, Graph.removeNode, Ne.symm hj]
  intro e he
  obtain ⟨he, hends⟩ := List.mem_filter.mp he
  have hends : e.source ≠ i ∧ e.target ≠ i := by simpa using hends
  rw [hother _ hends.1, hother _ hends.2]
  exact h e he

end Joined

end Graph

structure Neighbour.Describes (g : Graph) (l : Liveness) (e : Edge) (other : Nat) (nb : Neighbour) : Prop where
  node : ∃ n, g.node? other = some n ∧ nb.node = n.id
  kind : nb.kind = e.kind
  qualifiers : nb.qualifiers = e.qualifiers
  live : nb.live = l.isLive nb.node

/-- The edge could not be followed, as its source is never active, or as it asks for an active target
and its target never is. -/
def Edge.Blocked (t : ActivenessTable) (e : Edge) : Prop :=
  (e.qualifiers.evenIfSourceDisabled = false ∧ t.get e.source = .alwaysInactive) ∨
    (e.qualifiers.onlyIfTargetCanBeEnabled = true ∧ t.get e.target = .alwaysInactive)

section Blocked
variable {t : ActivenessTable} {e : Edge}

theorem Edge.blocked_iff_not_canHold : e.Blocked t ↔ ¬ e.CanHold t := by
  unfold Edge.Blocked Edge.CanHold
  rw [not_and_or, not_or, not_or, not_not, not_not, Bool.not_eq_true, Bool.not_eq_false]

/-- An edge with the qualifiers of a hierarchy or a mutation edge can always be followed. -/
theorem Edge.Blocked.qualifiers_ne (h : e.Blocked t) : e.qualifiers ≠ .evenIfDisabled := by
  intro he
  rw [Edge.Blocked, he] at h
  simp [Qualifiers.evenIfDisabled] at h

end Blocked

namespace Report
variable {g : Graph} {t : ActivenessTable} {l : Liveness} {ds : List Diagnostic}

theorem describes_summarize {other : Edge → Nat} {edges : List Edge}
    (h : ∀ e ∈ edges, (g.node? (other e)).isSome) :
    List.Forall₂ (fun e nb => nb.Describes g l e (other e)) edges (summarize g l other edges) := by
  induction edges with
  | nil => exact .nil
  | cons e edges ih =>
    obtain ⟨n, hn⟩ := Option.isSome_iff_exists.mp (h e List.mem_cons_self)
    have ih := ih fun e' he' => h e' (List.mem_cons_of_mem _ he')
    rw [summarize, List.filterMap_cons, hn]
    exact .cons ⟨⟨n, hn, rfl⟩, rfl, rfl, rfl⟩ ih

theorem perm_pruned : (build g t l ds).pruned.Perm
    ((g.nodesWithIndex.filter fun (_, n) => l.isDead n.id).map fun (i, n) => explain g t l i n) :=
  List.mergeSort_perm _ _

theorem mem_pruned {d : DeadNode} : d ∈ (build g t l ds).pruned ↔
    ∃ i n, (g.node? i = some n ∧ l.isDead n.id = true) ∧ d = explain g t l i n := by
  simp only [perm_pruned.mem_iff, List.mem_map, List.mem_filter, Prod.exists, Graph.mem_nodesWithIndex]
  exact exists_congr fun i => exists_congr fun n => and_congr_right fun _ => eq_comm

/-- Every node is kept or has an entry. -/
theorem kept_add_pruned : (build g t l ds).kept + (build g t l ds).pruned.length = g.nodes.length := by
  have hkept : (build g t l ds).kept = g.nodesWithIndex.countP fun x => !l.isDead x.2.id := rfl
  have hpruned : (build g t l ds).pruned.length = g.nodesWithIndex.countP fun x => l.isDead x.2.id := by
    rw [perm_pruned.length_eq, List.length_map, List.countP_eq_length_filter]
  rw [hkept, hpruned, Graph.nodes_eq_map, List.length_map, Nat.add_comm,
    List.length_eq_countP_add_countP fun x => l.isDead x.2.id]
  simp

theorem pruned_sorted (hg : g.DistinctIds) : ((build g t l ds).pruned.map (·.node)).Pairwise (· < ·) := by
  apply pairwise_lt_mergeSort DeadNode.node
  have hids : ((g.nodesWithIndex.filter fun (_, n) => l.isDead n.id).map fun (i, n) => explain g t l i n).map
      DeadNode.node = ((g.nodesWithIndex.filter fun (_, n) => l.isDead n.id).map Prod.snd).map (·.id) := by
    rw [List.map_map, List.map_map]
    rfl
  rw [Graph.DistinctIds, Graph.nodes_eq_map] at hg
  rw [hids]
  exact hg.sublist ((List.filter_sublist.map _).map _)

/-- An entrypoint is never dead. -/
theorem entrypoint?_of_isDead (hg : g.DistinctIds) {i : Nat} {n : GraphNode} (hn : g.node? i = some n)
    (hdead : (g.liveness t).isDead n.id = true) : n.entrypoint? = none := by
  rw [hg.isDead_iff (Graph.mem_nodes.mpr ⟨i, hn⟩)] at hdead
  cases hentry : n.entrypoint? with
  | none => rfl
  | some cause =>
    have hlive : (g.liveness t).isLive n.id = true :=
      (hg.isLive_iff hn).mpr (.entrypoint hn (by rw [hentry]; rfl))
    rw [hdead] at hlive
    cases hlive

/-- An edge from a live node to a dead one could not be followed. -/
theorem blocked_of_live_source (hg : g.DistinctIds) {e : Edge} (he : e ∈ g.edges) {source target : GraphNode}
    (hs : g.node? e.source = some source) (ht : g.node? e.target = some target)
    (hlive : (g.liveness t).isLive source.id = true) (hdead : (g.liveness t).isDead target.id = true) :
    e.Blocked t := by
  rw [hg.isDead_iff (Graph.mem_nodes.mpr ⟨_, ht⟩)] at hdead
  rw [Edge.blocked_iff_not_canHold, ← Edge.isTraversable_iff]
  intro htraversable
  have htarget := Graph.Reaches.edge ((hg.isLive_iff hs).mp hlive) he htraversable (by rw [ht]; rfl)
  rw [(hg.isLive_iff ht).mpr htarget] at hdead
  cases hdead

theorem mem_map_pruned (hg : g.DistinctIds) {id : NodeId} :
    id ∈ (build g t (g.liveness t) ds).pruned.map (·.node) ↔ (g.liveness t).verdict? id = some .dead := by
  simp only [List.mem_map, mem_pruned]
  constructor
  · rintro ⟨d, ⟨i, n, ⟨-, hdead⟩, rfl⟩, rfl⟩
    exact of_decide_eq_true hdead
  · intro hverdict
    obtain ⟨n, hn, rfl⟩ := hg.exists_of_verdict? hverdict
    obtain ⟨i, hi⟩ := Graph.mem_nodes.mp hn
    exact ⟨_, ⟨i, n, ⟨hi, decide_eq_true hverdict⟩, rfl⟩, rfl⟩

/-- Of the nodes of a graph the report lists the dead ones, ids ascending, and counts the others. The entry
of a dead node names each of its edges from the newest to the oldest, and where a live node depends on it
the edge could not be followed. -/
theorem build_explains (hg : g.DistinctIds) (hj : g.Joined) (t : ActivenessTable) (ds : List Diagnostic) :
    let l := g.liveness t
    let r := build g t l ds
    r.kept + r.pruned.length = g.nodes.length ∧
    (r.pruned.map (·.node)).Pairwise (· < ·) ∧
    (∀ id, id ∈ r.pruned.map (·.node) ↔ l.verdict? id = some .dead) ∧
    (∀ d ∈ r.pruned, d.entrypoint? = none) ∧
    ∀ i n, g.node? i = some n → l.verdict? n.id = some .dead → ∃ d ∈ r.pruned,
      d.node = n.id ∧ d.type = n.type ∧ d.kind = n.kind ∧ d.activeness = t.get i ∧ d.entrypoint? = n.entrypoint? ∧
      List.Forall₂ (fun e nb => nb.Describes g l e e.target) (g.edges.filter (·.source = i)).reverse d.dependencies ∧
      List.Forall₂ (fun e nb => nb.Describes g l e e.source ∧ (nb.live = true → e.Blocked t ∧
          e.qualifiers ≠ EdgeKind.hierarchy.defaultQualifiers ∧ e.qualifiers ≠ EdgeKind.mutation.defaultQualifiers))
        (g.edges.filter (·.target = i)).reverse d.dependents := by
  intro l r
  refine ⟨kept_add_pruned, pruned_sorted hg, fun id => mem_map_pruned hg, fun d hd => ?_, fun i n hn hdead => ?_⟩
  · obtain ⟨i, n, ⟨hn, hdead⟩, rfl⟩ := mem_pruned.mp hd
    exact entrypoint?_of_isDead hg hn hdead
  have hmem : ∀ {e : Edge} {p : Edge → Bool}, e ∈ (g.edges.filter p).reverse → e ∈ g.edges ∧ p e = true := by
    intro e p he
    exact List.mem_filter.mp (List.mem_reverse.mp he)
  have hdead : l.isDead n.id = true := decide_eq_true hdead
  refine ⟨explain g t l i n, mem_pruned.mpr ⟨i, n, ⟨hn, hdead⟩, rfl⟩, rfl, rfl, rfl, rfl, rfl,
    describes_summarize fun e he => (hj e (hmem he).1).2, ?_⟩
  have hdependents : List.Forall₂ (fun e nb => (e ∈ g.edges ∧ e.target = i) ∧ nb.Describes g l e e.source)
      (g.edges.filter (·.target = i)).reverse (explain g t l i n).dependents :=
    (List.forall₂_and_left _ _).mpr
      ⟨fun e he => (hmem he).imp_right of_decide_eq_true, describes_summarize fun e he => (hj e (hmem he).1).1⟩
  refine hdependents.imp ?_
  rintro e nb ⟨⟨he, rfl⟩, hdescribes⟩
  refine ⟨hdescribes, fun hnb => ?_⟩
  obtain ⟨source, hs, hid⟩ := hdescribes.node
  have hsource : l.isLive source.id = true := by rw [← hid, ← hdescribes.live, hnb]
  have hblocked := blocked_of_live_source hg he hs hn hsource hdead
  exact ⟨hblocked, hblocked.qualifiers_ne, hblocked.qualifiers_ne⟩

/-- Once the node 2 is removed, the constraint 3 has an edge to itself, one to its parent, and one from the
animator 0, which only holds while the constraint can be enabled. -/
def ruin : Graph :=
  (∅ : Graph)
    |>.addNode { id := 7, type := "Animator", kind := .component, enabled := true, entrypoint? := some .declared }
    |>.addNode { id := 3, type := "Transform", kind := .transform, enabled := true }
    |>.addNode { id := 4, type := "Transform", kind := .transform, enabled := true }
    |>.addNode { id := 5, type := "Constraint", kind := .component, parent? := some 1, enabled := false }
    |>.addEdge ⟨0, 3, .dependency, .onlyIfEnabled⟩
    |>.addEdge ⟨3, 3, .dependency, .plain⟩
    |>.addEdge ⟨3, 1, .hierarchy, .evenIfDisabled⟩
    |>.addEdge ⟨0, 2, .dependency, .plain⟩
    |>.removeNode 2

def ruinTable : ActivenessTable := ⟨.ofList [(0, .alwaysActive), (3, .alwaysInactive)]⟩

/-- The only edge out of the entrypoint does not count, as its target is never active. -/
theorem eq_zero_of_reaches_ruin {i : Nat} (h : ruin.Reaches (fun e => e.isTraversable ruinTable = true) i) : i = 0 := by
  have hedges : ruin.edges = [⟨0, 3, .dependency, .onlyIfEnabled⟩, ⟨3, 3, .dependency, .plain⟩,
    ⟨3, 1, .hierarchy, .evenIfDisabled⟩] := rfl
  induction h with
  | @entrypoint i n hn hentry =>
    rcases i with _ | _ | _ | _ | i
    · rfl
    all_goals cases hn
    all_goals cases hentry
  | @edge e _ he hcounts _ ih =>
    rw [hedges, List.mem_cons, List.mem_cons, List.mem_singleton] at he
    rcases he with rfl | rfl | rfl
    · cases hcounts
    · cases ih
    · cases ih

/-- The constraint is dead, and its entry names two edges in either direction. -/
theorem build_explains_ruin : ruin.DistinctIds ∧ ruin.Joined ∧
    ∃ d ∈ (build ruin ruinTable (ruin.liveness ruinTable) []).pruned, d.node = 5 ∧ d.entrypoint? = none ∧
      d.dependencies.length = 2 ∧ d.dependents.length = 2 := by
  have hg : ruin.DistinctIds := show (ruin.nodes.map (·.id)).Nodup by decide
  have hj : ruin.Joined :=
    Graph.Joined.empty.addNode _ |>.addNode _ |>.addNode _ |>.addNode _ |>.addEdge rfl rfl |>.addEdge rfl rfl
      |>.addEdge rfl rfl |>.addEdge rfl rfl |>.removeNode 2
  have hn : ruin.node? 3 =
      some { id := 5, type := "Constraint", kind := .component, parent? := some 1, enabled := false } := rfl
  have hlive : (ruin.liveness ruinTable).isLive 5 ≠ true := by
    intro hlive
    exact absurd (eq_zero_of_reaches_ruin ((hg.isLive_iff hn).mp hlive)) (by decide)
  have hdead : (ruin.liveness ruinTable).isDead 5 = true :=
    (hg.isDead_iff (Graph.mem_nodes.mpr ⟨3, hn⟩)).mpr (Bool.eq_false_of_not_eq_true hlive)
  obtain ⟨-, -, -, hentrypoint, hentry⟩ := build_explains hg hj ruinTable []
  obtain ⟨d, hd, hnode, -, -, -, -, hdependencies, hdependents⟩ := hentry 3 _ hn (of_decide_eq_true hdead)
  refine ⟨hg, hj, d, hd, hnode, hentrypoint d hd, ?_, ?_⟩
  · exact hdependencies.length_eq.symm
  · exact hdependents.length_eq.symm

end Report

end ScenePrune
