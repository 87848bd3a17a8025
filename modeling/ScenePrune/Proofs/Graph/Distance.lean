import ScenePrune.Proofs.Distance
import ScenePrune.Proofs.Graph.Exactness

/-! # Reasons are shortest ways from an entrypoint

The traversal goes level by level, so the nodes of a level are those at one distance from the
entrypoints, counted in edges that can hold. The reason of a node is written when its level is built and
never again: it names a node of the level before. Following the reasons back therefore takes as many
steps as the shortest way.
-/
namespace ScenePrune

/-- Following the reasons from a node, one comes to an entrypoint after so many steps. -/
inductive Liveness.TracesBack (l : Liveness) : Nat → NodeId → Prop where
  | entrypoint {id : NodeId} {cause : EntrypointCause} : l.reason? id = some (.entrypoint cause) →
      TracesBack l 0 id
  | edge {d : Nat} {id source : NodeId} {kind : EdgeKind} : l.reason? id = some (.edge source kind) →
      TracesBack l d source → TracesBack l (d + 1) id

def Liveness.LivesOn (l : Liveness) (id source : NodeId) : Prop := ∃ kind, l.reason? id = some (.edge source kind)

namespace Liveness
variable {l : Liveness} {id source : NodeId} {d k : Nat}

theorem isLive_eq_isSome_reason? (l : Liveness) (id : NodeId) : l.isLive id = (l.reason? id).isSome := by
  unfold isLive reason?
  rcases l.verdict? id with _ | _ | _ <;> rfl

theorem TracesBack.isLive (h : l.TracesBack d id) : l.isLive id = true := by
  rw [isLive_eq_isSome_reason?]
  cases h with
  | entrypoint h => rw [h]; rfl
  | edge h _ => rw [h]; rfl

theorem TracesBack.of_livesOn (h : l.TracesBack d id) (hon : l.LivesOn id source) :
    ∃ k < d, l.TracesBack k source := by
  obtain ⟨kind, hon⟩ := hon
  cases h with
  | entrypoint h => cases h.symm.trans hon
  | edge h hsource =>
    cases h.symm.trans hon
    exact ⟨_, Nat.lt_succ_self _, hsource⟩

theorem TracesBack.unique (h : l.TracesBack d id) (h' : l.TracesBack k id) : d = k := by
  induction h generalizing k with
  | entrypoint h =>
    cases h' with
    | entrypoint _ => rfl
    | edge h' _ => cases h.symm.trans h'
  | edge h _ ih =>
    cases h' with
    | entrypoint h' => cases h.symm.trans h'
    | edge h' hsource =>
      cases h.symm.trans h'
      rw [ih hsource]

theorem TracesBack.of_transGen (h : l.TracesBack d id) (hon : Relation.TransGen l.LivesOn id source) :
    ∃ k < d, l.TracesBack k source := by
  induction hon with
  | single hon => exact h.of_livesOn hon
  | tail _ hon ih =>
    obtain ⟨k, hk, hback⟩ := ih
    obtain ⟨k', hk', hback'⟩ := hback.of_livesOn hon
    exact ⟨k', hk'.trans hk, hback'⟩

end Liveness

namespace Graph

def IsEntrypoint (g : Graph) (i : Nat) : Prop := ∃ n, g.node? i = some n ∧ n.entrypoint?.isSome

def Leads (g : Graph) (t : ActivenessTable) (i j : Nat) : Prop :=
  ∃ e ∈ g.edges, e.source = i ∧ e.target = j ∧ e.CanHold t ∧ (g.node? j).isSome

variable {g : Graph} {t : ActivenessTable} {d : Nat} {fresh : List Nat} {level : List Reached}

theorem isSome_of_reachesIn {k i : Nat} (h : ReachesIn g.IsEntrypoint (g.Leads t) k i) : (g.node? i).isSome := by
  cases h with
  | start h =>
    obtain ⟨n, hn, -⟩ := h
    rw [hn]
    rfl
  | step _ h =>
    obtain ⟨e, -, -, -, -, hnode⟩ := h
    exact hnode

inductive Told (g : Graph) (t : ActivenessTable) : Nat → Reached → Prop where
  | entrypoint {i : Nat} {n : GraphNode} {cause : EntrypointCause} : g.node? i = some n →
      n.entrypoint? = some cause → Told g t 0 (i, .entrypoint cause)
  | edge {d : Nat} {e : Edge} {m : GraphNode} : e ∈ g.edges → e.CanHold t → g.node? e.source = some m →
      HasDistance g.IsEntrypoint (g.Leads t) d e.source →
      HasDistance g.IsEntrypoint (g.Leads t) (d + 1) e.target → Told g t (d + 1) (e.target, .edge m.id e.kind)

theorem Told.hasDistance {x : Reached} (h : g.Told t d x) : HasDistance g.IsEntrypoint (g.Leads t) d x.1 := by
  cases h with
  | entrypoint hn hcause => exact hasDistance_zero.mpr ⟨_, hn, by rw [hcause]; rfl⟩
  | edge _ _ _ _ h => exact h

/-- The level holds the positions at one distance, and what is fresh is further out. -/
structure Frontier (g : Graph) (t : ActivenessTable) (d : Nat) (fresh : List Nat) (level : List Reached) : Prop where
  further : ∀ i, i ∈ fresh ↔ (g.node? i).isSome ∧ ∀ k ≤ d, ¬ ReachesIn g.IsEntrypoint (g.Leads t) k i
  reached : ∀ i, i ∈ level.map Prod.fst ↔ HasDistance g.IsEntrypoint (g.Leads t) d i
  told : ∀ x ∈ level, g.Told t d x

theorem frontier_entrypoints (g : Graph) (t : ActivenessTable) :
    g.Frontier t 0 (remaining g.indices g.entrypoints) g.entrypoints where
  further := by
    intro i
    simp only [remaining, List.mem_filter, mem_indices, decide_eq_true_eq, mem_entrypoints, Nat.le_zero, forall_eq,
      reachesIn_zero]
    rfl
  reached := by
    intro i
    rw [mem_entrypoints, hasDistance_zero]
    rfl
  told := by
    intro x hx
    obtain ⟨⟨i, n⟩, hn, hx⟩ := List.mem_filterMap.mp hx
    obtain ⟨cause, hcause, rfl⟩ := Option.map_eq_some_iff.mp hx
    exact .entrypoint (mem_nodesWithIndex.mp hn) hcause

namespace Frontier

/-- The next level is one step further out: what the level leads to was fresh, and nothing else is that near. -/
theorem told_nextLevel (h : g.Frontier t d fresh level) {x : Reached} (hx : x ∈ g.nextLevel t fresh level) :
    g.Told t (d + 1) x := by
  obtain ⟨hfresh, y, hy, hxy⟩ := of_mem_nextLevel hx
  obtain ⟨m, hm, e, he, hs, hcan, rfl⟩ := mem_successors_iff.mp hxy
  obtain ⟨hnode, hfar⟩ := (h.further _).mp hfresh
  have hsource : HasDistance g.IsEntrypoint (g.Leads t) d e.source :=
    hs ▸ (h.reached _).mp (List.mem_map_of_mem hy)
  have hcan : e.CanHold t := Edge.isTraversable_iff.mp hcan
  exact .edge he hcan (hs ▸ hm) hsource (hsource.step ⟨e, he, rfl, rfl, hcan, hnode⟩ hfar)

theorem reached_nextLevel (h : g.Frontier t d fresh level) (i : Nat) :
    i ∈ (g.nextLevel t fresh level).map Prod.fst ↔ HasDistance g.IsEntrypoint (g.Leads t) (d + 1) i := by
  constructor
  · intro hi
    obtain ⟨x, hx, rfl⟩ := List.mem_map.mp hi
    exact (h.told_nextLevel hx).hasDistance
  · intro hi
    obtain ⟨j, hj, e, he, rfl, rfl, hcan, hnode⟩ := hi.exists_nearer
    have hfresh : e.target ∈ fresh := by
      refine (h.further _).mpr ⟨hnode, fun k hk hreaches => ?_⟩
      exact (hasDistance_iff.mp hi).2 k (Nat.lt_succ_of_le hk) hreaches
    refine mem_nextLevel ((h.reached _).mpr hj) (mem_successors.mpr ?_) hfresh
    exact ⟨isSome_of_reachesIn hj.reachesIn, e, he, rfl, Edge.isTraversable_iff.mpr hcan, rfl⟩

theorem step (h : g.Frontier t d fresh level) :
    g.Frontier t (d + 1) (remaining fresh (g.nextLevel t fresh level)) (g.nextLevel t fresh level) where
  further := by
    intro i
    rw [remaining, List.mem_filter, decide_eq_true_eq, h.further, h.reached_nextLevel, hasDistance_iff, and_assoc]
    refine and_congr_right fun _ => ?_
    constructor
    · rintro ⟨hfar, hnext⟩ k hk hreaches
      rcases Nat.le_succ_iff.mp hk with hk | rfl
      · exact hfar k hk hreaches
      · exact hnext ⟨hreaches, fun k hk => hfar k (Nat.le_of_lt_succ hk)⟩
    · intro hfar
      exact ⟨fun k hk => hfar k (Nat.le_succ_of_le hk), fun hnext => hfar (d + 1) le_rfl hnext.1⟩
  reached := h.reached_nextLevel
  told := fun _ => h.told_nextLevel

/-- Whatever a spread reaches, it says of it what there is to say at its distance. -/
theorem told_spread (h : g.Frontier t d fresh level) : ∀ x ∈ g.spread t fresh level, ∃ k, g.Told t k x := by
  induction fresh, level using spread.induct g t generalizing d with
  | case1 fresh level hnone =>
    rw [spread, if_pos hnone]
    exact fun x hx => ⟨d, h.told x hx⟩
  | case2 fresh level hsome ih =>
    rw [spread, if_neg hsome]
    intro x hx
    rcases List.mem_append.mp hx with hx | hx
    · exact ⟨d, h.told x hx⟩
    · exact ih h.step x hx

end Frontier

theorem told_reach {x : Reached} (hx : x ∈ g.reach t) : ∃ d, g.Told t d x :=
  (frontier_entrypoints g t).told_spread x hx

theorem reaches_of_reachesIn {i : Nat} (h : ReachesIn g.IsEntrypoint (g.Leads t) d i) : g.Reaches (Edge.CanHold t) i := by
  induction h with
  | start h =>
    obtain ⟨n, hn, hcause⟩ := h
    exact .entrypoint hn hcause
  | step _ hleads ih =>
    obtain ⟨e, he, rfl, rfl, hcan, hnode⟩ := hleads
    exact .edge ih he hcan hnode

section DistinctIds
variable {i : Nat} {n : GraphNode}

theorem DistinctIds.reason?_eq (hg : g.DistinctIds) (hn : g.node? i = some n) :
    (g.liveness t).reason? n.id = (g.reasons t).get? n.id := by
  rw [Liveness.reason?, hg.verdict?_eq (mem_nodes.mpr ⟨i, hn⟩), verdictOf]
  cases (g.reasons t).get? n.id <;> rfl

/-- A node has the reason that was noted when its position was reached. -/
theorem DistinctIds.told_of_reason? (hg : g.DistinctIds) (hn : g.node? i = some n) {reason : Reason}
    (h : (g.liveness t).reason? n.id = some reason) : ∃ d, g.Told t d (i, reason) := by
  rw [hg.reason?_eq hn, reasons, OrderedMap.get?_ofList] at h
  obtain ⟨⟨j, r⟩, hx, hnoted⟩ := List.mem_filterMap.mp (List.mem_reverse.mp (mem_of_lookup_eq_some h))
  obtain ⟨m, hm, hmn⟩ := Option.map_eq_some_iff.mp hnoted
  obtain ⟨hid, rfl⟩ := Prod.mk.inj hmn
  obtain rfl := hg.index_unique hm hn hid
  exact told_reach hx

theorem DistinctIds.exists_told (hg : g.DistinctIds) (hn : g.node? i = some n)
    (hlive : (g.liveness t).isLive n.id = true) :
    ∃ reason, (g.liveness t).reason? n.id = some reason ∧ ∃ d, g.Told t d (i, reason) := by
  rw [Liveness.isLive_eq_isSome_reason?] at hlive
  obtain ⟨reason, hreason⟩ := Option.isSome_iff_exists.mp hlive
  exact ⟨reason, hreason, hg.told_of_reason? hn hreason⟩

theorem DistinctIds.isLive_of_hasDistance (hg : g.DistinctIds) (hn : g.node? i = some n)
    (h : HasDistance g.IsEntrypoint (g.Leads t) d i) : (g.liveness t).isLive n.id = true := by
  refine (hg.isLive_iff hn).mpr ((reaches_of_reachesIn h.reachesIn).mono fun _ _ _ hcan => ?_)
  exact Edge.isTraversable_iff.mpr hcan

theorem DistinctIds.reason?_entrypoint_iff (hg : g.DistinctIds) (hn : g.node? i = some n) {cause : EntrypointCause} :
    (g.liveness t).reason? n.id = some (.entrypoint cause) ↔ n.entrypoint? = some cause := by
  constructor
  · intro h
    obtain ⟨d, htold⟩ := hg.told_of_reason? hn h
    cases htold with
    | entrypoint hm hcause =>
      cases hm.symm.trans hn
      exact hcause
  · intro h
    have hzero : HasDistance g.IsEntrypoint (g.Leads t) 0 i := hasDistance_zero.mpr ⟨n, hn, by rw [h]; rfl⟩
    obtain ⟨reason, hreason, d, htold⟩ := hg.exists_told hn (hg.isLive_of_hasDistance hn hzero)
    cases htold with
    | entrypoint hm hcause =>
      cases hm.symm.trans hn
      cases hcause.symm.trans h
      exact hreason
    | edge _ _ _ _ hfar => cases hfar.unique hzero

/-- The reasons lead back in as many steps as the node is away from the entrypoints. -/
theorem DistinctIds.tracesBack (hg : g.DistinctIds) (hn : g.node? i = some n)
    (h : HasDistance g.IsEntrypoint (g.Leads t) d i) : (g.liveness t).TracesBack d n.id := by
  induction d generalizing i n with
  | zero =>
    obtain ⟨reason, hreason, k, htold⟩ := hg.exists_told hn (hg.isLive_of_hasDistance hn h)
    cases htold with
    | entrypoint _ _ => exact .entrypoint hreason
    | edge _ _ _ _ hfar => cases hfar.unique h
  | succ d ih =>
    obtain ⟨reason, hreason, k, htold⟩ := hg.exists_told hn (hg.isLive_of_hasDistance hn h)
    cases htold with
    | entrypoint hm hcause => cases (Told.entrypoint hm hcause).hasDistance.unique h
    | edge _ _ hm hnear hfar =>
      cases hfar.unique h
      exact .edge hreason (ih hm hnear)

theorem DistinctIds.exists_hasDistance (hg : g.DistinctIds) (hn : g.node? i = some n)
    (hlive : (g.liveness t).isLive n.id = true) : ∃ d, HasDistance g.IsEntrypoint (g.Leads t) d i := by
  obtain ⟨_, _, d, htold⟩ := hg.exists_told hn hlive
  exact ⟨d, htold.hasDistance⟩

theorem DistinctIds.tracesBack_iff (hg : g.DistinctIds) (hn : g.node? i = some n) :
    (g.liveness t).TracesBack d n.id ↔ HasDistance g.IsEntrypoint (g.Leads t) d i := by
  constructor
  · intro h
    obtain ⟨k, hk⟩ := hg.exists_hasDistance hn h.isLive
    rw [h.unique (hg.tracesBack hn hk)]
    exact hk
  · exact hg.tracesBack hn

theorem DistinctIds.not_transGen_livesOn (hg : g.DistinctIds) (id : NodeId) :
    ¬ Relation.TransGen (g.liveness t).LivesOn id id := by
  intro h
  obtain ⟨source, ⟨kind, hreason⟩, -⟩ := Relation.TransGen.head'_iff.mp h
  have hlive : (g.liveness t).isLive id = true := by
    rw [Liveness.isLive_eq_isSome_reason?, hreason]
    rfl
  obtain ⟨n, hn, rfl⟩ := hg.exists_of_isLive hlive
  obtain ⟨i, hi⟩ := mem_nodes.mp hn
  obtain ⟨d, hd⟩ := hg.exists_hasDistance hi hlive
  obtain ⟨k, hk, hback⟩ := (hg.tracesBack hi hd).of_transGen h
  exact hk.ne (hback.unique (hg.tracesBack hi hd))

/-- The reason of a node is an entrypoint's just if the node is one. Any other reason names a live node and
an edge from it that can hold. The way back along the reasons of a live node, and no node but a live one has
any, is as long as the shortest way from an entrypoint to it; so the reasons form no cycle. -/
theorem DistinctIds.reasons_shortest (hg : g.DistinctIds) (t : ActivenessTable) :
    let l := g.liveness t
    (∀ i n, g.node? i = some n →
      (∀ cause, l.reason? n.id = some (.entrypoint cause) ↔ n.entrypoint? = some cause) ∧
      (∀ source kind, l.reason? n.id = some (.edge source kind) → l.isLive source = true ∧
        ∃ e ∈ g.edges, e.CanHold t ∧ e.kind = kind ∧ e.target = i ∧ ∃ m, g.node? e.source = some m ∧ m.id = source) ∧
      (l.isLive n.id = true → ∃ d, HasDistance g.IsEntrypoint (g.Leads t) d i) ∧
      ∀ d, l.TracesBack d n.id ↔ HasDistance g.IsEntrypoint (g.Leads t) d i) ∧
    ∀ id, ¬ Relation.TransGen l.LivesOn id id := by
  intro l
  refine ⟨fun i n hn => ⟨fun cause => hg.reason?_entrypoint_iff hn, fun source kind h => ?_,
    hg.exists_hasDistance hn, fun d => hg.tracesBack_iff hn⟩, hg.not_transGen_livesOn⟩
  obtain ⟨d, htold⟩ := hg.told_of_reason? hn h
  cases htold with
  | edge he hcan hm hnear hfar => exact ⟨hg.isLive_of_hasDistance hm hnear, _, he, hcan, rfl, rfl, _, hm, rfl⟩

end DistinctIds

/-- Position 3 is two steps out: the entrypoint has no edge to it, and its neighbour has one that can hold
beside the one that cannot. -/
theorem hasDistance_tangle : HasDistance tangle.IsEntrypoint (tangle.Leads tangleTable) 2 3 := by
  have hentry : ∀ i, tangle.IsEntrypoint i → i = 0 := by
    rintro i ⟨n, hn, hcause⟩
    rcases i with _ | _ | _ | _ | _ | i
    · rfl
    · cases hn
      cases hcause
    · cases hn
    · cases hn
      cases hcause
    · cases hn
      cases hcause
    · cases hn
  have h0 : ReachesIn tangle.IsEntrypoint (tangle.Leads tangleTable) 0 0 := .start ⟨_, rfl, rfl⟩
  have h1 : ReachesIn tangle.IsEntrypoint (tangle.Leads tangleTable) 1 1 :=
    h0.step ⟨⟨0, 1, .dependency, .plain⟩, by decide, rfl, rfl, ⟨Or.inr (by decide), Or.inl rfl⟩, rfl⟩
  have h2 : ReachesIn tangle.IsEntrypoint (tangle.Leads tangleTable) 2 3 :=
    h1.step ⟨⟨1, 3, .dependency, .plain⟩, by decide, rfl, rfl, ⟨Or.inr (by decide), Or.inl rfl⟩, rfl⟩
  refine hasDistance_iff.mpr ⟨h2, fun k hk hreaches => ?_⟩
  have hcases : k = 0 ∨ k = 1 := by omega
  rcases hcases with rfl | rfl
  · cases hentry 3 (reachesIn_zero.mp hreaches)
  · cases hreaches with
    | step h hleads =>
      obtain ⟨e, he, hs, ht, -, -⟩ := hleads
      obtain rfl := hentry _ (reachesIn_zero.mp h)
      exact absurd ht ((by decide : ∀ e ∈ tangle.edges, e.source = 0 → e.target ≠ 3) e he hs)

/-- The reason of the entrypoint is its own, and two reasons lead back to it from the node at position 3. -/
theorem reasons_shortest_tangle : tangle.DistinctIds ∧
    (tangle.liveness tangleTable).reason? 7 = some (.entrypoint .declared) ∧
    (tangle.liveness tangleTable).TracesBack 2 5 := by
  have hg : tangle.DistinctIds := by simp [DistinctIds, nodes, tangle]
  obtain ⟨hreasons, -⟩ := hg.reasons_shortest tangleTable
  obtain ⟨hentry, -, -, -⟩ := hreasons 0 _ rfl
  obtain ⟨-, -, -, hback⟩ := hreasons 3 _ rfl
  exact ⟨hg, (hentry .declared).mpr rfl, (hback 2).mpr hasDistance_tangle⟩

end Graph

end ScenePrune
