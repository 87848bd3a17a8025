import ScenePrune.Proofs.Graph.Exactness

/-! # Verdicts where ids repeat

Verdicts are kept by id, and the first node of an id takes the reason away from the others. So an id has
the verdict that its position earns only if a single node carries it. An id that several nodes carry is
dead, whatever reaches them and even if they are entrypoints.
-/
namespace ScenePrune.Graph

variable {g : Graph} {t : ActivenessTable} {reasons : OrderedMap NodeId Reason} {id : NodeId}

def verdictAmong (reasons : OrderedMap NodeId Reason) (id : NodeId) : Nat → Option Verdict
  | 0 => none
  | 1 => some (verdictOf reasons id)
  | _ + 2 => some .dead

theorem verdictAmong_erase_of_ne {other : NodeId} (h : id ≠ other) (k : Nat) :
    verdictAmong (reasons.erase other) id k = verdictAmong reasons id k := by
  rcases k with _ | _ | k
  · rfl
  · rw [verdictAmong, verdictOf_erase h, verdictAmong]
  · rfl

/-- Once the reason of an id is taken, no further node of it gets one. -/
theorem verdictAmong_erase_self (k : Nat) :
    (verdictAmong (reasons.erase id) id k).or (some (verdictOf reasons id)) = verdictAmong reasons id (k + 1) := by
  rcases k with _ | _ | k
  · rfl
  · simp [verdictAmong, verdictOf]
  · rfl

theorem lookup_judge (reasons : OrderedMap NodeId Reason) (nodes : List GraphNode) :
    (judge reasons nodes).reverse.lookup id = verdictAmong reasons id (nodes.countP (·.id = id)) := by
  induction nodes generalizing reasons with
  | nil => rfl
  | cons n rest ih =>
    rw [judge_cons, List.reverse_cons, List.lookup_append, ih]
    by_cases hn : n.id = id
    · subst hn
      have hlast : [(n.id, verdictOf reasons n.id)].lookup n.id = some (verdictOf reasons n.id) := by simp
      rw [List.countP_cons_of_pos (by simp), hlast, verdictAmong_erase_self]
    · have hlast : [(n.id, verdictOf reasons n.id)].lookup id = none := by
        simpa [List.lookup_eq_none_iff] using Ne.symm hn
      rw [List.countP_cons_of_neg (by simpa using hn), hlast, Option.or_none, verdictAmong_erase_of_ne (Ne.symm hn)]

/-- The verdict of an id depends on the number of nodes that carry it. -/
theorem verdict?_eq_verdictAmong :
    (g.liveness t).verdict? id = verdictAmong (g.reasons t) id (g.nodes.countP (·.id = id)) := by
  have hperm := (List.mergeSort_perm (OrderedMap.ofList (judge (g.reasons t) g.nodes)).entries
    fun a b => decide (a.1 ≤ b.1)).symm
  rw [← lookup_judge, ← OrderedMap.get?_ofList]
  exact lookup_eq_of_perm (OrderedMap.nodup_keys_ofList _) hperm id

theorem isSome_reason_iff : ((g.reasons t).get? id).isSome ↔
    ∃ i n, g.node? i = some n ∧ n.id = id ∧ g.Reaches (Edge.CanHold t) i := by
  have htraversable : (fun e : Edge => e.isTraversable t = true) = Edge.CanHold t :=
    funext fun e => propext Edge.isTraversable_iff
  rw [reasons, OrderedMap.isSome_get?_ofList, ← htraversable]
  constructor
  · intro h
    obtain ⟨_, hx, rfl⟩ := List.mem_map.mp h
    obtain ⟨⟨i, reason⟩, hi, hx⟩ := List.mem_filterMap.mp hx
    obtain ⟨n, hn, rfl⟩ := Option.map_eq_some_iff.mp hx
    exact ⟨i, n, hn, rfl, mem_reach_iff.mp (List.mem_map_of_mem hi)⟩
  · rintro ⟨i, n, hn, rfl, hi⟩
    obtain ⟨x, hx, rfl⟩ := List.mem_map.mp (mem_reach_iff.mpr hi)
    exact List.mem_map.mpr ⟨(n.id, x.2), List.mem_filterMap.mpr ⟨x, hx, by simp [hn]⟩, rfl⟩

/-- An id is live just if a single node carries it and that node is reached. -/
theorem isLive_iff_single : (g.liveness t).isLive id = true ↔ g.nodes.countP (·.id = id) = 1 ∧
    ∃ i n, g.node? i = some n ∧ n.id = id ∧ g.Reaches (Edge.CanHold t) i := by
  rw [Liveness.isLive, verdict?_eq_verdictAmong, ← isSome_reason_iff]
  generalize g.nodes.countP (·.id = id) = k
  rcases k with _ | _ | k
  · simp [verdictAmong]
  · simp [verdictAmong, isLive_verdictOf]
  · simp [verdictAmong, Verdict.isLive]

theorem isDead_iff_not_isLive : (g.liveness t).isDead id = true ↔
    (∃ n ∈ g.nodes, n.id = id) ∧ (g.liveness t).isLive id = false := by
  have hpos : (∃ n ∈ g.nodes, n.id = id) ↔ 0 < g.nodes.countP (·.id = id) := by simp
  rw [hpos, Liveness.isDead, Liveness.isLive, verdict?_eq_verdictAmong]
  generalize g.nodes.countP (·.id = id) = k
  rcases k with _ | _ | k
  · simp [verdictAmong]
  · generalize hverdict : verdictOf (g.reasons t) id = verdict
    cases verdict <;> simp [verdictAmong, hverdict, Verdict.isLive]
  · simp [verdictAmong, Verdict.isLive]

end ScenePrune.Graph
