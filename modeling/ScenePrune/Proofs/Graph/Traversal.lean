import Mathlib.Data.List.Nodup
import ScenePrune.Liveness

/-! # What a traversal reaches

`Graph.Reaches` is reachability from the entrypoints through the edges that count, stated without
an order of traversal. The level-by-level spread reaches exactly these positions: it mentions no
other, and what it has mentioned is closed under the edges that count.
-/
namespace ScenePrune.Graph

inductive Reaches (g : Graph) (counts : Edge → Prop) : Nat → Prop where
  | entrypoint {i : Nat} {n : GraphNode} : g.node? i = some n → n.entrypoint?.isSome → Reaches g counts i
  | edge {e : Edge} : Reaches g counts e.source → e ∈ g.edges → counts e →
      (g.node? e.target).isSome → Reaches g counts e.target

variable {g : Graph} {counts counts' : Edge → Prop} {activeness : ActivenessTable}

theorem Reaches.isSome_node? {i : Nat} (h : g.Reaches counts i) : (g.node? i).isSome := by
  cases h with
  | entrypoint hn _ => simp [hn]
  | edge _ _ _ ht => exact ht

/-- Only the edges that leave reachable nodes have to count for more to be reached. -/
theorem Reaches.mono {i : Nat} (h : g.Reaches counts i)
    (hc : ∀ e ∈ g.edges, g.Reaches counts e.source → counts e → counts' e) : g.Reaches counts' i := by
  induction h with
  | entrypoint hn he => exact .entrypoint hn he
  | edge hs he hcount ht ih => exact .edge ih he (hc _ he hs hcount) ht

theorem mem_nodesWithIndex {i : Nat} {n : GraphNode} :
    (i, n) ∈ g.nodesWithIndex ↔ g.node? i = some n := by
  simp only [nodesWithIndex, List.mem_filterMap, Prod.exists, Option.map_eq_some_iff, Prod.mk.injEq,
    List.mem_zipIdx_iff_getElem?, node?]
  constructor
  · rintro ⟨slot, j, hslot, m, rfl, rfl, rfl⟩
    simp [hslot]
  · intro h
    exact ⟨some n, i, by simpa [Option.join_eq_some_iff] using h, n, rfl, rfl, rfl⟩

theorem mem_indices {i : Nat} : i ∈ g.indices ↔ (g.node? i).isSome := by
  simp only [indices, List.mem_map, Prod.exists, mem_nodesWithIndex, Option.isSome_iff_exists]
  exact ⟨fun ⟨_, n, h, hi⟩ => ⟨n, hi ▸ h⟩, fun ⟨n, h⟩ => ⟨i, n, h, rfl⟩⟩

theorem mem_entrypoints {i : Nat} : i ∈ g.entrypoints.map Prod.fst ↔
    ∃ n, g.node? i = some n ∧ n.entrypoint?.isSome := by
  simp only [entrypoints, List.mem_map, List.mem_filterMap, Option.map_eq_some_iff, Prod.exists,
    mem_nodesWithIndex, Option.isSome_iff_exists]
  constructor
  · rintro ⟨_, _, ⟨j, n, hn, cause, hc, he⟩, rfl⟩
    obtain ⟨rfl, -⟩ := Prod.mk.inj he
    exact ⟨n, hn, cause, hc⟩
  · rintro ⟨n, hn, cause, hc⟩
    exact ⟨i, .entrypoint cause, ⟨i, n, hn, cause, hc, rfl⟩, rfl⟩

theorem mem_successors_iff {i : Nat} {x : Reached} : x ∈ g.successors activeness i ↔
    ∃ n, g.node? i = some n ∧ ∃ e ∈ g.edges, e.source = i ∧ e.isTraversable activeness = true ∧
      x = (e.target, .edge n.id e.kind) := by
  unfold successors
  cases g.node? i with
  | none => simp
  | some n =>
    simp only [outgoing, List.mem_map, List.mem_filter, List.mem_reverse, decide_eq_true_eq, Option.some.injEq,
      exists_eq_left']
    constructor
    · rintro ⟨e, ⟨⟨he, hs⟩, ht⟩, rfl⟩
      exact ⟨e, he, hs, ht, rfl⟩
    · rintro ⟨e, he, hs, ht, rfl⟩
      exact ⟨e, ⟨⟨he, hs⟩, ht⟩, rfl⟩

theorem mem_successors {i j : Nat} : j ∈ (g.successors activeness i).map Prod.fst ↔
    (g.node? i).isSome ∧ ∃ e ∈ g.edges, e.source = i ∧ e.isTraversable activeness ∧ e.target = j := by
  simp only [List.mem_map, mem_successors_iff, Option.isSome_iff_exists]
  constructor
  · rintro ⟨_, ⟨n, hn, e, he, hs, ht, rfl⟩, rfl⟩
    exact ⟨⟨n, hn⟩, e, he, hs, ht, rfl⟩
  · rintro ⟨⟨n, hn⟩, e, he, hs, ht, rfl⟩
    exact ⟨_, ⟨n, hn, e, he, hs, ht, rfl⟩, rfl⟩

theorem mem_firstMentions {fresh : List Nat} {l : List Reached} {i : Nat} (hi : i ∈ fresh)
    (hl : i ∈ l.map Prod.fst) : i ∈ (firstMentions fresh l).map Prod.fst := by
  induction l generalizing fresh with
  | nil => simp at hl
  | cons x l ih =>
    obtain ⟨j, reason⟩ := x
    rcases List.mem_cons.mp hl with rfl | hl
    · simp [firstMentions, hi]
    · by_cases hj : j ∈ fresh
      · by_cases hij : i = j
        · simp [firstMentions, hj, hij]
        · have h := ih ((List.mem_erase_of_ne hij).mpr hi) hl
          simpa [firstMentions, hj] using Or.inr h
      · simpa [firstMentions, hj] using ih hi hl

theorem firstMentions_sublist (fresh : List Nat) (l : List Reached) :
    (firstMentions fresh l).Sublist l := by
  induction l generalizing fresh with
  | nil => exact List.Sublist.slnil
  | cons x l ih =>
    obtain ⟨j, reason⟩ := x
    unfold firstMentions
    split
    · exact (ih _).cons_cons _
    · exact (ih _).cons _

theorem mem_nextLevel {fresh : List Nat} {level : List Reached} {i j : Nat}
    (hi : i ∈ level.map Prod.fst) (hs : j ∈ (g.successors activeness i).map Prod.fst) (hj : j ∈ fresh) :
    j ∈ (g.nextLevel activeness fresh level).map Prod.fst := by
  apply mem_firstMentions hj
  obtain ⟨x, hx, rfl⟩ := List.mem_map.mp hi
  obtain ⟨y, hy, rfl⟩ := List.mem_map.mp hs
  exact List.mem_map_of_mem (List.mem_flatMap.mpr ⟨x, hx, hy⟩)

theorem of_mem_nextLevel {fresh : List Nat} {level : List Reached} {x : Reached}
    (hx : x ∈ g.nextLevel activeness fresh level) :
    x.1 ∈ fresh ∧ ∃ y ∈ level, x ∈ g.successors activeness y.1 := by
  refine ⟨firstMentions_subset _ _ _ hx, ?_⟩
  exact List.mem_flatMap.mp ((firstMentions_sublist _ _).subset hx)

theorem mem_spread_of_mem_level {fresh : List Nat} {level : List Reached} {x : Reached}
    (hx : x ∈ level) : x ∈ g.spread activeness fresh level := by
  rw [spread]
  split
  · exact hx
  · exact List.mem_append_left _ hx

/-- A spread leaves no fresh neighbour of what it reaches behind. -/
theorem spread_closed {fresh : List Nat} {level : List Reached} {i j : Nat}
    (hi : i ∈ (g.spread activeness fresh level).map Prod.fst)
    (hs : j ∈ (g.successors activeness i).map Prod.fst) (hj : j ∈ fresh) :
    j ∈ (g.spread activeness fresh level).map Prod.fst := by
  induction fresh, level using spread.induct g activeness with
  | case1 fresh level hnone =>
    rw [spread, if_pos hnone] at hi
    simpa [hnone] using mem_nextLevel hi hs hj
  | case2 fresh level hsome ih =>
    rw [spread, if_neg hsome] at hi ⊢
    rw [List.map_append, List.mem_append] at hi ⊢
    right
    have hnext : j ∈ (g.nextLevel activeness fresh level).map Prod.fst →
        j ∈ (g.spread activeness (remaining fresh (g.nextLevel activeness fresh level))
          (g.nextLevel activeness fresh level)).map Prod.fst := by
      intro h
      obtain ⟨x, hx, rfl⟩ := List.mem_map.mp h
      exact List.mem_map_of_mem (mem_spread_of_mem_level hx)
    rcases hi with hi | hi
    · exact hnext (mem_nextLevel hi hs hj)
    · by_cases hmem : j ∈ (g.nextLevel activeness fresh level).map Prod.fst
      · exact hnext hmem
      · exact ih hi (List.mem_filter.mpr ⟨hj, by simpa using hmem⟩)

/-- What holds of a level and is handed on by edges that count holds of the whole spread. -/
theorem spread_induction {P : Nat → Prop} {fresh : List Nat} {level : List Reached}
    (hlevel : ∀ x ∈ level, P x.1)
    (hstep : ∀ i, P i → ∀ x ∈ g.successors activeness i, x.1 ∈ fresh → P x.1) :
    ∀ x ∈ g.spread activeness fresh level, P x.1 := by
  induction fresh, level using spread.induct g activeness with
  | case1 fresh level hnone =>
    rw [spread, if_pos hnone]
    exact hlevel
  | case2 fresh level hsome ih =>
    rw [spread, if_neg hsome]
    have hnext : ∀ x ∈ g.nextLevel activeness fresh level, P x.1 := by
      intro x hx
      obtain ⟨hfresh, y, hy, hxy⟩ := of_mem_nextLevel hx
      exact hstep _ (hlevel y hy) x hxy hfresh
    intro x hx
    rcases List.mem_append.mp hx with hx | hx
    · exact hlevel x hx
    · exact ih hnext (fun i hi y hy hf => hstep i hi y hy (List.mem_filter.mp hf).1) x hx

theorem mem_reach_of_entrypoint {i : Nat} {n : GraphNode} (hn : g.node? i = some n)
    (he : n.entrypoint?.isSome) : i ∈ (g.reach activeness).map Prod.fst := by
  obtain ⟨x, hx, rfl⟩ := List.mem_map.mp (mem_entrypoints.mpr ⟨n, hn, he⟩)
  exact List.mem_map_of_mem (mem_spread_of_mem_level hx)

theorem reach_closed {i j : Nat} (hi : i ∈ (g.reach activeness).map Prod.fst)
    (hs : j ∈ (g.successors activeness i).map Prod.fst) (hj : (g.node? j).isSome) :
    j ∈ (g.reach activeness).map Prod.fst := by
  by_cases he : j ∈ g.entrypoints.map Prod.fst
  · obtain ⟨n, hn, hentry⟩ := mem_entrypoints.mp he
    exact mem_reach_of_entrypoint hn hentry
  · have hfresh : j ∈ remaining g.indices g.entrypoints :=
      List.mem_filter.mpr ⟨mem_indices.mpr hj, by simpa using he⟩
    exact spread_closed hi hs hfresh

/-- The traversal reaches what can be reached through edges that count, and nothing else. -/
theorem mem_reach_iff {i : Nat} : i ∈ (g.reach activeness).map Prod.fst ↔
    g.Reaches (fun e => e.isTraversable activeness = true) i := by
  constructor
  · intro h
    obtain ⟨x, hx, rfl⟩ := List.mem_map.mp h
    refine spread_induction (P := g.Reaches fun e => e.isTraversable activeness = true)
      (fun y hy => ?_) (fun j hj y hy hf => ?_) x hx
    · obtain ⟨n, hn, he⟩ := mem_entrypoints.mp (List.mem_map_of_mem hy)
      exact .entrypoint hn he
    · obtain ⟨_, e, he, rfl, hcount, htarget⟩ := mem_successors.mp (List.mem_map_of_mem hy)
      have ht : (g.node? e.target).isSome := htarget ▸ mem_indices.mp (List.mem_filter.mp hf).1
      exact htarget ▸ Reaches.edge hj he hcount ht
  · intro h
    induction h with
    | entrypoint hn he => exact mem_reach_of_entrypoint hn he
    | edge hs he hcount ht ih =>
      exact reach_closed ih (mem_successors.mpr ⟨hs.isSome_node?, _, he, rfl, hcount, rfl⟩) ht

end ScenePrune.Graph
