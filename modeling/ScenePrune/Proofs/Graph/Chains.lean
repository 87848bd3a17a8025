import ScenePrune.Proofs.Graph.Embedding
import ScenePrune.Proofs.Graph.Verdicts

/-! # Chains of parents

`Graph.HasChain` follows the parents of a node to the top and collects what holds on the way.
A walk from the top, by a queue of those whose parents were visited, comes to exactly the nodes with
such a chain and to each of them once. So the activeness of a node is that of its chain, and a node
whose parents lead nowhere is varying.
-/
namespace ScenePrune

namespace ActivenessTable

theorem get_set (t : ActivenessTable) (i j : Nat) (a : Activeness) :
    (t.set i a).get j = if j = i then a else t.get j := by
  simp only [get, set, OrderedMap.get?_insert]
  split <;> rfl

/-- Values that agree wherever they are set leave no doubt about the outcome. -/
theorem get_foldl_set {α : Type} {l : List α} {k : α → Nat} {f : α → Activeness}
    {t : ActivenessTable} {i : Nat} {a : Activeness} (hl : ∀ x ∈ l, k x = i → f x = a)
    (ht : (∃ x ∈ l, k x = i) ∨ t.get i = a) :
    (l.foldl (fun t x => t.set (k x) (f x)) t).get i = a := by
  induction l generalizing t with
  | nil => exact ht.resolve_left (by simp)
  | cons x l ih =>
    rw [List.foldl_cons]
    apply ih fun y hy => hl y (List.mem_cons_of_mem _ hy)
    rw [get_set]
    by_cases hx : i = k x
    · rw [if_pos hx]
      exact Or.inr (hl x List.mem_cons_self hx.symm)
    · rw [if_neg hx]
      rcases ht with ⟨y, hy, hkey⟩ | ht
      · rcases List.mem_cons.mp hy with rfl | hy
        · exact absurd hkey.symm hx
        · exact Or.inl ⟨y, hy, hkey⟩
      · exact Or.inr ht

end ActivenessTable

namespace Graph

/-- The parents of the node at a position lead to the top, with the given findings on the way. -/
inductive HasChain (g : Graph) (writers : Writers Nat) : Nat → Chain → Prop where
  | top {i : Nat} {n : GraphNode} : g.node? i = some n → n.parent? = none →
      HasChain g writers i (Chain.top.extend writers i n)
  | child {i p : Nat} {n : GraphNode} {c : Chain} : g.node? i = some n → n.parent? = some p →
      HasChain g writers p c → HasChain g writers i (c.extend writers i n)

variable {g : Graph} {writers : Writers Nat}

theorem HasChain.unique {i : Nat} {c d : Chain} (hc : g.HasChain writers i c)
    (hd : g.HasChain writers i d) : c = d := by
  induction hc generalizing d with
  | top hn hp =>
    cases hd with
    | top hm _ => cases hn.symm.trans hm; rfl
    | child hm hq _ => cases hn.symm.trans hm; simp [hp] at hq
  | child hn hp _ ih =>
    cases hd with
    | top hm hq => cases hn.symm.trans hm; simp [hp] at hq
    | child hm hq hd =>
      cases hn.symm.trans hm
      cases hp.symm.trans hq
      rw [ih hd]

theorem mem_below {parent? : Option Nat} {i : Nat} {n : GraphNode} :
    (i, n) ∈ g.below parent? ↔ g.node? i = some n ∧ n.parent? = parent? := by
  simp [below, mem_nodesWithIndex]

theorem mem_map_fst_below {parent? : Option Nat} {i : Nat} :
    i ∈ (g.below parent?).map Prod.fst ↔ ∃ n, g.node? i = some n ∧ n.parent? = parent? := by
  simp [mem_below]

theorem nodup_below (g : Graph) (parent? : Option Nat) : ((g.below parent?).map Prod.fst).Nodup :=
  (nodup_indices g).sublist (List.filter_sublist.map _)

end Graph

namespace Settling
open ScenePrune.Graph

variable {g : Graph} {writers : Writers Nat} {s : Settling}

def positions (s : Settling) : List Nat := s.settled.map Prod.fst ++ s.queue.map Prod.fst

/-- How a walk stands. It has come to a node as soon as its parent was visited, if it names one, and it has
come to it once. -/
structure Valid (g : Graph) (writers : Writers Nat) (s : Settling) : Prop where
  settled : ∀ x ∈ s.settled, g.HasChain writers x.1 x.2
  queued : ∀ x ∈ s.queue, g.node? x.1 = some x.2
  entered : ∀ i, i ∈ s.positions ↔
    ∃ n, g.node? i = some n ∧ ∀ p, n.parent? = some p → p ∈ s.settled.map Prod.fst
  once : s.positions.Nodup

theorem exists_lookup {settled : List (Nat × Chain)} {p : Nat} (hp : p ∈ settled.map Prod.fst) :
    ∃ c, settled.lookup p = some c ∧ (p, c) ∈ settled := by
  have hsome : settled.lookup p ≠ none := by
    obtain ⟨x, hx, rfl⟩ := List.mem_map.mp hp
    simpa [List.lookup_eq_none_iff] using ⟨x.2, hx⟩
  obtain ⟨c, hc⟩ := Option.ne_none_iff_exists'.mp hsome
  exact ⟨c, hc, mem_of_lookup_eq_some hc⟩

theorem hasChain_chain {settled : List (Nat × Chain)} {i : Nat} {n : GraphNode}
    (hs : ∀ x ∈ settled, g.HasChain writers x.1 x.2) (hn : g.node? i = some n)
    (hparent : ∀ p, n.parent? = some p → p ∈ settled.map Prod.fst) :
    g.HasChain writers i (chain settled writers i n) := by
  cases hp : n.parent? with
  | none =>
    rw [chain, hp]
    exact .top hn hp
  | some p =>
    obtain ⟨above, hlookup, habove⟩ := exists_lookup (hparent p hp)
    rw [chain, hp, Option.bind_some, hlookup]
    exact .child hn hp (hs _ habove)

/-- A node comes into line when its parent is visited, and its parent is not visited again. -/
theorem Valid.visit (h : Valid g writers s) : Valid g writers (s.visit g writers) := by
  obtain ⟨settled, _ | ⟨⟨i, n⟩, rest⟩⟩ := s
  · exact h
  have hn : g.node? i = some n := h.queued _ List.mem_cons_self
  have hi : i ∉ settled.map Prod.fst := fun hmem =>
    (List.nodup_append.mp h.once).2.2 i hmem i List.mem_cons_self rfl
  obtain ⟨n', hn', hparent⟩ := (h.entered i).mp (List.mem_append_right _ List.mem_cons_self)
  obtain rfl := Option.some.inj (hn.symm.trans hn')
  have hpositions : (Settling.visit g writers ⟨settled, (i, n) :: rest⟩).positions =
      (Settling.mk settled ((i, n) :: rest)).positions ++ (g.below (some i)).map Prod.fst := by
    simp [Settling.visit, positions]
  constructor
  case settled =>
    intro x hx
    rcases List.mem_append.mp hx with hx | hx
    · exact h.settled x hx
    · obtain rfl := List.mem_singleton.mp hx
      exact hasChain_chain h.settled hn hparent
  case queued =>
    intro x hx
    rcases List.mem_append.mp hx with hx | hx
    · exact h.queued x (List.mem_cons_of_mem _ hx)
    · exact (mem_below.mp hx).1
  case entered =>
    intro j
    rw [hpositions, List.mem_append, h.entered j]
    simp only [Settling.visit, List.map_append, List.mem_append, List.map_cons, List.map_nil, List.mem_singleton]
    constructor
    · rintro (⟨m, hm, hup⟩ | hchild)
      · exact ⟨m, hm, fun p hp => Or.inl (hup p hp)⟩
      · obtain ⟨m, hm, hp⟩ := mem_map_fst_below.mp hchild
        exact ⟨m, hm, fun p hp' => Or.inr (Option.some.inj (hp'.symm.trans hp))⟩
    · rintro ⟨m, hm, hup⟩
      by_cases hp : m.parent? = some i
      · exact Or.inr (mem_map_fst_below.mpr ⟨m, hm, hp⟩)
      · refine Or.inl ⟨m, hm, fun p hp' => (hup p hp').resolve_right ?_⟩
        rintro rfl
        exact hp hp'
  case once =>
    rw [hpositions, List.nodup_append]
    refine ⟨h.once, nodup_below g _, ?_⟩
    rintro j hj _ hchild rfl
    obtain ⟨m, hm, hp⟩ := mem_map_fst_below.mp hchild
    obtain ⟨m', hm', hup⟩ := (h.entered j).mp hj
    obtain rfl := Option.some.inj (hm.symm.trans hm')
    exact hi (hup i hp)

theorem Valid.run (h : Valid g writers s) (visits : Nat) : Valid g writers (Settling.run g writers visits s) := by
  induction visits generalizing s with
  | zero => exact h
  | succ visits ih => exact ih h.visit

theorem Valid.length_positions_le (h : Valid g writers s) : s.positions.length ≤ g.nodes.length := by
  have hsubset : s.positions ⊆ g.indices := by
    intro i hi
    obtain ⟨n, hn, -⟩ := (h.entered i).mp hi
    exact mem_indices.mpr (hn ▸ rfl)
  have hlength : g.indices.length = g.nodes.length := by
    rw [nodes_eq_map, indices, List.length_map, List.length_map]
  exact hlength ▸ h.once.length_le_of_subset hsubset

theorem run_idle (h : s.queue = []) (visits : Nat) : Settling.run g writers visits s = s := by
  have hvisit : s.visit g writers = s := by rw [Settling.visit, h]
  induction visits with
  | zero => rfl
  | succ visits ih => rw [Settling.run, hvisit, ih]

/-- As long as someone stands in line, each visit settles one more node. So the line ends before the nodes do. -/
theorem Valid.queue_run (h : Valid g writers s) {visits : Nat} (hv : g.nodes.length ≤ s.settled.length + visits) :
    (Settling.run g writers visits s).queue = [] := by
  induction visits generalizing s with
  | zero =>
    have hle := h.length_positions_le
    rw [positions, List.length_append, List.length_map, List.length_map] at hle
    have hnone : s.queue.length = 0 := by omega
    exact List.eq_nil_of_length_eq_zero hnone
  | succ visits ih =>
    cases hq : s.queue with
    | nil => rw [run_idle hq, hq]
    | cons x rest =>
      apply ih h.visit
      simp only [Settling.visit, hq, List.length_append, List.length_singleton]
      omega

/-- Once nobody stands in line, every node with a chain is settled. -/
theorem Valid.mem_settled (h : Valid g writers s) (hline : s.queue = []) {i : Nat} {c : Chain}
    (hc : g.HasChain writers i c) : (i, c) ∈ s.settled := by
  have hvisited : ∀ {j n d}, g.node? j = some n → g.HasChain writers j d →
      (∀ p, n.parent? = some p → p ∈ s.settled.map Prod.fst) → (j, d) ∈ s.settled := by
    intro j n d hn hd hup
    have hj : j ∈ s.positions := (h.entered j).mpr ⟨n, hn, hup⟩
    rw [positions, hline, List.map_nil, List.append_nil] at hj
    obtain ⟨⟨_, d'⟩, hmem, rfl⟩ := List.mem_map.mp hj
    exact (h.settled _ hmem).unique hd ▸ hmem
  induction hc with
  | top hn hp => exact hvisited hn (.top hn hp) (by simp [hp])
  | @child i p n above hn hp habove ih =>
    refine hvisited hn (.child hn hp habove) fun q hq => ?_
    obtain rfl := Option.some.inj (hp.symm.trans hq)
    exact List.mem_map_of_mem ih

end Settling

namespace Graph
variable {g : Graph} {writers : Writers Nat}

theorem valid_start : Settling.Valid g writers ⟨[], g.below none⟩ where
  settled := by simp
  queued := fun _ hx => (mem_below.mp hx).1
  entered := by
    intro i
    simp [Settling.positions, mem_map_fst_below, Option.eq_none_iff_forall_ne_some]
  once := nodup_below g none

theorem settle_valid : Settling.Valid g writers (g.settle writers) := valid_start.run _

theorem queue_settle : (g.settle writers).queue = [] := valid_start.queue_run (Nat.le_add_left _ _)

theorem mem_settle_iff {i : Nat} {c : Chain} :
    (i, c) ∈ (g.settle writers).settled ↔ g.HasChain writers i c :=
  ⟨fun h => settle_valid.settled _ h, settle_valid.mem_settled queue_settle⟩

theorem mem_unsettled {i : Nat} : i ∈ g.unsettled writers ↔ (g.node? i).isSome ∧ ∀ c, ¬ g.HasChain writers i c := by
  simp [unsettled, mem_indices, mem_settle_iff]

theorem get_activeness {i : Nat} {a : Activeness} (hchain : ∀ c, g.HasChain writers i c → c.activeness = a)
    (hset : (∃ c, g.HasChain writers i c) ∨ a = .varying) : (g.activeness writers).get i = a := by
  apply ActivenessTable.get_foldl_set (k := id) (f := fun _ => .varying)
  · rintro _ hx rfl
    have hnone := (mem_unsettled.mp hx).2
    exact (hset.resolve_left fun ⟨c, hc⟩ => hnone c hc).symm
  · right
    apply ActivenessTable.get_foldl_set (k := Prod.fst)
      (f := fun x : Nat × Chain => x.2.activeness)
    · rintro ⟨_, c⟩ hc rfl
      exact hchain c (mem_settle_iff.mp hc)
    · exact hset.imp (fun ⟨c, hc⟩ => ⟨(i, c), mem_settle_iff.mpr hc, rfl⟩) fun h => h.symm

theorem HasChain.get_activeness {i : Nat} {c : Chain} (hc : g.HasChain writers i c) :
    (g.activeness writers).get i = c.activeness :=
  Graph.get_activeness (fun _ hd => hd.unique hc ▸ rfl) (Or.inl ⟨c, hc⟩)

/-- A node whose parents do not lead to the top is varying. -/
theorem get_activeness_of_no_chain {i : Nat} (h : ∀ c, ¬ g.HasChain writers i c) :
    (g.activeness writers).get i = .varying :=
  get_activeness (fun d hd => absurd hd (h d)) (Or.inr rfl)

end Graph

end ScenePrune
