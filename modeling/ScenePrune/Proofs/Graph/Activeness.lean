import Mathlib.Data.Set.Insert
import Mathlib.Logic.Relation
import ScenePrune.Proofs.Graph.Chains
import ScenePrune.Proofs.Graph.Embedding
import ScenePrune.Proofs.Graph.Verdicts

/-! # Activeness is what the way up says

The way up from a position is followed through the parents that the nodes name, whatever these are: it
may end at a node without a parent, run into a hole, or go round in circles. The class of a node can be
read off its way up. The walk from the top visits no position twice, and those that it does not come to
are taken after it, so every node of a graph is classified once.
-/
namespace ScenePrune

namespace Graph
open Relation

/-- The node at the first position names the second one as that of its parent, and there need not be a
node. -/
def HangsBelow (g : Graph) (i parent : Nat) : Prop := ∃ n, g.node? i = some n ∧ n.parent? = some parent

/-- One meets the node on the way up from a position; the node at the position itself comes first. -/
def OnWayUp (g : Graph) (i j : Nat) (m : GraphNode) : Prop :=
  ReflTransGen g.HangsBelow i j ∧ g.node? j = some m

def ComesToTop (g : Graph) (i : Nat) : Prop := ∃ j m, g.OnWayUp i j m ∧ m.parent? = none

def WrittenOnWayUp (g : Graph) (writers : Writers Nat) (i : Nat) : Prop :=
  ∃ j m, g.OnWayUp i j m ∧ writers.isWritten j m.kind.enabledProperty = true

def EnabledOnWayUp (g : Graph) (i : Nat) : Prop := ∀ j m, g.OnWayUp i j m → m.enabled = true

section WayUp
variable {g : Graph} {writers : Writers Nat} {i p : Nat} {n : GraphNode} {c : Chain}

theorem onWayUp_of_top (hn : g.node? i = some n) (hp : n.parent? = none) {j : Nat} {m : GraphNode} :
    g.OnWayUp i j m ↔ j = i ∧ m = n := by
  constructor
  · rintro ⟨hway, hm⟩
    rcases hway.cases_head with rfl | ⟨k, ⟨n', hn', hk⟩, -⟩
    · exact ⟨rfl, Option.some.inj (hm.symm.trans hn)⟩
    · obtain rfl := Option.some.inj (hn.symm.trans hn')
      rw [hp] at hk
      cases hk
  · rintro ⟨rfl, rfl⟩
    exact ⟨.refl, hn⟩

theorem onWayUp_of_child (hn : g.node? i = some n) (hp : n.parent? = some p) {j : Nat} {m : GraphNode} :
    g.OnWayUp i j m ↔ (j = i ∧ m = n) ∨ g.OnWayUp p j m := by
  constructor
  · rintro ⟨hway, hm⟩
    rcases hway.cases_head with rfl | ⟨k, ⟨n', hn', hk⟩, hway⟩
    · exact Or.inl ⟨rfl, Option.some.inj (hm.symm.trans hn)⟩
    · obtain rfl := Option.some.inj (hn.symm.trans hn')
      obtain rfl := Option.some.inj (hp.symm.trans hk)
      exact Or.inr ⟨hway, hm⟩
  · rintro (⟨rfl, rfl⟩ | ⟨hway, hm⟩)
    · exact ⟨.refl, hn⟩
    · exact ⟨.head ⟨n, hn, hp⟩ hway, hm⟩

theorem HasChain.comesToTop (h : g.HasChain writers i c) : g.ComesToTop i := by
  induction h with
  | @top i n hn hp => exact ⟨i, n, ⟨.refl, hn⟩, hp⟩
  | child hn hp _ ih =>
    obtain ⟨j, m, hway, hm⟩ := ih
    exact ⟨j, m, (onWayUp_of_child hn hp).mpr (Or.inr hway), hm⟩

theorem ComesToTop.exists_hasChain (writers : Writers Nat) (h : g.ComesToTop i) :
    ∃ c, g.HasChain writers i c := by
  obtain ⟨j, m, ⟨hway, hm⟩, hp⟩ := h
  induction hway using ReflTransGen.head_induction_on with
  | refl => exact ⟨_, .top hm hp⟩
  | head hstep _ ih =>
    obtain ⟨n, hn, hparent⟩ := hstep
    obtain ⟨c, hc⟩ := ih
    exact ⟨_, .child hn hparent hc⟩

theorem HasChain.written_iff (h : g.HasChain writers i c) : c.written = true ↔ g.WrittenOnWayUp writers i := by
  induction h with
  | top hn hp => simp [WrittenOnWayUp, onWayUp_of_top hn hp, Chain.extend, Chain.top]
  | child hn hp _ ih =>
    simp only [WrittenOnWayUp, onWayUp_of_child hn hp, Chain.extend, Bool.or_eq_true, ih]
    constructor
    · rintro (hown | ⟨j, m, hway, hm⟩)
      · exact ⟨_, _, Or.inl ⟨rfl, rfl⟩, hown⟩
      · exact ⟨j, m, Or.inr hway, hm⟩
    · rintro ⟨j, m, ⟨rfl, rfl⟩ | hway, hm⟩
      · exact Or.inl hm
      · exact Or.inr ⟨j, m, hway, hm⟩

theorem HasChain.enabled_iff (h : g.HasChain writers i c) : c.enabled = true ↔ g.EnabledOnWayUp i := by
  induction h with
  | top hn hp => simp [EnabledOnWayUp, onWayUp_of_top hn hp, Chain.extend, Chain.top]
  | child hn hp _ ih =>
    simp only [EnabledOnWayUp, onWayUp_of_child hn hp, Chain.extend, Bool.and_eq_true, ih]
    constructor
    · rintro ⟨hown, habove⟩ j m (⟨rfl, rfl⟩ | hway)
      · exact hown
      · exact habove j m hway
    · intro hall
      exact ⟨hall _ _ (Or.inl ⟨rfl, rfl⟩), fun j m hway => hall j m (Or.inr hway)⟩

/-- The way up from a position does not leave positions whose nodes all have their parents there. -/
theorem not_comesToTop_of_closed {S : Set Nat}
    (hS : ∀ j ∈ S, ∀ m, g.node? j = some m → ∃ p ∈ S, m.parent? = some p) (hi : i ∈ S) : ¬ g.ComesToTop i := by
  have hstays : ∀ j, ReflTransGen g.HangsBelow i j → j ∈ S := by
    intro j hway
    induction hway with
    | refl => exact hi
    | tail _ hstep ih =>
      obtain ⟨n, hn, hparent⟩ := hstep
      obtain ⟨p, hp, hsome⟩ := hS _ ih n hn
      exact Option.some.inj (hsome.symm.trans hparent) ▸ hp
  rintro ⟨j, m, ⟨hway, hm⟩, hnone⟩
  obtain ⟨p, -, hsome⟩ := hS j (hstays j hway) m hm
  rw [hnone] at hsome
  cases hsome

/-- What the chain of a node says about the node, in terms of its way up. -/
theorem activeness_cases (g : Graph) (writers : Writers Nat) (i : Nat) :
    (¬ g.ComesToTop i ∧ (g.activeness writers).get i = .varying) ∨
    (g.ComesToTop i ∧ g.WrittenOnWayUp writers i ∧ (g.activeness writers).get i = .varying) ∨
    (g.ComesToTop i ∧ ¬ g.WrittenOnWayUp writers i ∧ g.EnabledOnWayUp i ∧
      (g.activeness writers).get i = .alwaysActive) ∨
    (g.ComesToTop i ∧ ¬ g.WrittenOnWayUp writers i ∧ ¬ g.EnabledOnWayUp i ∧
      (g.activeness writers).get i = .alwaysInactive) := by
  by_cases htop : g.ComesToTop i
  · obtain ⟨c, hc⟩ := htop.exists_hasChain writers
    rw [← hc.written_iff, ← hc.enabled_iff, hc.get_activeness, Chain.activeness]
    cases c.written <;> cases c.enabled <;> simp [htop]
  · exact Or.inl ⟨htop, get_activeness_of_no_chain fun c hc => htop hc.comesToTop⟩

end WayUp

end Graph

namespace ActivenessTable
variable {α : Type} {k : α → Nat} {f : α → Activeness}

theorem values_foldl_set (l : List α) (t : ActivenessTable) : (l.foldl (fun t x => t.set (k x) (f x)) t).values =
    (l.map fun x => (k x, f x)).foldl (fun m (i, a) => m.insert i a) t.values := by
  induction l generalizing t with
  | nil => rfl
  | cons x l ih => exact ih (t.set (k x) (f x))

theorem entries_foldl_set {l : List α} {t : ActivenessTable} (h : (t.values.keys ++ l.map k).Nodup) :
    (l.foldl (fun t x => t.set (k x) (f x)) t).values.entries = t.values.entries ++ l.map fun x => (k x, f x) := by
  rw [values_foldl_set, OrderedMap.entries_foldl_insert]
  rw [List.map_map]
  exact h

theorem keys_foldl_set {l : List α} {t : ActivenessTable} (h : (t.values.keys ++ l.map k).Nodup) :
    (l.foldl (fun t x => t.set (k x) (f x)) t).values.keys = t.values.keys ++ l.map k := by
  rw [OrderedMap.keys, entries_foldl_set h, List.map_append, List.map_map]
  rfl

/-- An entry that no other one has the key of is what its key is classified as. -/
theorem get_eq_of_mem {t : ActivenessTable} (h : t.values.keys.Nodup) {i : Nat} {a : Activeness}
    (hmem : (i, a) ∈ t.values.entries) : t.get i = a := by
  rw [get, OrderedMap.get?, lookup_eq_some_of_mem h hmem]
  rfl

theorem count_eq_countP {t : ActivenessTable} (h : t.values.keys.Nodup) (a : Activeness) :
    t.count a = t.values.keys.countP fun i => t.get i = a := by
  rw [count, OrderedMap.keys, List.countP_map]
  apply List.countP_congr
  rintro ⟨i, b⟩ hmem
  simp [get_eq_of_mem h hmem]

theorem sum_count (t : ActivenessTable) :
    t.count .alwaysActive + t.count .alwaysInactive + t.count .varying = t.values.entries.length := by
  unfold count
  induction t.values.entries with
  | nil => rfl
  | cons e l ih =>
    obtain ⟨i, a⟩ := e
    rw [List.length_cons, ← ih]
    cases a <;> simp <;> omega

end ActivenessTable

namespace Graph
variable {g : Graph} {writers : Writers Nat}

theorem nodup_settled : ((g.settle writers).settled.map Prod.fst).Nodup :=
  settle_valid.once.sublist (List.sublist_append_left _ _)

/-- The walk comes to no position twice, and what it does not come to is left over. -/
theorem perm_settle : ((g.settle writers).settled.map Prod.fst ++ g.unsettled writers).Perm g.indices := by
  have hvisited : ((g.settle writers).settled.map Prod.fst).Perm
      (g.indices.filter (· ∈ (g.settle writers).settled.map Prod.fst)) := by
    refine (List.perm_ext_iff_of_nodup nodup_settled ((nodup_indices g).filter _)).mpr fun i => ?_
    rw [List.mem_filter, decide_eq_true_eq, iff_and_self, mem_indices, Option.isSome_iff_exists]
    intro hi
    obtain ⟨n, hn, -⟩ := (settle_valid.entered i).mp (List.mem_append_left _ hi)
    exact ⟨n, hn⟩
  refine (hvisited.append_right _).trans ?_
  simpa only [unsettled, decide_not] using List.filter_append_perm _ g.indices

theorem nodup_settle : ((g.settle writers).settled.map Prod.fst ++ g.unsettled writers).Nodup :=
  perm_settle.nodup_iff.mpr (nodup_indices g)

/-- The table has an entry for each position that is settled, and then for each that is not. -/
theorem keys_activeness : (g.activeness writers).values.keys =
    (g.settle writers).settled.map Prod.fst ++ g.unsettled writers := by
  have hnodup : ((g.settle writers).settled.map Prod.fst ++ g.unsettled writers).Nodup := nodup_settle
  let known : ActivenessTable := (g.settle writers).settled.foldl (fun t x => t.set x.1 x.2.activeness) ∅
  have hknown : known.values.keys = (g.settle writers).settled.map Prod.fst :=
    ActivenessTable.keys_foldl_set (t := ∅) (List.nodup_append.mp hnodup).1
  have hrest : (known.values.keys ++ (g.unsettled writers).map id).Nodup := by
    rw [hknown, List.map_id]
    exact hnodup
  rw [← hknown, ← List.map_id (g.unsettled writers)]
  exact ActivenessTable.keys_foldl_set hrest

/-- A node varies if its way up does not come to the top or the flag of a node on it is written. Otherwise
it is always active or always inactive, as all nodes on its way up are enabled or not. Each node is
classified once, by the walk from the top or after it, so that the classes count all nodes. -/
theorem activeness_exact (g : Graph) (writers : Writers Nat) :
    let t := g.activeness writers
    let settled := (g.settle writers).settled
    (∀ i n, g.node? i = some n →
      (t.get i = .varying ↔ ¬ g.ComesToTop i ∨ g.WrittenOnWayUp writers i) ∧
      (t.get i = .alwaysActive ↔ g.ComesToTop i ∧ ¬ g.WrittenOnWayUp writers i ∧ g.EnabledOnWayUp i) ∧
      (t.get i = .alwaysInactive ↔ g.ComesToTop i ∧ ¬ g.WrittenOnWayUp writers i ∧ ¬ g.EnabledOnWayUp i)) ∧
    ((settled.map Prod.fst ++ g.unsettled writers).Nodup ∧
      ∀ i, i ∈ settled.map Prod.fst ++ g.unsettled writers ↔ ∃ n, g.node? i = some n) ∧
    (∀ a, t.count a = g.indices.countP fun i => t.get i = a) ∧
    t.count .alwaysActive + t.count .alwaysInactive + t.count .varying = g.nodes.length ∧
    settled.length ≤ g.nodes.length ∧ (g.unsettled writers).length = g.nodes.length - settled.length := by
  intro t settled
  have hlength : settled.length + (g.unsettled writers).length = g.nodes.length := by
    have hperm : (settled.map Prod.fst ++ g.unsettled writers).length = g.indices.length := perm_settle.length_eq
    rw [List.length_append, List.length_map, indices, List.length_map] at hperm
    rw [hperm, nodes_eq_map, List.length_map]
  have hkeys : t.values.keys = settled.map Prod.fst ++ g.unsettled writers := keys_activeness
  refine ⟨fun i n _ => ?_, ⟨nodup_settle, fun i => ?_⟩, fun a => ?_, ?_, by omega, by omega⟩
  · rcases g.activeness_cases writers i with ⟨htop, hget⟩ | ⟨htop, hwritten, hget⟩ |
      ⟨htop, hwritten, henabled, hget⟩ | ⟨htop, hwritten, henabled, hget⟩
    all_goals simp [t, *]
  · rw [perm_settle.mem_iff, mem_indices, Option.isSome_iff_exists]
  · rw [ActivenessTable.count_eq_countP (hkeys ▸ nodup_settle), hkeys]
    exact perm_settle.countP_eq _
  · have hentries : t.values.entries.length = t.values.keys.length := by rw [OrderedMap.keys, List.length_map]
    rw [ActivenessTable.sum_count, hentries, hkeys, List.length_append, List.length_map, hlength]

/-- A root with two nodes below it, of which the first is disabled and the second one is switched by a node
outside the graph. The parent of position 3 was removed, and 5 and 6 are each the parent of the other. -/
def knot : Graph where
  slots :=
    [some { id := 1, type := "Transform", kind := .transform, enabled := true },
     some { id := 2, type := "Transform", kind := .transform, parent? := some 0, enabled := false },
     some { id := 3, type := "Transform", kind := .transform, parent? := some 1, enabled := true },
     some { id := 4, type := "Transform", kind := .transform, parent? := some 4, enabled := true },
     none,
     some { id := 6, type := "Transform", kind := .transform, parent? := some 6, enabled := true },
     some { id := 7, type := "Transform", kind := .transform, parent? := some 5, enabled := false }]

def knotWriters : Writers Nat := (∅ : Writers Nat).add 2 "m_IsActive" 9

/-- Of the six nodes one is always active and one always inactive; four vary, each for a reason of its own. -/
theorem activeness_exact_knot :
    let t := knot.activeness knotWriters
    t.get 1 = .alwaysInactive ∧ t.get 2 = .varying ∧ t.get 3 = .varying ∧ t.get 5 = .varying ∧
      t.count .alwaysActive + t.count .alwaysInactive + t.count .varying = 6 := by
  intro t
  obtain ⟨hclasses, -, -, hsum, -, -⟩ := activeness_exact knot knotWriters
  have hroot : ∀ j m, knot.OnWayUp 0 j m ↔ j = 0 ∧ m = _ := fun j m => onWayUp_of_top rfl rfl
  have hchild : ∀ j m, knot.OnWayUp 1 j m ↔ (j = 1 ∧ m = _) ∨ knot.OnWayUp 0 j m :=
    fun j m => onWayUp_of_child rfl rfl
  have hnowhere : ∀ i ∈ ({3, 4, 5, 6} : Set Nat), ¬ knot.ComesToTop i := by
    intro i
    apply not_comesToTop_of_closed
    rintro j (rfl | rfl | rfl | rfl) m hm
    · exact ⟨4, by simp, by cases hm; rfl⟩
    · cases hm
    · exact ⟨6, by simp, by cases hm; rfl⟩
    · exact ⟨5, by simp, by cases hm; rfl⟩
  refine ⟨?_, ?_, ?_, ?_, hsum⟩
  · refine (hclasses 1 _ rfl).2.2.mpr ⟨⟨0, _, (hchild _ _).mpr (Or.inr ((hroot _ _).mpr ⟨rfl, rfl⟩)), rfl⟩, ?_, ?_⟩
    · rintro ⟨j, m, hway, hwritten⟩
      rw [hchild, hroot] at hway
      rcases hway with ⟨rfl, rfl⟩ | ⟨rfl, rfl⟩
      · exact absurd hwritten (by decide)
      · exact absurd hwritten (by decide)
    · exact fun henabled => absurd (henabled 1 _ ((hchild _ _).mpr (Or.inl ⟨rfl, rfl⟩))) (by decide)
  · exact (hclasses 2 _ rfl).1.mpr (Or.inr ⟨2, _, ⟨.refl, rfl⟩, by decide⟩)
  · exact (hclasses 3 _ rfl).1.mpr (Or.inl (hnowhere 3 (by simp)))
  · exact (hclasses 5 _ rfl).1.mpr (Or.inl (hnowhere 5 (by simp)))

end Graph

end ScenePrune
