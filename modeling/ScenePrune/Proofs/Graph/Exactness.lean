import Mathlib.Data.Set.Lattice
import Mathlib.Order.Bounds.Defs
import ScenePrune.Proofs.Graph.Verdicts

/-! # The live nodes are those that can be reached

An edge that asks for an active source or target holds at one moment and not at another, as far as
the activeness of its ends leaves that open. The live positions are the least set with all
entrypoints that no edge leads out of, when edges count that hold at some moment. Every moment may
choose freely for each position whose activeness varies; what is live is reached at one of them.
-/
namespace ScenePrune

/-- The edge holds at some moment, as far as the activeness of its ends tells. -/
def Edge.CanHold (t : ActivenessTable) (e : Edge) : Prop :=
  (e.qualifiers.evenIfSourceDisabled = true ∨ t.get e.source ≠ .alwaysInactive) ∧
    (e.qualifiers.onlyIfTargetCanBeEnabled = false ∨ t.get e.target ≠ .alwaysInactive)

def Edge.HoldsAt (active : Nat → Bool) (e : Edge) : Prop :=
  (e.qualifiers.evenIfSourceDisabled = true ∨ active e.source = true) ∧
    (e.qualifiers.onlyIfTargetCanBeEnabled = true → active e.target = true)

/-- The moments that a table has in view: each position that varies is active or not, independently
of all others. -/
def ActivenessTable.Allows (t : ActivenessTable) (active : Nat → Bool) : Prop :=
  ∀ i, (t.get i = .alwaysActive → active i = true) ∧ (t.get i = .alwaysInactive → active i = false)

section Moments
variable {t : ActivenessTable} {active : Nat → Bool} {e : Edge}

theorem Edge.isTraversable_iff : e.isTraversable t = true ↔ e.CanHold t := by
  simp [isTraversable, CanHold, Activeness.canBeActive]

theorem ActivenessTable.Allows.ne_inactive (h : t.Allows active) {i : Nat} (hi : active i = true) :
    t.get i ≠ .alwaysInactive := by
  intro hinactive
  rw [(h i).2 hinactive] at hi
  cases hi

theorem Edge.HoldsAt.canHold (he : e.HoldsAt active) (h : t.Allows active) : e.CanHold t := by
  refine ⟨he.1.imp_right h.ne_inactive, ?_⟩
  cases hq : e.qualifiers.onlyIfTargetCanBeEnabled with
  | false => exact Or.inl rfl
  | true => exact Or.inr (h.ne_inactive (he.2 hq))

def ActivenessTable.utmost (t : ActivenessTable) (i : Nat) : Bool := (t.get i).canBeActive

theorem ActivenessTable.allows_utmost (t : ActivenessTable) : t.Allows t.utmost := by
  intro i
  constructor <;> intro h <;> simp [utmost, h, Activeness.canBeActive]

/-- Everything that holds at some moment holds at the utmost one. -/
theorem Edge.CanHold.holdsAt_utmost (he : e.CanHold t) : e.HoldsAt t.utmost := by
  refine ⟨he.1.imp_right fun h => by simpa [ActivenessTable.utmost, Activeness.canBeActive] using h, ?_⟩
  intro hq
  have htarget := he.2.resolve_left (by simp [hq])
  simpa [ActivenessTable.utmost, Activeness.canBeActive] using htarget

end Moments

namespace Graph

structure Closed (g : Graph) (counts : Edge → Prop) (S : Set Nat) : Prop where
  entrypoint : ∀ {i n}, g.node? i = some n → n.entrypoint?.isSome → i ∈ S
  edge : ∀ e ∈ g.edges, counts e → (g.node? e.target).isSome → e.source ∈ S → e.target ∈ S

def liveSet (g : Graph) (t : ActivenessTable) : Set Nat :=
  {i | ∃ n reason, g.node? i = some n ∧ (g.liveness t).verdict? n.id = some (.live reason)}

variable {g : Graph} {counts : Edge → Prop} {t : ActivenessTable}

theorem isLeast_reaches : IsLeast {S | g.Closed counts S} {i | g.Reaches counts i} := by
  constructor
  · exact ⟨Reaches.entrypoint, fun e he hc ht hs => .edge hs he hc ht⟩
  · intro S hS i hi
    induction hi with
    | entrypoint hn hentry => exact hS.entrypoint hn hentry
    | edge _ he hc ht ih => exact hS.edge _ he hc ht ih

theorem DistinctIds.liveSet_eq (hg : g.DistinctIds) : g.liveSet t = {i | g.Reaches (Edge.CanHold t) i} := by
  have htraversable : (fun e : Edge => e.isTraversable t = true) = Edge.CanHold t :=
    funext fun e => propext Edge.isTraversable_iff
  ext i
  constructor
  · rintro ⟨n, reason, hn, hlive⟩
    have hlive : (g.liveness t).isLive n.id = true := by simp [Liveness.isLive, hlive, Verdict.isLive]
    exact htraversable ▸ (hg.isLive_iff hn).mp hlive
  · intro hi
    obtain ⟨n, hn⟩ := Option.isSome_iff_exists.mp hi.isSome_node?
    have hlive : (g.liveness t).isLive n.id = true := (hg.isLive_iff hn).mpr (htraversable ▸ hi)
    have hverdict : (g.liveness t).verdict? n.id = some (verdictOf (g.reasons t) n.id) :=
      hg.verdict?_eq (mem_nodes.mpr ⟨i, hn⟩)
    rw [Liveness.isLive, hverdict, Option.any_some, isLive_verdictOf] at hlive
    obtain ⟨reason, hreason⟩ := Option.isSome_iff_exists.mp hlive
    exact ⟨n, reason, hn, by rw [hverdict, verdictOf, hreason]⟩

/-- What can be reached at some moment is what can be reached at the utmost one. -/
theorem reaches_canHold_iff {i : Nat} :
    g.Reaches (Edge.CanHold t) i ↔ ∃ active, t.Allows active ∧ g.Reaches (Edge.HoldsAt active) i := by
  constructor
  · intro h
    exact ⟨t.utmost, t.allows_utmost, h.mono fun _ _ _ he => he.holdsAt_utmost⟩
  · rintro ⟨active, hactive, h⟩
    exact h.mono fun _ _ _ he => he.canHold hactive

theorem DistinctIds.perm_keys (hg : g.DistinctIds) :
    (g.liveness t).verdicts.keys.Perm (g.nodes.map (·.id)) := by
  have hperm : (g.liveness t).verdicts.entries.Perm
      (g.nodes.map fun n => (n.id, verdictOf (g.reasons t) n.id)) := hg.perm_verdicts.symm
  have hkeys := hperm.map Prod.fst
  rw [List.map_map] at hkeys
  exact hkeys

theorem DistinctIds.keys_sorted (hg : g.DistinctIds) : (g.liveness t).verdicts.keys.Pairwise (· < ·) :=
  pairwise_lt_mergeSort Prod.fst (((List.mergeSort_perm _ _).map Prod.fst).nodup_iff.mp (hg.perm_keys.nodup_iff.mpr hg))

/-- Every node has a verdict, ids ascending. The live nodes are the least set with the entrypoints
that is closed under the edges that can hold, and they are those that can be reached at some moment. -/
theorem DistinctIds.liveness_exact (hg : g.DistinctIds) (t : ActivenessTable) :
    ((g.liveness t).verdicts.keys.Pairwise (· < ·) ∧
      ∀ id, id ∈ (g.liveness t).verdicts.keys ↔ ∃ n ∈ g.nodes, n.id = id) ∧
    IsLeast {S | g.Closed (Edge.CanHold t) S} (g.liveSet t) ∧
    g.liveSet t = ⋃ active ∈ {active | t.Allows active}, {i | g.Reaches (Edge.HoldsAt active) i} := by
  refine ⟨⟨hg.keys_sorted, fun id => ?_⟩, ?_, ?_⟩
  · rw [hg.perm_keys.mem_iff, List.mem_map]
  · rw [hg.liveSet_eq]
    exact isLeast_reaches
  · rw [hg.liveSet_eq]
    ext i
    simp only [Set.mem_ofPred_eq, Set.mem_iUnion, exists_prop]
    exact reaches_canHold_iff

/-- Four nodes in a tangle around the hole 2. Of the two edges from 1 to 3 only one asks for an active
target; 3 is never active, so that the edge from it to 4 never holds. -/
def tangle : Graph where
  slots :=
    [some { id := 7, type := "Animator", kind := .component, enabled := true, entrypoint? := some .declared },
     some { id := 3, type := "Transform", kind := .transform, enabled := true },
     none,
     some { id := 5, type := "Transform", kind := .transform, enabled := false },
     some { id := 9, type := "Transform", kind := .transform, enabled := true }]
  edges :=
    [⟨0, 1, .dependency, .plain⟩, ⟨1, 1, .dependency, .plain⟩, ⟨1, 0, .dependency, .plain⟩,
     ⟨1, 3, .dependency, .onlyIfEnabled⟩, ⟨1, 3, .dependency, .plain⟩, ⟨3, 4, .dependency, .plain⟩]

def tangleTable : ActivenessTable := ⟨.ofList [(3, .alwaysInactive), (4, .alwaysActive)]⟩

/-- The set has the entrypoint, and the only edge out of it never holds. -/
theorem closed_tangle : tangle.Closed (Edge.CanHold tangleTable) {0, 1, 3} where
  entrypoint := by
    intro i n hn hentry
    rcases i with _ | _ | _ | _ | _ | i
    · simp
    · simp
    · cases hn
    · simp
    · cases hn
      cases hentry
    · cases hn
  edge := by
    intro e he hcan _ _
    simp only [tangle, List.mem_cons, List.not_mem_nil, or_false] at he
    rcases he with rfl | rfl | rfl | rfl | rfl | rfl
    · simp
    · simp
    · simp
    · simp
    · simp
    · exact absurd hcan.1 (by decide)

/-- The node behind the edge that never holds is dead, and those before it are live: at the utmost
moment 3 is reached through the second edge from 1. -/
theorem liveness_exact_tangle : tangle.DistinctIds ∧
    3 ∈ tangle.liveSet tangleTable ∧ 4 ∉ tangle.liveSet tangleTable := by
  have hg : tangle.DistinctIds := by simp [DistinctIds, nodes, tangle]
  obtain ⟨-, hleast, hmoments⟩ := hg.liveness_exact tangleTable
  constructor
  · exact hg
  constructor
  · have h0 : tangle.Reaches (Edge.HoldsAt tangleTable.utmost) 0 := .entrypoint rfl rfl
    have h1 : tangle.Reaches (Edge.HoldsAt tangleTable.utmost) 1 :=
      .edge (e := ⟨0, 1, .dependency, .plain⟩) h0 (by decide) ⟨Or.inr rfl, by simp [Qualifiers.plain]⟩ rfl
    have h3 : tangle.Reaches (Edge.HoldsAt tangleTable.utmost) 3 :=
      .edge (e := ⟨1, 3, .dependency, .plain⟩) h1 (by decide) ⟨Or.inr rfl, by simp [Qualifiers.plain]⟩ rfl
    rw [hmoments]
    exact Set.mem_biUnion tangleTable.allows_utmost h3
  · intro h4
    have h4 := hleast.2 closed_tangle h4
    simp at h4

end Graph

end ScenePrune
