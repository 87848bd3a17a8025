import ScenePrune.Proofs.Graph.Traversal

/-! # Traversals of a part of a graph

If the reachable part of a graph occurs in another graph at other positions, with the same
neighbours in the same order, then the traversal of the other graph is the same traversal: it
reaches the same nodes in the same order and for the same reasons.
-/
namespace ScenePrune.Graph

theorem nodup_indices (g : Graph) : g.indices.Nodup := by
  have hlist : g.indices = g.slots.zipIdx.filterMap fun x => x.1.map fun _ => x.2 := by
    rw [indices, nodesWithIndex, List.map_filterMap]
    apply List.filterMap_congr
    intro x _
    cases hx : x.1 <;> simp [hx]
  have hsub : (g.slots.zipIdx.filterMap fun x => x.1.map fun _ => x.2).Sublist (g.slots.zipIdx.map Prod.snd) := by
    induction g.slots.zipIdx with
    | nil => exact List.Sublist.slnil
    | cons x l ih =>
      cases hx : x.1 with
      | none => simpa [hx] using ih.cons x.2
      | some n => simpa [hx] using ih.cons_cons x.2
  rw [hlist]
  apply hsub.nodup
  rw [List.zipIdx_map_snd]
  exact List.nodup_range'

theorem nodup_remaining {fresh : List Nat} (hf : fresh.Nodup) (level : List Reached) :
    (remaining fresh level).Nodup := hf.filter _

def SameFresh (inside : Nat → Prop) (move : Nat → Nat) (fresh fresh' : List Nat) : Prop :=
  ∀ i, inside i → (move i ∈ fresh' ↔ i ∈ fresh)

section Moves
variable {inside : Nat → Prop} {move : Nat → Nat} {fresh fresh' : List Nat}

/-- The first mentions are the same ones after a move that keeps positions apart. -/
theorem firstMentions_map (hinj : ∀ i j, inside i → inside j → move i = move j → i = j) (hf : fresh.Nodup)
    (hf' : fresh'.Nodup) (hsame : SameFresh inside move fresh fresh') {l : List Reached}
    (hl : ∀ x ∈ l, inside x.1) :
    firstMentions fresh' (l.map (Prod.map move id)) = (firstMentions fresh l).map (Prod.map move id) := by
  induction l generalizing fresh fresh' with
  | nil => rfl
  | cons x l ih =>
    obtain ⟨i, reason⟩ := x
    have hi : inside i := hl (i, reason) List.mem_cons_self
    have hrest : ∀ y ∈ l, inside y.1 := fun y hy => hl y (List.mem_cons_of_mem _ hy)
    by_cases hmem : i ∈ fresh
    · have hmem' : move i ∈ fresh' := (hsame i hi).mpr hmem
      have herase : SameFresh inside move (fresh.erase i) (fresh'.erase (move i)) := by
        intro j hj
        rw [hf.mem_erase_iff, hf'.mem_erase_iff, hsame j hj]
        exact and_congr_left fun _ => not_congr ⟨hinj j i hj hi, fun h => h ▸ rfl⟩
      simp [firstMentions, hmem, hmem', ih (hf.erase i) (hf'.erase _) herase hrest]
    · have hmem' : move i ∉ fresh' := fun h => hmem ((hsame i hi).mp h)
      simp [firstMentions, hmem, hmem', ih hf hf' hsame hrest]

theorem SameFresh.remaining (hsame : SameFresh inside move fresh fresh')
    (hinj : ∀ i j, inside i → inside j → move i = move j → i = j) {level : List Reached}
    (hlevel : ∀ x ∈ level, inside x.1) :
    SameFresh inside move (remaining fresh level) (remaining fresh' (level.map (Prod.map move id))) := by
  intro i hi
  have hmem : move i ∈ (level.map (Prod.map move id)).map Prod.fst ↔ i ∈ level.map Prod.fst := by
    simp only [List.mem_map, exists_exists_and_eq_and, Prod.map_fst]
    constructor
    · rintro ⟨x, hx, he⟩
      exact ⟨x, hx, hinj _ _ (hlevel x hx) hi he⟩
    · rintro ⟨x, hx, rfl⟩
      exact ⟨x, hx, rfl⟩
  simp only [Graph.remaining, List.mem_filter, hsame i hi, hmem]

end Moves

/-- The part of `g` that is reached occurs in `g'`, each position moved. -/
structure Embeds (g g' : Graph) (activeness activeness' : ActivenessTable) (inside : Nat → Prop)
    (move : Nat → Nat) : Prop where
  inj : ∀ i j, inside i → inside j → move i = move j → i = j
  indices : SameFresh inside move g.indices g'.indices
  start : ∀ x ∈ g.entrypoints, inside x.1
  entrypoints : g'.entrypoints = g.entrypoints.map (Prod.map move id)
  closed : ∀ i, inside i → ∀ x ∈ g.successors activeness i, inside x.1
  successors : ∀ i, inside i →
    g'.successors activeness' (move i) = (g.successors activeness i).map (Prod.map move id)

namespace Embeds
variable {g g' : Graph} {activeness activeness' : ActivenessTable} {inside : Nat → Prop} {move : Nat → Nat}

theorem inside_nextLevel (h : Embeds g g' activeness activeness' inside move) {fresh : List Nat}
    {level : List Reached} (hlevel : ∀ x ∈ level, inside x.1) :
    ∀ x ∈ g.nextLevel activeness fresh level, inside x.1 := by
  intro x hx
  obtain ⟨-, y, hy, hxy⟩ := of_mem_nextLevel hx
  exact h.closed y.1 (hlevel y hy) x hxy

theorem nextLevel_map (h : Embeds g g' activeness activeness' inside move) {fresh fresh' : List Nat}
    (hf : fresh.Nodup) (hf' : fresh'.Nodup) (hsame : SameFresh inside move fresh fresh')
    {level : List Reached} (hlevel : ∀ x ∈ level, inside x.1) :
    g'.nextLevel activeness' fresh' (level.map (Prod.map move id)) =
      (g.nextLevel activeness fresh level).map (Prod.map move id) := by
  have hflat : (level.map (Prod.map move id)).flatMap (fun x => g'.successors activeness' x.1) =
      (level.flatMap fun x => g.successors activeness x.1).map (Prod.map move id) := by
    rw [List.flatMap_map, List.map_flatMap]
    exact List.flatMap_congr fun x hx => h.successors x.1 (hlevel x hx)
  have hnext : g'.nextLevel activeness' fresh' (level.map (Prod.map move id)) =
      firstMentions fresh' ((level.map (Prod.map move id)).flatMap fun x => g'.successors activeness' x.1) := rfl
  rw [hnext, hflat]
  apply firstMentions_map h.inj hf hf' hsame
  intro x hx
  obtain ⟨y, hy, hxy⟩ := List.mem_flatMap.mp hx
  exact h.closed y.1 (hlevel y hy) x hxy

theorem spread_map (h : Embeds g g' activeness activeness' inside move) {fresh fresh' : List Nat}
    (hf : fresh.Nodup) (hf' : fresh'.Nodup) (hsame : SameFresh inside move fresh fresh')
    {level : List Reached} (hlevel : ∀ x ∈ level, inside x.1) :
    g'.spread activeness' fresh' (level.map (Prod.map move id)) =
      (g.spread activeness fresh level).map (Prod.map move id) := by
  induction fresh, level using spread.induct g activeness generalizing fresh' with
  | case1 fresh level hnone =>
    have hnext := h.nextLevel_map hf hf' hsame hlevel
    rw [hnone, List.map_nil] at hnext
    rw [spread, if_pos hnext, spread, if_pos hnone]
  | case2 fresh level hsome ih =>
    have hnext := h.nextLevel_map hf hf' hsame hlevel
    have hinside : ∀ x ∈ g.nextLevel activeness fresh level, inside x.1 := h.inside_nextLevel hlevel
    have hnext' : g'.nextLevel activeness' fresh' (level.map (Prod.map move id)) ≠ [] := by
      rw [hnext, ne_eq, List.map_eq_nil_iff]
      exact hsome
    have hrest := ih (nodup_remaining hf _) (nodup_remaining hf' _) (hsame.remaining h.inj hinside) hinside
    have hspread : g.spread activeness fresh level = level ++
        g.spread activeness (remaining fresh (g.nextLevel activeness fresh level)) (g.nextLevel activeness fresh level) := by
      rw [spread, if_neg hsome]
    rw [hspread, List.map_append, ← hrest, spread, if_neg hnext', hnext]

theorem reach_map (h : Embeds g g' activeness activeness' inside move) :
    g'.reach activeness' = (g.reach activeness).map (Prod.map move id) := by
  have hsame : SameFresh inside move (remaining g.indices g.entrypoints) (remaining g'.indices g'.entrypoints) := by
    rw [h.entrypoints]
    exact h.indices.remaining h.inj h.start
  have hspread := h.spread_map (nodup_remaining (nodup_indices g) _) (nodup_remaining (nodup_indices g') _)
    hsame h.start
  rw [reach, h.entrypoints] at *
  exact hspread

theorem inside_reach (h : Embeds g g' activeness activeness' inside move) :
    ∀ x ∈ g.reach activeness, inside x.1 :=
  spread_induction h.start fun i hi x hx _ => h.closed i hi x hx

end Embeds

end ScenePrune.Graph
