import ScenePrune.Proofs.Scene.Hierarchy
import ScenePrune.Proofs.Scene.Invariant

/-! # Walking up from a node that is to be loaded

The walk collects the nodes that the scene lacks, from the node up to the top or to a node of the
scene. If it succeeds, these can be inserted from the top down; if it fails, it has met the fault of
the node that it started from.
-/
namespace ScenePrune.Scene
open Relation

variable {nodes available path up result : List Node} {s : Scene} {n : Node} {e : SceneError}
  {child id : NodeId}

/-- The listed nodes from `id` up to the top or to a node of the scene, which lacks them; topmost first. -/
inductive Ascent (nodes : List Node) (s : Scene) : NodeId → List Node → Prop where
  | known {id : NodeId} : id ∈ s.ids → Ascent nodes s id []
  | top {n : Node} : n ∈ nodes → n.id ∉ s.ids → n.parent? = none → Ascent nodes s n.id [n]
  | child {n : Node} {p : NodeId} {up : List Node} : n ∈ nodes → n.id ∉ s.ids → n.parent? = some p →
      Ascent nodes s p up → n.id ∉ up.map (·.id) → Ascent nodes s n.id (up ++ [n])

theorem any_id_iff : path.any (·.id = id) = true ↔ id ∈ path.map (·.id) := by
  simp

theorem exists_ascent_of_pendingPath (havailable : ∀ m ∈ available, m ∈ nodes)
    (h : s.pendingPath available path child id = .ok result) :
    ∃ up, result = up ++ path ∧ Ascent nodes s id up ∧ ∀ m ∈ up, m.id ∉ path.map (·.id) := by
  fun_induction pendingPath s available path child id with
  | case1 available path child id hknown =>
    cases h
    exact ⟨[], rfl, .known (contains_iff.mp hknown), by simp⟩
  | case2 => cases h
  | case3 => cases h
  | case4 available path child id hunknown hpath n hfound hparent =>
    cases h
    obtain rfl : n.id = id := by simpa using List.find?_some hfound
    have hn := havailable n (List.mem_of_find?_eq_some hfound)
    have hnew : n.id ∉ s.ids := fun hid => hunknown (contains_iff.mpr hid)
    refine ⟨[n], rfl, .top hn hnew hparent, fun m hm => ?_⟩
    rw [List.mem_singleton.mp hm]
    exact mt any_id_iff.mpr hpath
  | case5 available path child id hunknown hpath n hfound parent hparent ih =>
    obtain rfl : n.id = id := by simpa using List.find?_some hfound
    have hn := havailable n (List.mem_of_find?_eq_some hfound)
    have hnew : n.id ∉ s.ids := fun hid => hunknown (contains_iff.mpr hid)
    obtain ⟨up, rfl, hup, hfree⟩ := ih (fun m hm => havailable m (List.mem_of_mem_eraseP hm)) h
    simp only [List.map_cons, List.mem_cons, not_or] at hfree
    refine ⟨up ++ [n], by simp, .child hn hnew hparent hup fun hmem => ?_, fun m hm => ?_⟩
    · obtain ⟨m, hm, hid⟩ := List.mem_map.mp hmem
      exact (hfree m hm).1 hid
    · rcases List.mem_append.mp hm with hm | hm
      · exact (hfree m hm).2
      · rw [List.mem_singleton.mp hm]
        exact mt any_id_iff.mpr hpath

/-- A walk that fails has met the fault of the node that it started from. -/
theorem fault_of_trail (hids : (nodes.map (·.id)).Nodup) (h : s.pendingPath available path child id = .error e)
    (havailable : ∀ m ∈ available, m ∈ nodes) (hrest : ∀ m ∈ nodes, m.id ∉ path.map (·.id) → m ∈ available)
    {top : Node} {below : List Node} (hpath : path = top :: below) (hchild : top.id = child)
    (hparent : top.parent? = some id) (htrail : Trail nodes n path) : Fault nodes n e := by
  fun_induction pendingPath s available path child id generalizing top below with
  | case1 => cases h
  | case2 available path child id hunknown hmet =>
    cases h
    subst hpath
    obtain ⟨c, hc, rfl⟩ := List.mem_map.mp (any_id_iff.mp hmet)
    have hcnodes : c ∈ nodes := htrail.subset c hc
    exact htrail.cycle hids hc ⟨hcnodes, hparent⟩
  | case3 available path child id hunknown hmet hnone =>
    cases h
    subst hpath hchild
    refine htrail.missing hids hparent fun hid => ?_
    obtain ⟨m, hm, rfl⟩ := List.mem_map.mp hid
    have hfree : m.id ∉ (top :: below).map (·.id) := mt any_id_iff.mpr hmet
    simpa using List.find?_eq_none.mp hnone m (hrest m hm hfree)
  | case4 => cases h
  | case5 available path child id hunknown hmet m hfound parent hmparent ih =>
    obtain rfl : m.id = id := by simpa using List.find?_some hfound
    have hm := havailable m (List.mem_of_find?_eq_some hfound)
    have hfree : m.id ∉ path.map (·.id) := mt any_id_iff.mpr hmet
    subst hpath
    refine ih h (fun x hx => havailable x (List.mem_of_mem_eraseP hx)) (fun x hx hxfree => ?_) rfl rfl hmparent
      (.up htrail ⟨hm, hparent⟩ hfree)
    rw [List.map_cons, List.mem_cons, not_or] at hxfree
    exact (List.mem_eraseP_of_neg (by simpa using hxfree.1)).mpr (hrest x hx hxfree.2)

theorem fault_of_pendingPath (hids : (nodes.map (·.id)).Nodup) (hn : n ∈ nodes)
    (h : s.pendingPath nodes [] n.id n.id = .error e) : Fault nodes n e := by
  rw [pendingPath] at h
  split at h
  · cases h
  · simp only [List.any_nil, Bool.false_eq_true, if_false] at h
    split at h
    case h_1 hnone => cases (find?_of_mem hids hn).symm.trans hnone
    case h_2 m hfound =>
      obtain rfl := Option.some.inj ((find?_of_mem hids hn).symm.trans hfound)
      split at h
      case h_1 => cases h
      case h_2 parent hparent =>
        refine fault_of_trail hids h (fun m hm => List.mem_of_mem_eraseP hm) (fun m hm hfree => ?_) rfl rfl hparent (.start hn)
        exact (List.mem_eraseP_of_neg (by simpa using hfree)).mpr hm

theorem Ascent.mem_ids (h : Ascent nodes s id up) : id ∈ s.ids ∨ id ∈ up.map (·.id) := by
  cases h with
  | known hid => exact Or.inl hid
  | top => exact Or.inr (by simp)
  | child => exact Or.inr (by simp)

theorem Ascent.subset (h : Ascent nodes s id up) : ∀ a ∈ up, a ∈ nodes ∧ a.id ∉ s.ids := by
  induction h with
  | known => simp
  | top hn hnew _ => simpa using ⟨hn, hnew⟩
  | child hn hnew _ _ _ ih =>
    intro a ha
    rcases List.mem_append.mp ha with ha | ha
    · exact ih a ha
    · exact List.mem_singleton.mp ha ▸ ⟨hn, hnew⟩

/-- What is met on the way up from the parent of a node lies above that node. -/
theorem Ascent.above (h : Ascent nodes s id up) (hp : n.parent? = some id) :
    ∀ a ∈ up, TransGen (ParentIn nodes) n a := by
  induction h generalizing n with
  | known => simp
  | top hm _ _ => simpa using TransGen.single ⟨hm, hp⟩
  | child hm _ hmp _ _ ih =>
    intro a ha
    rcases List.mem_append.mp ha with ha | ha
    · exact .head ⟨hm, hp⟩ (ih hmp a ha)
    · exact List.mem_singleton.mp ha ▸ .single ⟨hm, hp⟩

theorem Ascent.pairwise (h : Ascent nodes s id up) : up.Pairwise fun a b => TransGen (ParentIn nodes) b a := by
  induction h with
  | known => exact .nil
  | top => exact List.pairwise_singleton _ _
  | child _ _ hp hup _ ih =>
    refine List.pairwise_append.mpr ⟨ih, List.pairwise_singleton _ _, fun a ha b hb => ?_⟩
    exact List.mem_singleton.mp hb ▸ hup.above hp a ha

theorem Ascent.reaches (hids : (nodes.map (·.id)).Nodup) (hn : n ∈ nodes) (h : Ascent nodes s n.id up) :
    ∀ a ∈ up, ReflTransGen (ParentIn nodes) n a := by
  have hself : ∀ {m : Node}, m ∈ nodes → m.id = n.id → ReflTransGen (ParentIn nodes) n m := by
    intro m hm hid
    rw [List.inj_on_of_nodup_map hids hm hn hid]
  generalize hid : n.id = id at h
  cases h with
  | known => simp
  | top hm _ _ => simpa using hself hm hid.symm
  | child hm _ hp hup _ =>
    intro a ha
    have hm := hself hm hid.symm
    rcases List.mem_append.mp ha with ha | ha
    · exact hm.trans (hup.above hp a ha).to_reflTransGen
    · exact List.mem_singleton.mp ha ▸ hm

/-- A node whose parent is there is inserted alone. -/
theorem Ascent.eq_singleton (hids : (nodes.map (·.id)).Nodup) (hn : n ∈ nodes) (hnew : n.id ∉ s.ids)
    (hparent : ∀ p, n.parent? = some p → p ∈ s.ids) (h : Ascent nodes s n.id up) : up = [n] := by
  generalize hid : n.id = id at h
  cases h with
  | known hknown => exact absurd (hid ▸ hknown) hnew
  | top hm _ _ => rw [List.inj_on_of_nodup_map hids hm hn hid.symm]
  | child hm _ hp hup _ =>
    obtain rfl := List.inj_on_of_nodup_map hids hm hn hid.symm
    have hknown := hparent _ hp
    cases hup with
    | known => rfl
    | top _ hnew _ => exact absurd hknown hnew
    | child _ hnew _ _ _ => exact absurd hknown hnew

theorem insert_eq_ok (hnew : n.id ∉ s.ids) (hparent : ∀ p, n.parent? = some p → p ∈ s.ids) :
    ∃ s', s.insert n = .ok s' := by
  rw [insert_eq, if_neg fun h => hnew (contains_iff.mp h)]
  cases hp : n.parent? with
  | none => exact ⟨_, rfl⟩
  | some p => exact ⟨_, if_pos (contains_iff.mpr (hparent p hp))⟩

theorem Ascent.insertAll (h : Ascent nodes s id up) :
    ∃ s', s.insertAll up = .ok s' ∧ s'.nodes = s.nodes ++ up := by
  induction h with
  | known => exact ⟨s, rfl, by simp⟩
  | @top n _ hnew hparent =>
    obtain ⟨s', hs'⟩ := insert_eq_ok hnew (by simp [hparent])
    refine ⟨s', ?_, (insert_ok hs').2.2.1⟩
    rw [Scene.insertAll, List.foldlM_cons, hs']
    rfl
  | @child n p up _ hnew hp hup hfree ih =>
    obtain ⟨s₁, h₁, hnodes⟩ := ih
    have hids : s₁.ids = s.ids ++ up.map (·.id) := by rw [ids, hnodes, List.map_append, ids]
    have hunknown : n.id ∉ s₁.ids := by
      rw [hids, List.mem_append, not_or]
      exact ⟨hnew, hfree⟩
    have hparent : ∀ q, n.parent? = some q → q ∈ s₁.ids := by
      rintro q hq
      obtain rfl := Option.some.inj (hp.symm.trans hq)
      exact hids ▸ List.mem_append.mpr hup.mem_ids
    obtain ⟨s', hs'⟩ := insert_eq_ok hunknown hparent
    refine ⟨s', ?_, by rw [(insert_ok hs').2.2.1, hnodes, List.append_assoc]⟩
    rw [Scene.insertAll] at h₁ ⊢
    rw [List.foldlM_append, h₁]
    change [n].foldlM insert s₁ = .ok s'
    rw [List.foldlM_cons, hs']
    rfl

end ScenePrune.Scene
