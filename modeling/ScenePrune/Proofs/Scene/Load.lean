import Mathlib.Order.Lattice.Nat
import ScenePrune.Proofs.Scene.Ascent
import ScenePrune.Proofs.Scene.Depth

/-! # Loading a list of nodes

Each node of the list is inserted after those above it that the scene still lacks. While this goes
well, the scene holds what is at or above the nodes taken so far. The first node whose way up meets a
fault ends it. So a list is loaded if and only if it is a valid hierarchy.
-/
namespace ScenePrune.Scene
open Relation

variable {nodes : List Node} {s : Scene} {n : Node} {e : SceneError}

section Repeats

theorem notMem_of_nodup {l r : List Node} (h : ((l ++ n :: r).map (·.id)).Nodup) : n.id ∉ l.map (·.id) := by
  rw [List.map_append, List.map_cons] at h
  exact fun hmem => (List.nodup_append.mp h).2.2 _ hmem _ List.mem_cons_self rfl

theorem repeatedId?_eq_none_iff {seen : List NodeId} : repeatedId? seen nodes = none ↔
    (nodes.map (·.id)).Nodup ∧ ∀ m ∈ nodes, m.id ∉ seen := by
  induction nodes generalizing seen with
  | nil => simp [repeatedId?]
  | cons m rest ih =>
    unfold repeatedId?
    split
    case isTrue hseen => simp [hseen]
    case isFalse hseen =>
      rw [ih, List.map_cons, List.nodup_cons, List.forall_mem_cons]
      simp only [List.mem_cons, not_or, List.mem_map, not_exists, not_and]
      constructor
      · rintro ⟨hrest, hnew⟩
        exact ⟨⟨fun x hx => (hnew x hx).1, hrest⟩, hseen, fun x hx => (hnew x hx).2⟩
      · rintro ⟨⟨hnew, hrest⟩, -, hold⟩
        exact ⟨hrest, fun x hx => ⟨hnew x hx, hold x hx⟩⟩

theorem repeatedId?_of_append {seen : List NodeId} {l r : List Node} (hl : (l.map (·.id)).Nodup)
    (hnew : ∀ m ∈ l, m.id ∉ seen) (hn : n.id ∈ seen ∨ n.id ∈ l.map (·.id)) :
    repeatedId? seen (l ++ n :: r) = some n.id := by
  induction l generalizing seen with
  | nil =>
    have hseen : n.id ∈ seen := by simpa using hn
    simp [repeatedId?, hseen]
  | cons m rest ih =>
    obtain ⟨hm, hrest⟩ := List.nodup_cons.mp hl
    rw [List.cons_append, repeatedId?, if_neg (hnew m List.mem_cons_self)]
    refine ih hrest (fun x hx => ?_) ?_
    · rw [List.mem_cons, not_or]
      exact ⟨fun he => hm (List.mem_map.mpr ⟨x, hx, he⟩), hnew x (List.mem_cons_of_mem _ hx)⟩
    · simpa [or_assoc, or_comm, or_left_comm] using hn

theorem exists_append_of_repeatedId? {seen : List NodeId} {id : NodeId} (h : repeatedId? seen nodes = some id) :
    ∃ l m r, nodes = l ++ m :: r ∧ (l.map (·.id)).Nodup ∧ (∀ x ∈ l, x.id ∉ seen) ∧
      (m.id ∈ seen ∨ m.id ∈ l.map (·.id)) ∧ id = m.id := by
  induction nodes generalizing seen with
  | nil => cases h
  | cons x rest ih =>
    unfold repeatedId? at h
    split at h
    case isTrue hseen =>
      cases h
      exact ⟨[], x, rest, rfl, List.nodup_nil, by simp, Or.inl hseen, rfl⟩
    case isFalse hseen =>
      obtain ⟨l, m, r, rfl, hl, hnew, hm, rfl⟩ := ih h
      simp only [List.mem_cons, not_or] at hnew hm
      refine ⟨x :: l, m, r, rfl, ?_, ?_, ?_, rfl⟩
      · rw [List.map_cons, List.nodup_cons]
        refine ⟨fun hx => ?_, hl⟩
        obtain ⟨y, hy, he⟩ := List.mem_map.mp hx
        exact (hnew y hy).1 he
      · intro y hy
        rcases List.mem_cons.mp hy with rfl | hy
        · exact hseen
        · exact (hnew y hy).2
      · rw [List.map_cons, List.mem_cons]
        tauto

end Repeats

section Loaded

noncomputable def firstBelow (nodes : List Node) (a : Node) : Nat :=
  sInf {k | ∃ m, nodes[k]? = some m ∧ ReflTransGen (ParentIn nodes) m a}

def Precedes (nodes : List Node) (a b : Node) : Prop :=
  firstBelow nodes a < firstBelow nodes b ∨
    firstBelow nodes a = firstBelow nodes b ∧ TransGen (ParentIn nodes) b a

/-- What a scene holds once the nodes of `l` were taken from the list: they and what is above them. -/
structure Loaded (nodes l : List Node) (s : Scene) : Prop where
  wellFormed : s.WellFormed
  mem_nodes : ∀ a ∈ s.nodes, a ∈ nodes
  done : ∀ n ∈ l, n ∈ s.nodes
  needed : ∀ a ∈ s.nodes, ∃ n ∈ l, ReflTransGen (ParentIn nodes) n a
  sorted : s.nodes.Pairwise (Precedes nodes)
  inOrder : ParentsFirst nodes → s.nodes = l

variable {l r : List Node} {a b : Node} {up : List Node} {s' : Scene}

theorem Loaded.closed (hids : (nodes.map (·.id)).Nodup) (h : Loaded nodes l s) (ha : a ∈ s.nodes)
    (hab : ReflTransGen (ParentIn nodes) a b) : b ∈ s.nodes := by
  induction hab with
  | refl => exact ha
  | tail _ hp ih =>
    obtain ⟨m, hm, hid⟩ := exists_node_of_mem_ids (h.wellFormed.parent_mem ih hp.2)
    rw [← List.inj_on_of_nodup_map hids (h.mem_nodes m hm) hp.1 hid]
    exact hm

theorem firstBelow_lt (hnodes : nodes = l ++ r) (hn : n ∈ l) (ha : ReflTransGen (ParentIn nodes) n a) :
    firstBelow nodes a < l.length := by
  obtain ⟨k, hk, rfl⟩ := List.getElem_of_mem hn
  have hget : nodes[k]? = some l[k] := by
    rw [hnodes, List.getElem?_append_left hk, List.getElem?_eq_getElem hk]
  exact Nat.lt_of_le_of_lt (Nat.sInf_le ⟨_, hget, ha⟩) hk

theorem firstBelow_eq (hnodes : nodes = l ++ n :: r) (ha : ReflTransGen (ParentIn nodes) n a)
    (hnone : ∀ m ∈ l, ¬ ReflTransGen (ParentIn nodes) m a) : firstBelow nodes a = l.length := by
  have hget : nodes[l.length]? = some n := by simp [hnodes]
  refine Nat.le_antisymm (Nat.sInf_le ⟨n, hget, ha⟩) (le_csInf ⟨_, n, hget, ha⟩ ?_)
  rintro k ⟨m, hm, hma⟩
  by_contra hlt
  rw [Nat.not_le] at hlt
  rw [hnodes, List.getElem?_append_left hlt] at hm
  exact hnone m (List.mem_of_getElem? hm) hma

theorem Loaded.empty : Loaded nodes [] ∅ where
  wellFormed := .empty
  mem_nodes := by rintro a ⟨⟩
  done := by rintro n ⟨⟩
  needed := by rintro a ⟨⟩
  sorted := .nil
  inOrder := fun _ => rfl

/-- Inserting the next node of the list with those above it. -/
theorem Loaded.step (hids : (nodes.map (·.id)).Nodup) (hnodes : nodes = l ++ n :: r) (h : Loaded nodes l s)
    (hup : Ascent nodes s n.id up) (hs' : s'.WellFormed) (hs'nodes : s'.nodes = s.nodes ++ up) :
    Loaded nodes (l ++ [n]) s' := by
  have hn : n ∈ nodes := by simp [hnodes]
  have hold : ∀ a ∈ s.nodes, firstBelow nodes a < l.length := by
    intro a ha
    obtain ⟨m, hm, hma⟩ := h.needed a ha
    exact firstBelow_lt hnodes hm hma
  have hnew : ∀ a ∈ up, firstBelow nodes a = l.length := by
    intro a ha
    refine firstBelow_eq hnodes (hup.reaches hids hn a ha) fun m hm hma => ?_
    exact (hup.subset a ha).2 (List.mem_map_of_mem (h.closed hids (h.done m hm) hma))
  have hmem : ∀ a, a ∈ s'.nodes ↔ a ∈ s.nodes ∨ a ∈ up := fun a => by rw [hs'nodes, List.mem_append]
  have hlisted : ∀ a ∈ s'.nodes, a ∈ nodes := by
    intro a ha
    rcases (hmem a).mp ha with ha | ha
    · exact h.mem_nodes a ha
    · exact (hup.subset a ha).1
  constructor
  case wellFormed => exact hs'
  case mem_nodes => exact hlisted
  case done =>
    intro m hm
    rcases List.mem_append.mp hm with hm | hm
    · exact (hmem m).mpr (Or.inl (h.done m hm))
    · obtain rfl := List.mem_singleton.mp hm
      have hid : m.id ∈ s'.nodes.map (·.id) := by
        rw [hs'nodes, List.map_append, List.mem_append]
        exact hup.mem_ids
      obtain ⟨x, hx, hid⟩ := List.mem_map.mp hid
      rwa [List.inj_on_of_nodup_map hids (hlisted x hx) hn hid] at hx
  case needed =>
    intro a ha
    rcases (hmem a).mp ha with ha | ha
    · obtain ⟨m, hm, hma⟩ := h.needed a ha
      exact ⟨m, List.mem_append_left _ hm, hma⟩
    · exact ⟨n, by simp, hup.reaches hids hn a ha⟩
  case sorted =>
    rw [hs'nodes]
    refine List.pairwise_append.mpr ⟨h.sorted, ?_, fun a ha b hb => Or.inl ?_⟩
    · exact hup.pairwise.imp_of_mem fun ha hb hba => Or.inr ⟨(hnew _ ha).trans (hnew _ hb).symm, hba⟩
    · rw [hnew b hb]
      exact hold a ha
  case inOrder =>
    intro hfirst
    have hsl := h.inOrder hfirst
    have hunknown : n.id ∉ s.ids := by
      rw [ids, hsl]
      exact notMem_of_nodup (hnodes ▸ hids)
    have hparent : ∀ p, n.parent? = some p → p ∈ s.ids := by
      intro p hp
      rw [ids, hsl]
      exact hfirst l n r hnodes p hp
    rw [hs'nodes, hsl, hup.eq_singleton hids hn hunknown hparent]

theorem HasDepth.rooted (hs : s.WellFormed) (hmem : ∀ a ∈ s.nodes, a ∈ nodes) {id : NodeId} {k : Nat}
    (h : (Host.view s).HasDepth id k) : ∀ n ∈ s.nodes, n.id = id → Rooted nodes n := by
  induction h with
  | top hp =>
    rintro n hn rfl
    exact .top ((hs.parent?_view hn).symm.trans hp)
  | child hp _ ih =>
    rintro n hn rfl
    rw [hs.parent?_view hn] at hp
    obtain ⟨m, hm, rfl⟩ := exists_node_of_mem_ids (hs.parent_mem hn hp)
    exact .child ⟨hmem m hm, hp⟩ (ih m hm rfl)

theorem Loaded.rooted (h : Loaded nodes l s) (hn : n ∈ s.nodes) : Rooted nodes n := by
  obtain ⟨k, -, hdepth⟩ := h.wellFormed.hasDepth hn
  exact HasDepth.rooted h.wellFormed h.mem_nodes hdepth n hn rfl

/-- Taking the remaining nodes either loads them all or ends at the first whose way up meets a fault. -/
theorem Loaded.run (hids : (nodes.map (·.id)).Nodup) (hnodes : nodes = l ++ r) (h : Loaded nodes l s) :
    let load := r.foldlM (fun s node => do s.insertAll (← s.pendingPath nodes [] node.id node.id)) s
    (∃ s', load = .ok s' ∧ Loaded nodes nodes s') ∨
      ∃ e l' n r', load = .error e ∧ nodes = l' ++ n :: r' ∧ (∀ m ∈ l', Rooted nodes m) ∧ Fault nodes n e := by
  induction r generalizing l s with
  | nil =>
    rw [List.append_nil] at hnodes
    exact Or.inl ⟨s, rfl, hnodes ▸ h⟩
  | cons n r ih =>
    have hn : n ∈ nodes := by simp [hnodes]
    simp only [List.foldlM_cons]
    cases hpath : s.pendingPath nodes [] n.id n.id with
    | error e =>
      have hrooted : ∀ m ∈ l, Rooted nodes m := fun m hm => h.rooted (h.done m hm)
      exact Or.inr ⟨e, l, n, r, rfl, hnodes, hrooted, fault_of_pendingPath hids hn hpath⟩
    | ok path =>
      obtain ⟨up, rfl, hup, -⟩ := exists_ascent_of_pendingPath (fun m hm => hm) hpath
      obtain ⟨s', hs', hs'nodes⟩ := hup.insertAll
      have hstep := h.step hids hnodes hup (h.wellFormed.insertAll hs') hs'nodes
      have hnext := ih (by simp [hnodes]) hstep
      rw [List.append_nil]
      simpa [bind, Except.bind, hs'] using hnext

end Loaded

/-- The error that a list is refused with: that of the first repeated id, or else the fault of the first
node whose way up does not end. -/
inductive Refused (nodes : List Node) : SceneError → Prop where
  | duplicate {l r : List Node} {n : Node} : nodes = l ++ n :: r → (l.map (·.id)).Nodup →
      n.id ∈ l.map (·.id) → Refused nodes (.duplicateNode n.id)
  | faulty {l r : List Node} {n : Node} {e : SceneError} : (nodes.map (·.id)).Nodup → nodes = l ++ n :: r →
      (∀ m ∈ l, Rooted nodes m) → ¬ Rooted nodes n → Fault nodes n e → Refused nodes e

section Outcome

theorem Loaded.perm (hids : (nodes.map (·.id)).Nodup) (h : Loaded nodes nodes s) : s.nodes.Perm nodes :=
  (List.perm_ext_iff_of_nodup (h.wellFormed.nodup.of_map _) (hids.of_map _)).mpr
    fun a => ⟨h.mem_nodes a, h.done a⟩

theorem Loaded.valid (hids : (nodes.map (·.id)).Nodup) (h : Loaded nodes nodes s) : ValidHierarchy nodes where
  nodup := hids
  parents := by
    intro n hn p hp
    obtain ⟨m, hm, rfl⟩ := exists_node_of_mem_ids (h.wellFormed.parent_mem (h.done n hn) hp)
    exact List.mem_map_of_mem (h.mem_nodes m hm)
  acyclic := fun n hn => (h.rooted (h.done n hn)).not_onCycle hids

/-- In the loaded scene whatever lies above a node is less deep. -/
theorem Loaded.depth_lt (h : Loaded nodes nodes s) {a b : Node} (hb : b ∈ s.nodes)
    (hab : TransGen (ParentIn nodes) b a) : s.view.depth a.id < s.view.depth b.id := by
  induction hab with
  | single hp => exact (h.wellFormed.depth_child hb hp.2).symm ▸ Nat.lt_succ_self _
  | @tail c d hbc hp ih =>
    have hc : c ∈ s.nodes := by
      cases hbc with
      | single hc => exact h.done c hc.1
      | tail _ hc => exact h.done c hc.1
    have hdepth : s.view.depth c.id = s.view.depth d.id + 1 := h.wellFormed.depth_child hc hp.2
    omega

/-- Every list is either loaded or refused. -/
theorem ofNodes_cases (nodes : List Node) :
    (∃ s, ofNodes nodes = .ok s ∧ (nodes.map (·.id)).Nodup ∧ Loaded nodes nodes s) ∨
      ∃ e, ofNodes nodes = .error e ∧ Refused nodes e := by
  unfold ofNodes
  cases hrepeat : repeatedId? [] nodes with
  | some id =>
    obtain ⟨l, n, r, hnodes, hl, -, hn, rfl⟩ := exists_append_of_repeatedId? hrepeat
    exact Or.inr ⟨_, rfl, .duplicate hnodes hl (by simpa using hn)⟩
  | none =>
    have hids := (repeatedId?_eq_none_iff.mp hrepeat).1
    rcases Loaded.empty.run hids rfl with ⟨s, hs, hloaded⟩ | ⟨e, l, n, r, he, hnodes, hl, hfault⟩
    · exact Or.inl ⟨s, hs, hids, hloaded⟩
    · exact Or.inr ⟨e, he, .faulty hids hnodes hl (fun hroot => hroot.not_fault hids hfault) hfault⟩

theorem Refused.not_valid {e : SceneError} (h : Refused nodes e) : ¬ ValidHierarchy nodes := by
  intro hvalid
  cases h with
  | duplicate hnodes _ hn => exact notMem_of_nodup (hnodes ▸ hvalid.nodup) hn
  | faulty _ hnodes _ _ hfault => exact hvalid.not_fault (by simp [hnodes]) hfault

theorem valid_of_ofNodes (h : ofNodes nodes = .ok s) : ValidHierarchy nodes ∧ s.WellFormed ∧ s.nodes.Perm nodes := by
  rcases ofNodes_cases nodes with ⟨s', hs', hids, hloaded⟩ | ⟨e, he, -⟩
  · cases h.symm.trans hs'
    exact ⟨hloaded.valid hids, hloaded.wellFormed, hloaded.perm hids⟩
  · cases h.symm.trans he

theorem ValidHierarchy.exists_ofNodes (h : ValidHierarchy nodes) : ∃ s, ofNodes nodes = .ok s := by
  rcases ofNodes_cases nodes with ⟨s, hs, -⟩ | ⟨e, -, hrefused⟩
  · exact ⟨s, hs⟩
  · exact absurd h hrefused.not_valid

/-- A list that can be loaded can be loaded in any order, into scenes that differ in their order only. -/
theorem exists_ofNodes_of_perm (h : ofNodes nodes = .ok s) {nodes' : List Node} (hperm : nodes.Perm nodes') :
    ∃ s', ofNodes nodes' = .ok s' ∧ s'.nodes.Perm s.nodes := by
  obtain ⟨hvalid, -, hnodes⟩ := valid_of_ofNodes h
  obtain ⟨s', hs'⟩ := (hvalid.perm hperm).exists_ofNodes
  obtain ⟨-, -, hnodes'⟩ := valid_of_ofNodes hs'
  exact ⟨s', hs', hnodes'.trans (hperm.symm.trans hnodes.symm)⟩

theorem WellFormed.validHierarchy (hs : s.WellFormed) : ValidHierarchy s.nodes where
  nodup := hs.nodup
  parents := fun _ hn _ hp => hs.parent_mem hn hp
  acyclic := by
    intro n hn
    obtain ⟨k, -, hdepth⟩ := hs.hasDepth hn
    exact (HasDepth.rooted hs (fun _ ha => ha) hdepth n hn rfl).not_onCycle hs.nodup

theorem eq_of_first {α : Type} {p : α → Prop} {l l' r r' : List α} {a a' : α} (h : l ++ a :: r = l' ++ a' :: r')
    (hl : ∀ x ∈ l, p x) (ha : ¬ p a) (hl' : ∀ x ∈ l', p x) (ha' : ¬ p a') : a = a' := by
  induction l generalizing l' with
  | nil =>
    cases l' with
    | nil => exact (List.cons.inj h).1
    | cons y l' => exact absurd ((List.cons.inj h).1 ▸ hl' y List.mem_cons_self) ha
  | cons x l ih =>
    cases l' with
    | nil => exact absurd ((List.cons.inj h).1 ▸ hl x List.mem_cons_self) ha'
    | cons y l' =>
      obtain ⟨-, h⟩ := List.cons.inj h
      exact ih h (List.forall_mem_cons.mp hl).2 (List.forall_mem_cons.mp hl').2

theorem ofNodes_of_duplicate {l r : List Node} (hnodes : nodes = l ++ n :: r) (hl : (l.map (·.id)).Nodup)
    (hn : n.id ∈ l.map (·.id)) : ofNodes nodes = .error (.duplicateNode n.id) := by
  have hrepeat : repeatedId? [] nodes = some n.id := by
    rw [hnodes]
    exact repeatedId?_of_append hl (by simp) (Or.inr hn)
  rw [ofNodes, hrepeat]

theorem ofNodes_eq_error_iff {e : SceneError} : ofNodes nodes = .error e ↔ Refused nodes e := by
  constructor
  · intro h
    rcases ofNodes_cases nodes with ⟨s, hs, -⟩ | ⟨e', he', hrefused⟩
    · cases h.symm.trans hs
    · cases h.symm.trans he'
      exact hrefused
  · intro h
    cases h with
    | duplicate hnodes hl hn => exact ofNodes_of_duplicate hnodes hl hn
    | faulty hids hnodes hl hn hfault =>
      rcases ofNodes_cases nodes with ⟨s, -, -, hloaded⟩ | ⟨e', he', hrefused⟩
      · exact absurd hfault ((hloaded.valid hids).not_fault (by simp [hnodes]))
      · cases hrefused with
        | duplicate hnodes' _ hn' => exact absurd hn' (notMem_of_nodup (hnodes' ▸ hids))
        | faulty _ hnodes' hl' hn' hfault' =>
          obtain rfl := eq_of_first (hnodes.symm.trans hnodes') hl hn hl' hn'
          exact hfault.unique hids hfault' ▸ he'

/-- Loading accepts just the valid hierarchies. The scene has the nodes of the list, by the first place
of their subtrees in the list and then by depth; a list with parents first keeps its order. A list that
is no valid hierarchy is refused with the error of its first repeated id or else of its first fault. -/
theorem load_exact (nodes : List Node) :
    ((∃ s, ofNodes nodes = .ok s) ↔ ValidHierarchy nodes) ∧
    (∀ s, ofNodes nodes = .ok s → s.nodes.Perm nodes ∧
      (s.nodes.Pairwise fun a b => firstBelow nodes a < firstBelow nodes b ∨
        firstBelow nodes a = firstBelow nodes b ∧ s.view.depth a.id < s.view.depth b.id) ∧
      (ParentsFirst nodes → s.nodes = nodes)) ∧
    ∀ e, ofNodes nodes = .error e ↔ Refused nodes e := by
  refine ⟨?_, fun s hs => ?_, fun e => ofNodes_eq_error_iff⟩
  · rcases ofNodes_cases nodes with ⟨s, hs, hids, hloaded⟩ | ⟨e, he, hrefused⟩
    · exact ⟨fun _ => hloaded.valid hids, fun _ => ⟨s, hs⟩⟩
    · refine ⟨fun ⟨s, hs⟩ => ?_, fun hvalid => absurd hvalid hrefused.not_valid⟩
      cases hs.symm.trans he
  · rcases ofNodes_cases nodes with ⟨s', hs', hids, hloaded⟩ | ⟨e, he, -⟩
    · cases hs.symm.trans hs'
      refine ⟨hloaded.perm hids, hloaded.sorted.imp_of_mem fun ha hb hab => ?_, hloaded.inOrder⟩
      exact hab.imp_right fun ⟨hplace, habove⟩ => ⟨hplace, hloaded.depth_lt hb habove⟩
    · cases hs.symm.trans he

/-- The way up from 5 leads onto a cycle, which it enters at 2. -/
example : (ofNodes
    [{ id := 5, type := "MeshRenderer", kind := .component, parent? := some 2 },
     { id := 1, type := "Transform", kind := .transform, parent? := some 2 },
     { id := 2, type := "Transform", kind := .transform, parent? := some 1 }]).map ids =
    .error (.hierarchyCycle 2) := by cbv

end Outcome

end ScenePrune.Scene
