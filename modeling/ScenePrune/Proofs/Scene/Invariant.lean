import ScenePrune.Proofs.OrderedMap
import ScenePrune.Proofs.Scene.Edit
import ScenePrune.Proofs.Scene.View
import ScenePrune.Scene.Load

/-! # The invariant of scenes in memory

Every scene that is loaded or built by the operations lists each node after its parent, keeps the
children of each node in the order of the nodes, and has given out no id from `nextId` on.
-/
namespace ScenePrune.Scene

/-- What can be had by loading and by successful operations; a failed one leaves its scene as it is. -/
inductive Reachable : Scene → Prop where
  | empty : Reachable ∅
  | load {nodes : List Node} {s : Scene} : ofNodes nodes = .ok s → Reachable s
  | insert {s s' : Scene} {node : Node} : Reachable s → s.insert node = .ok s' → Reachable s'
  | addNode {s s' : Scene} {type : TypeName} {kind : NodeKind} {parent? : Option NodeId} {id : NodeId} :
      Reachable s → s.addNode type kind parent? = .ok (id, s') → Reachable s'
  | setEnabled {s s' : Scene} {id : NodeId} {enabled : Bool} :
      Reachable s → s.setEnabled id enabled = .ok s' → Reachable s'
  | setField {s s' : Scene} {id : NodeId} {name : String} {value : FieldValue} :
      Reachable s → s.setField id name value = .ok s' → Reachable s'
  | remove {s s' : Scene} {id : NodeId} : Reachable s → s.remove id = .ok s' → Reachable s'

def ParentsFirst (nodes : List Node) : Prop := ∀ l n r, nodes = l ++ n :: r →
  ∀ p, n.parent? = some p → p ∈ l.map (·.id)

structure WellFormed (s : Scene) : Prop where
  nodup : s.ids.Nodup
  parentsFirst : ParentsFirst s.nodes
  children : ∀ p, s.children p = (s.nodes.filter (·.parent? = some p)).map (·.id)
  fresh : ∀ id ∈ s.ids, id.toNat < s.nextId
  bound : s.nextId ≤ UInt32.size

section Lookup
variable {s : Scene} {n : Node} {id : NodeId}

theorem contains_iff : s.contains id = true ↔ id ∈ s.ids := by
  simp [contains, node?, ids]

theorem find?_of_mem {nodes : List Node} (hids : (nodes.map (·.id)).Nodup) (hn : n ∈ nodes) :
    nodes.find? (·.id = n.id) = some n := by
  cases h : nodes.find? (·.id = n.id) with
  | none => simpa using List.find?_eq_none.mp h n hn
  | some m =>
    have hid : m.id = n.id := by simpa using List.find?_some h
    rw [List.inj_on_of_nodup_map hids (List.mem_of_find?_eq_some h) hn hid]

theorem WellFormed.node?_of_mem (hs : s.WellFormed) (hn : n ∈ s.nodes) : s.node? n.id = some n :=
  find?_of_mem hs.nodup hn

theorem mem_of_node? (h : s.node? id = some n) : n ∈ s.nodes ∧ n.id = id :=
  ⟨List.mem_of_find?_eq_some h, by simpa using List.find?_some h⟩

theorem exists_node_of_mem_ids (h : id ∈ s.ids) : ∃ n ∈ s.nodes, n.id = id := List.mem_map.mp h

end Lookup

section ParentsFirst
variable {nodes : List Node} {node : Node}

theorem ParentsFirst.concat (h : ParentsFirst nodes)
    (hnode : ∀ p, node.parent? = some p → p ∈ nodes.map (·.id)) : ParentsFirst (nodes ++ [node]) := by
  intro l n r he p hp
  rcases List.eq_nil_or_concat r with rfl | ⟨r', last, rfl⟩
  · obtain ⟨rfl, hlast⟩ := List.append_inj' he rfl
    cases hlast
    exact hnode p hp
  · have he' : nodes ++ [node] = (l ++ n :: r') ++ [last] := by simpa using he
    obtain ⟨rfl, -⟩ := List.append_inj' he' rfl
    exact h l n r' rfl p hp

theorem ParentsFirst.map (h : ParentsFirst nodes) {f : Node → Node}
    (hid : ∀ n ∈ nodes, (f n).id = n.id) (hparent : ∀ n ∈ nodes, (f n).parent? = n.parent?) :
    ParentsFirst (nodes.map f) := by
  intro l n r he p hp
  obtain ⟨l', t, rfl, rfl, ht⟩ := List.map_eq_append_iff.mp he
  obtain ⟨n', r', rfl, rfl, rfl⟩ := List.map_eq_cons_iff.mp ht
  rw [hparent n' (by simp)] at hp
  obtain ⟨m, hm, rfl⟩ := List.mem_map.mp (h l' n' r' rfl p hp)
  exact List.mem_map.mpr ⟨f m, List.mem_map_of_mem hm, hid m (List.mem_append_left _ hm)⟩

/-- What remains stays in order if no child remains without its parent. -/
theorem ParentsFirst.filter (h : ParentsFirst nodes) {keep : Node → Bool}
    (hkeep : ∀ n ∈ nodes, keep n = true → ∀ m ∈ nodes, n.parent? = some m.id → keep m = true) :
    ParentsFirst (nodes.filter keep) := by
  intro l n r he p hp
  obtain ⟨l', t, rfl, rfl, ht⟩ := List.filter_eq_append_iff.mp he
  obtain ⟨skipped, r', rfl, hskipped, hn, rfl⟩ := List.filter_eq_cons_iff.mp ht
  obtain ⟨m, hm, rfl⟩ := List.mem_map.mp (h (l' ++ skipped) n r' (by simp) p hp)
  have hmkeep := hkeep n (by simp) hn m (by simp only [List.mem_append] at hm ⊢; exact hm.imp_right Or.inl) hp
  rcases List.mem_append.mp hm with hm | hm
  · exact List.mem_map_of_mem (List.mem_filter.mpr ⟨hm, hmkeep⟩)
  · exact absurd hmkeep (hskipped m hm)

end ParentsFirst

section Operations
variable {s s' : Scene} {node : Node} {id : NodeId}

/-- What a successful insertion found and what it did. -/
theorem insert_ok (h : s.insert node = .ok s') :
    node.id ∉ s.ids ∧ (∀ p, node.parent? = some p → p ∈ s.ids) ∧ s'.nodes = s.nodes ++ [node] ∧
      s'.nextId = max s.nextId (node.id.toNat + 1) ∧
      ∀ p, s'.children p = s.children p ++ if node.parent? = some p then [node.id] else [] := by
  rw [insert_eq] at h
  split at h
  · cases h
  case isFalse hnew =>
    have hnew : node.id ∉ s.ids := by simpa [contains_iff] using hnew
    cases hp : node.parent? with
    | none =>
      simp only [hp, Except.ok.injEq] at h
      subst h
      exact ⟨hnew, by simp, rfl, rfl, by simp [children]⟩
    | some parent =>
      simp only [hp] at h
      split at h
      case isFalse => cases h
      case isTrue hparent =>
        cases h
        refine ⟨hnew, ?_, rfl, rfl, ?_⟩
        · rintro p ⟨⟩
          exact contains_iff.mp hparent
        · intro p
          by_cases he : p = parent
          · simp [children, OrderedMap.get?_upsert, he]
          · simp [children, OrderedMap.get?_upsert, he, Ne.symm he]

theorem addNode_ok {type : TypeName} {kind : NodeKind} {parent? : Option NodeId}
    (h : s.addNode type kind parent? = .ok (id, s')) :
    s.nextId < UInt32.size ∧ id = UInt32.ofNat s.nextId ∧ s.insert { id, type, kind, parent? } = .ok s' := by
  rw [addNode_eq] at h
  split at h
  case isFalse => cases h
  case isTrue hlt =>
    cases hi : s.insert { id := UInt32.ofNat s.nextId, type, kind, parent? } with
    | error e => simp [hi, Except.map] at h
    | ok inserted =>
      simp only [hi, Except.map, Except.ok.injEq, Prod.mk.injEq] at h
      obtain ⟨rfl, rfl⟩ := h
      exact ⟨hlt, rfl, hi⟩

/-- An addition is the insertion of an enabled node without fields. -/
theorem insert_of_addNode {type : TypeName} {kind : NodeKind} {parent? : Option NodeId}
    (h : (s.addNode type kind parent?).map Prod.snd = .ok s') :
    s.insert { id := UInt32.ofNat s.nextId, type, kind, parent? } = .ok s' := by
  cases hadd : s.addNode type kind parent? with
  | error e =>
    rw [hadd] at h
    cases h
  | ok added =>
    rw [hadd] at h
    cases h
    obtain ⟨-, hid, hinsert⟩ := addNode_ok hadd
    exact hid ▸ hinsert

/-- The next id is none of those below it. -/
theorem ofNat_notMem {ids : List NodeId} {next : Nat} (hids : ∀ id ∈ ids, id.toNat < next)
    (hnext : next < UInt32.size) : UInt32.ofNat next ∉ ids := by
  intro hmem
  have hless := hids _ hmem
  rw [UInt32.toNat_ofNat_of_lt' hnext] at hless
  exact Nat.lt_irrefl _ hless

theorem modifyNode_ok {f : Node → Node} (h : s.modifyNode id f = .ok s') :
    id ∈ s.ids ∧ s'.nodes = s.nodes.map (fun n => if n.id = id then f n else n) ∧
      s'.nextId = s.nextId ∧ ∀ p, s'.children p = s.children p := by
  rw [modifyNode_eq] at h
  split at h
  case isTrue hmem =>
    cases h
    exact ⟨contains_iff.mp hmem, rfl, rfl, fun _ => rfl⟩
  case isFalse => cases h

theorem remove_ok (h : s.remove id = .ok s') :
    s.children id = [] ∧ ∃ n, s.node? id = some n ∧ s'.nodes = s.nodes.filter (·.id ≠ id) ∧
      s'.nextId = s.nextId ∧ ∀ p, s'.children p = if p = id then []
        else if n.parent? = some p then (s.children p).filter (· ≠ id) else s.children p := by
  rw [remove_eq] at h
  split at h
  case isTrue => cases h
  case isFalse hchildless =>
    have hchildless : s.children id = [] := by simpa using hchildless
    cases hn : s.node? id with
    | none => simp [hn] at h
    | some n =>
      simp only [hn, Except.ok.injEq] at h
      subst h
      refine ⟨hchildless, n, rfl, rfl, rfl, ?_⟩
      intro p
      by_cases hp : p = id
      · simp [children, hp]
      · cases hparent : n.parent? with
        | none => simp [children, hp, OrderedMap.get?_erase_of_ne]
        | some parent =>
          by_cases he : p = parent
          · subst he
            cases hc : s.childIndex.get? p <;>
              simp [children, hp, OrderedMap.get?_erase_of_ne, OrderedMap.get?_modify, hc]
          · simp [children, hp, OrderedMap.get?_erase_of_ne, OrderedMap.get?_modify, he, Ne.symm he]

end Operations

section Preservation
variable {s s' : Scene} {node : Node} {id : NodeId}

theorem WellFormed.empty : (∅ : Scene).WellFormed where
  nodup := List.nodup_nil
  parentsFirst := fun l n r he => by cases l <;> cases he
  children := fun _ => rfl
  fresh := fun _ h => by cases h
  bound := Nat.zero_le _

theorem WellFormed.insert (hs : s.WellFormed) (h : s.insert node = .ok s') : s'.WellFormed := by
  obtain ⟨hnew, hparent, hnodes, hnext, hchildren⟩ := insert_ok h
  have hids : s'.ids = s.ids ++ [node.id] := by simp [ids, hnodes]
  constructor
  · rw [hids, List.nodup_append]
    exact ⟨hs.nodup, List.nodup_singleton _, by rintro a ha _ hb rfl; exact hnew (List.mem_singleton.mp hb ▸ ha)⟩
  · rw [hnodes]
    exact hs.parentsFirst.concat hparent
  · intro p
    rw [hchildren, hs.children, hnodes, List.filter_append, List.map_append]
    by_cases hp : node.parent? = some p <;> simp [hp]
  · intro i hi
    rw [hids, List.mem_append, List.mem_singleton] at hi
    rw [hnext]
    rcases hi with hi | rfl
    · have := hs.fresh i hi
      omega
    · omega
  · have := hs.bound
    have hlt := node.id.toNat_lt
    rw [hnext]
    change max s.nextId (node.id.toNat + 1) ≤ 2 ^ 32
    change s.nextId ≤ 2 ^ 32 at this
    omega

theorem WellFormed.modifyNode (hs : s.WellFormed) {f : Node → Node} (h : s.modifyNode id f = .ok s')
    (hid : ∀ n, (f n).id = n.id) (hparent : ∀ n, (f n).parent? = n.parent?) : s'.WellFormed := by
  obtain ⟨-, hnodes, hnext, hchildren⟩ := modifyNode_ok h
  have hid' : ∀ n : Node, (if n.id = id then f n else n).id = n.id := by
    intro n
    split
    · exact hid n
    · rfl
  have hparent' : ∀ n : Node, (if n.id = id then f n else n).parent? = n.parent? := by
    intro n
    split
    · exact hparent n
    · rfl
  have hids : s'.ids = s.ids := by
    rw [ids, hnodes, List.map_map]
    exact List.map_congr_left fun n _ => hid' n
  constructor
  · exact hids ▸ hs.nodup
  · rw [hnodes]
    exact hs.parentsFirst.map (fun n _ => hid' n) fun n _ => hparent' n
  · intro p
    rw [hchildren, hs.children, hnodes, List.filter_map, List.map_map]
    have hfilter : s.nodes.filter ((fun n => decide (n.parent? = some p)) ∘ fun n => if n.id = id then f n else n) =
        s.nodes.filter (·.parent? = some p) :=
      List.filter_congr fun n _ => by simp only [Function.comp_apply, hparent']
    rw [hfilter]
    exact List.map_congr_left fun n _ => (hid' n).symm
  · intro i hi
    rw [hnext]
    exact hs.fresh i (hids ▸ hi)
  · rw [hnext]
    exact hs.bound

theorem WellFormed.remove (hs : s.WellFormed) (h : s.remove id = .ok s') : s'.WellFormed := by
  obtain ⟨hchildless, n, hn, hnodes, hnext, hchildren⟩ := remove_ok h
  obtain ⟨hmem, rfl⟩ := mem_of_node? hn
  have hids : s'.ids = s.ids.filter (· ≠ n.id) := by
    rw [ids, hnodes, ids, List.filter_map]
    rfl
  have hleaf : ∀ m ∈ s.nodes, m.parent? ≠ some n.id := by
    intro m hm hp
    have : m.id ∈ s.children n.id := by
      rw [hs.children]
      exact List.mem_map_of_mem (List.mem_filter.mpr ⟨hm, by simpa using hp⟩)
    simp [hchildless] at this
  constructor
  · exact hids ▸ hs.nodup.filter _
  · rw [hnodes]
    apply hs.parentsFirst.filter
    intro m hm _ k _ hp
    have hk : k.id ≠ n.id := fun he => hleaf m hm (he ▸ hp)
    simpa using hk
  · intro p
    have hswap : (s'.nodes.filter (·.parent? = some p)).map (·.id) = (s.children p).filter (· ≠ n.id) := by
      rw [hnodes, hs.children, List.filter_filter, List.filter_map, List.filter_filter]
      congr 2
      funext m
      exact Bool.and_comm _ _
    rw [hswap, hchildren]
    split
    case isTrue hp => simp [hp, hchildless]
    case isFalse hp =>
      split
      case isTrue => rfl
      case isFalse hparent =>
        symm
        rw [List.filter_eq_self]
        intro i hi
        rw [hs.children] at hi
        obtain ⟨m, hm, rfl⟩ := List.mem_map.mp hi
        obtain ⟨hm, hmp⟩ := List.mem_filter.mp hm
        have hne : m.id ≠ n.id := by
          intro he
          obtain rfl := List.inj_on_of_nodup_map hs.nodup hm hmem he
          exact hparent (by simpa using hmp)
        simpa using hne
  · intro i hi
    rw [hids] at hi
    rw [hnext]
    exact hs.fresh i (List.mem_filter.mp hi).1
  · rw [hnext]
    exact hs.bound

theorem foldlM_ok_induction {α β ε : Type} {P : β → Prop} {f : β → α → Except ε β}
    (hf : ∀ b a b', P b → f b a = .ok b' → P b') {l : List α} {b b' : β} (hb : P b)
    (h : l.foldlM f b = .ok b') : P b' := by
  induction l generalizing b with
  | nil =>
    cases h
    exact hb
  | cons a l ih =>
    rw [List.foldlM_cons] at h
    cases hstep : f b a with
    | error e =>
      rw [hstep] at h
      cases h
    | ok mid =>
      rw [hstep] at h
      exact ih (hf b a mid hb hstep) h

theorem WellFormed.insertAll (hs : s.WellFormed) {nodes : List Node} (h : s.insertAll nodes = .ok s') :
    s'.WellFormed :=
  foldlM_ok_induction (fun _ _ _ hb hi => hb.insert hi) hs h

/-- A loaded scene is built by insertions alone. -/
theorem ofNodes_induction {P : Scene → Prop} (empty : P ∅)
    (insert : ∀ s node s', P s → s.insert node = .ok s' → P s') {nodes : List Node} (h : ofNodes nodes = .ok s) :
    P s := by
  unfold Scene.ofNodes at h
  split at h
  · cases h
  · refine foldlM_ok_induction (fun b node b' hb hstep => ?_) empty h
    cases hpath : b.pendingPath nodes [] node.id node.id with
    | error e =>
      rw [hpath] at hstep
      cases hstep
    | ok path =>
      rw [hpath] at hstep
      exact foldlM_ok_induction insert hb hstep

theorem WellFormed.ofNodes {nodes : List Node} (h : ofNodes nodes = .ok s) : s.WellFormed :=
  ofNodes_induction .empty (fun _ _ _ hs hi => hs.insert hi) h

theorem Reachable.wellFormed (h : s.Reachable) : s.WellFormed := by
  induction h with
  | empty => exact .empty
  | load h => exact .ofNodes h
  | insert _ h ih => exact ih.insert h
  | addNode _ h ih => exact ih.insert (addNode_ok h).2.2
  | setEnabled _ h ih => exact ih.modifyNode h (fun _ => rfl) fun _ => rfl
  | setField _ h ih => exact ih.modifyNode h (fun _ => rfl) fun _ => rfl
  | remove _ h ih => exact ih.remove h

theorem Reachable.insertAll (h : s.Reachable) {nodes : List Node} (hi : s.insertAll nodes = .ok s') :
    s'.Reachable :=
  foldlM_ok_induction (fun _ _ _ hb hi => hb.insert hi) h hi

/-- A rig of five nodes. The animator 1 may switch on the lamp 2 and with it the constraint 3; the
transform 4 is of no use. -/
def lamp : Scene where
  nodes :=
    [{ id := 0, type := "Transform", kind := .transform },
     { id := 1, type := "Animator", kind := .component, parent? := some 0,
       fields := ⟨[("avatar_root", .ref (some 2)), ("drives", .refs [some 2])]⟩ },
     { id := 2, type := "Transform", kind := .transform, parent? := some 0, enabled := false },
     { id := 3, type := "Constraint", kind := .component, parent? := some 2,
       fields := ⟨[("sources", .refs [some 2])]⟩ },
     { id := 4, type := "Transform", kind := .transform, parent? := some 0 }]
  childIndex := ⟨[(0, [1, 2, 4]), (2, [3])]⟩
  nextId := 5

theorem lamp_reachable : lamp.Reachable := by
  have hbuilt : (∅ : Scene).insertAll lamp.nodes = .ok lamp := rfl
  exact Reachable.empty.insertAll hbuilt

end Preservation

section View
variable {s : Scene} {n : Node} {id : NodeId}

theorem WellFormed.wellListed (hs : s.WellFormed) : (Host.view s).WellListed where
  nodup := hs.nodup
  typed := by
    intro id hid
    obtain ⟨n, hn, rfl⟩ := exists_node_of_mem_ids hid
    simp [Host.view, view, hs.node?_of_mem hn]

theorem WellFormed.parent?_view (hs : s.WellFormed) (hn : n ∈ s.nodes) :
    (Host.view s).parent? n.id = n.parent? := by
  simp [Host.view, view, hs.node?_of_mem hn]

theorem WellFormed.parent_mem (hs : s.WellFormed) (hn : n ∈ s.nodes) {p : NodeId} (hp : n.parent? = some p) :
    p ∈ s.ids := by
  obtain ⟨l, r, he⟩ := List.append_of_mem hn
  obtain ⟨m, hm, rfl⟩ := List.mem_map.mp (hs.parentsFirst l n r he p hp)
  exact List.mem_map_of_mem (he ▸ List.mem_append_left _ hm)

theorem WellFormed.listedParent?_view (hs : s.WellFormed) (hn : n ∈ s.nodes) :
    (Host.view s).listedParent? n.id = n.parent? := by
  rw [SceneView.listedParent?, hs.parent?_view hn]
  cases hp : n.parent? with
  | none => rfl
  | some p =>
    have hmem : p ∈ (Host.view s).ids := hs.parent_mem hn hp
    simp [Option.filter, hmem]

theorem WellFormed.mem_children (hs : s.WellFormed) {child : NodeId} :
    child ∈ s.children id ↔ ∃ m ∈ s.nodes, m.parent? = some id ∧ m.id = child := by
  simp [hs.children, and_assoc]

end View

end ScenePrune.Scene
