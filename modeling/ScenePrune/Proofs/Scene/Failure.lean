import ScenePrune.Proofs.Scene.Reload

/-! # When an operation on a scene fails

An insertion asks the nodes, a removal the index of children, and an allocation the next id. By the
invariant of scenes all three answer for the nodes that are there and the ids that ever were: whether an
operation fails, and with which error, can be said without the index and the counter.
-/
namespace ScenePrune.Scene

def failure? {α : Type} : Except SceneError α → Option SceneError
  | .ok _ => none
  | .error e => some e

section Operations
variable {s : Scene} {id : NodeId}

theorem failure?_insert (s : Scene) (node : Node) : failure? (s.insert node) =
    if node.id ∈ s.ids then some (.duplicateNode node.id)
    else (node.parent?.filter (· ∉ s.ids)).map (.missingParent node.id) := by
  simp only [insert_eq, contains_iff]
  split
  case isTrue => rfl
  case isFalse =>
    cases node.parent? with
    | none => rfl
    | some parent => by_cases hparent : parent ∈ s.ids <;> simp [hparent, failure?, Option.filter]

theorem failure?_modifyNode (s : Scene) (id : NodeId) (f : Node → Node) :
    failure? (s.modifyNode id f) = if id ∈ s.ids then none else some (.nodeNotFound id) := by
  simp only [modifyNode_eq, contains_iff]
  split <;> rfl

theorem failure?_map {α β : Type} (f : α → β) (result : Except SceneError α) :
    failure? (result.map f) = failure? result := by
  cases result <;> rfl

/-- The next id is never that of a node, so an allocation that finds one left cannot fail for it. -/
theorem WellFormed.failure?_addNode (hs : s.WellFormed) (type : TypeName) (kind : NodeKind)
    (parent? : Option NodeId) : failure? (s.addNode type kind parent?) =
      if s.nextId = UInt32.size then some .idsExhausted
      else (parent?.filter (· ∉ s.ids)).map (.missingParent (UInt32.ofNat s.nextId)) := by
  rw [addNode_eq]
  split
  case isTrue hlt =>
    have hnew : UInt32.ofNat s.nextId ∉ s.ids := ofNat_notMem hs.fresh hlt
    rw [failure?_map, failure?_insert, if_neg hnew, if_neg (Nat.ne_of_lt hlt)]
  case isFalse hge =>
    have hfull : s.nextId = UInt32.size := Nat.le_antisymm hs.bound (Nat.le_of_not_lt hge)
    rw [if_pos hfull]
    rfl

theorem WellFormed.children_eq_nil_iff (hs : s.WellFormed) :
    s.children id = [] ↔ ¬ ∃ n ∈ s.nodes, n.parent? = some id := by
  simp [hs.children]

theorem WellFormed.failure?_remove (hs : s.WellFormed) (id : NodeId) : failure? (s.remove id) =
    if ∃ n ∈ s.nodes, n.parent? = some id then some (.hasChildren id)
    else if id ∈ s.ids then none else some (.nodeNotFound id) := by
  by_cases hchild : ∃ n ∈ s.nodes, n.parent? = some id
  · have hsome : ¬ s.children id = [] := fun hnil => hs.children_eq_nil_iff.mp hnil hchild
    simp [Scene.remove_eq, hsome, hchild, failure?]
  · have hnil : s.children id = [] := hs.children_eq_nil_iff.mpr hchild
    cases hn : s.node? id with
    | none =>
      have habsent : id ∉ s.ids := fun hid => by simpa [contains, hn] using contains_iff.mpr hid
      simp [Scene.remove_eq, hnil, hchild, hn, habsent, failure?]
    | some n =>
      have hpresent : id ∈ s.ids := contains_iff.mp (by simp [contains, hn])
      simp [Scene.remove_eq, hnil, hchild, hn, hpresent, failure?]

end Operations

/-- Only an insertion moves the next id on, and then behind the node that was inserted. -/
theorem Makes.nextId {s s' : Scene} {operation : Operation} (h : s.Makes operation s') :
    s'.nextId = s.nextId ∨ ∃ id ∈ s'.ids, s'.nextId = id.toNat + 1 := by
  have hinsert : ∀ {node}, s.insert node = .ok s' →
      s'.nextId = s.nextId ∨ ∃ id ∈ s'.ids, s'.nextId = id.toNat + 1 := by
    intro node hok
    obtain ⟨-, -, hnodes, hnext, -⟩ := insert_ok hok
    rcases Nat.le_total (node.id.toNat + 1) s.nextId with hle | hle
    · exact Or.inl (hnext.trans (Nat.max_eq_left hle))
    · exact Or.inr ⟨node.id, by simp [ids, hnodes], hnext.trans (Nat.max_eq_right hle)⟩
  cases h with
  | insert hok => exact hinsert hok
  | addNode hok => exact hinsert (insert_of_addNode hok)
  | setEnabled hok => exact Or.inl (modifyNode_ok hok).2.2.1
  | setField hok => exact Or.inl (modifyNode_ok hok).2.2.1
  | remove hok =>
    obtain ⟨-, n, -, -, hnext, -⟩ := remove_ok hok
    exact Or.inl hnext

namespace History
variable {h : History}

/-- No id is left out between those that ever were there and those to come. -/
def NextFollowsPast (h : History) : Prop := h.scene.nextId = 0 ∨ ∃ id ∈ h.past, h.scene.nextId = id.toNat + 1

theorem nextFollowsPast_start {s : Scene} (hs : s.NextFollows) : (start s).NextFollowsPast := by
  rcases hs with ⟨-, hzero⟩ | ⟨id, hid, -, hnext⟩
  · exact Or.inl hzero
  · exact Or.inr ⟨id, hid, hnext⟩

theorem NextFollowsPast.step (hn : h.NextFollowsPast) (operation : Operation) : (h.step operation).NextFollowsPast := by
  obtain hstep | ⟨s, hmade, hstep⟩ | ⟨-, s, hreload, hstep⟩ := h.step_cases operation
  · rwa [hstep]
  · rw [hstep]
    rcases hmade.nextId with hsame | ⟨id, hid, hnext⟩
    · rcases hn with hzero | ⟨id, hid, hnext⟩
      · exact Or.inl (hsame.trans hzero)
      · exact Or.inr ⟨id, List.mem_append_left _ hid, hsame.trans hnext⟩
    · exact Or.inr ⟨id, List.mem_append_right _ hid, hnext⟩
  · rw [hstep]
    obtain ⟨nodes, hload⟩ := exists_ofNodes_of_reload? hreload
    exact nextFollowsPast_start (nextFollows_ofNodes hload)

theorem NextFollowsPast.run (hn : h.NextFollowsPast) (operations : List Operation) :
    (h.run operations).NextFollowsPast := by
  induction operations generalizing h with
  | nil => exact hn
  | cons operation rest ih => exact ih (hn.step operation)

/-- The ids are exhausted once the greatest one was there, whether it still is or not. -/
theorem Sound.exhausted_iff (hs : h.Sound) (hn : h.NextFollowsPast) :
    h.scene.nextId = UInt32.size ↔ 4294967295 ∈ h.past := by
  constructor
  · intro hsize
    rcases hn with hzero | ⟨id, hid, hnext⟩
    · cases hzero.symm.trans hsize
    · have hlast : id = 4294967295 := UInt32.toNat_inj.mp (Nat.succ.inj (hnext.symm.trans hsize))
      exact hlast ▸ hid
  · intro hpast
    exact Nat.le_antisymm hs.wellFormed.bound (hs.past _ hpast)

def Fails (h : History) : Operation → Prop
  | .insert node => (failure? (h.scene.insert node)).isSome
  | .addNode type kind parent? => (failure? (h.scene.addNode type kind parent?)).isSome
  | .setEnabled id enabled => (failure? (h.scene.setEnabled id enabled)).isSome
  | .setField id name value => (failure? (h.scene.setField id name value)).isSome
  | .remove id => (failure? (h.scene.remove id)).isSome
  | .reload => h.scene.reload? = none

theorem not_makes_of_fails {operation : Operation} (hfails : h.Fails operation) (s : Scene) :
    ¬ h.scene.Makes operation s := by
  have hrefused : ∀ {result : Except SceneError Scene}, (failure? result).isSome → result ≠ .ok s := by
    rintro _ hsome rfl
    cases hsome
  intro hmade
  cases hmade with
  | insert hok => exact hrefused hfails hok
  | addNode hok =>
    refine hrefused ?_ hok
    rw [failure?_map]
    exact hfails
  | setEnabled hok => exact hrefused hfails hok
  | setField hok => exact hrefused hfails hok
  | remove hok => exact hrefused hfails hok

theorem step_of_fails {operation : Operation} (hfails : h.Fails operation) : h.step operation = h := by
  obtain hstep | ⟨s, hmade, -⟩ | ⟨rfl, s, hreload, -⟩ := h.step_cases operation
  · exact hstep
  · exact absurd hmade (not_makes_of_fails hfails s)
  · cases hreload.symm.trans hfails

end History

/-- When the operations on a scene fail, and how, whatever was done to it before. An insertion fails for an id
that is there or else for a parent that is not, the node itself included. An addition fails once the greatest id
was there, and otherwise only for its parent. Setting fails for a node that is not there. A removal fails for a
node that another one names as its parent, whether it is there or not. What fails changes nothing. -/
theorem failures_exact {first : Scene} (hfirst : first = ∅ ∨ ∃ nodes, ofNodes nodes = .ok first)
    (operations : List Operation) :
    let h := (History.start first).run operations
    let s := h.scene
    (∀ node, failure? (s.insert node) =
      if node.id ∈ s.ids then some (.duplicateNode node.id)
      else (node.parent?.filter (· ∉ s.ids)).map (.missingParent node.id)) ∧
    (∀ type kind parent?, failure? (s.addNode type kind parent?) =
      if 4294967295 ∈ h.past then some .idsExhausted
      else (parent?.filter (· ∉ s.ids)).map (.missingParent (UInt32.ofNat s.nextId))) ∧
    (∀ id enabled, failure? (s.setEnabled id enabled) = if id ∈ s.ids then none else some (.nodeNotFound id)) ∧
    (∀ id name value, failure? (s.setField id name value) =
      if id ∈ s.ids then none else some (.nodeNotFound id)) ∧
    (∀ id, failure? (s.remove id) =
      if ∃ n ∈ s.nodes, n.parent? = some id then some (.hasChildren id)
      else if id ∈ s.ids then none else some (.nodeNotFound id)) ∧
    ∀ operation, h.Fails operation → h.step operation = h := by
  intro h s
  have hstart : first.WellFormed ∧ first.NextFollows := by
    rcases hfirst with rfl | ⟨nodes, hload⟩
    · exact ⟨.empty, Or.inl ⟨rfl, rfl⟩⟩
    · exact ⟨.ofNodes hload, nextFollows_ofNodes hload⟩
  have hs : h.Sound := (History.sound_start hstart.1).run operations
  have hnext : h.NextFollowsPast := (History.nextFollowsPast_start hstart.2).run operations
  refine ⟨failure?_insert s, fun type kind parent? => ?_, fun id enabled => failure?_modifyNode s id _,
    fun id name value => failure?_modifyNode s id _, hs.wellFormed.failure?_remove, fun _ => History.step_of_fails⟩
  rw [hs.wellFormed.failure?_addNode]
  simp only [hs.exhausted_iff hnext]
  rfl

/-- The scene is empty again, but its last id was given out. -/
theorem failures_exact_removed :
    let h := (History.start ∅).run
      [.insert { id := 4294967295, type := "Transform", kind := .transform }, .remove 4294967295]
    h.scene.ids = [] ∧ failure? (h.scene.addNode "Animator" .component none) = some .idsExhausted ∧
      failure? (h.scene.insert { id := 7, type := "Animator", kind := .component, parent? := some 7 }) =
        some (.missingParent 7 7) := by
  intro h
  obtain ⟨hinsert, hadd, -⟩ := failures_exact (Or.inl rfl)
    [.insert { id := 4294967295, type := "Transform", kind := .transform }, .remove 4294967295]
  have hpast : 4294967295 ∈ h.past := by decide
  have hempty : h.scene.ids = [] := by decide
  refine ⟨hempty, (hadd _ _ _).trans (if_pos hpast), (hinsert _).trans ?_⟩
  decide

end ScenePrune.Scene
