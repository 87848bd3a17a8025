import ScenePrune.Format.Scene
import ScenePrune.Json.Printer
import ScenePrune.Json.Reader
import ScenePrune.Proofs.Scene.Depth

/-! # What holds of a scene whatever was done to it

A `History` is a scene together with all the ids that were in it since it was created or last loaded.
However many operations are tried on it, and whether they succeed or fail, the nodes and the index of
children agree, parents stand before their children, and no id is given out again.
-/
namespace ScenePrune.Scene

/-- The scene that is loaded from the text it is saved as. A text that cannot be read, as that of a
field which is no finite number, gives none. -/
def reload? (s : Scene) : Option Scene :=
  ((Json.parse? s.toJson.compact).bind nodesOfJson?).bind fun nodes => (ofNodes nodes).toOption

theorem exists_ofNodes_of_reload? {s s' : Scene} (h : s.reload? = some s') : ∃ nodes, ofNodes nodes = .ok s' := by
  obtain ⟨nodes, -, hnodes⟩ := Option.bind_eq_some_iff.mp h
  cases hload : ofNodes nodes with
  | error e =>
    rw [hload] at hnodes
    cases hnodes
  | ok loaded =>
    rw [hload] at hnodes
    cases hnodes
    exact ⟨nodes, hload⟩

inductive Operation where
  | insert (node : Node)
  | addNode (type : TypeName) (kind : NodeKind) (parent? : Option NodeId)
  | setEnabled (id : NodeId) (enabled : Bool)
  | setField (id : NodeId) (name : String) (value : FieldValue)
  | remove (id : NodeId)
  | reload

/-- What an operation makes of a scene when it succeeds, if it is none that loads the scene anew. -/
inductive Makes (s : Scene) : Operation → Scene → Prop where
  | insert {node : Node} {s' : Scene} : s.insert node = .ok s' → Makes s (.insert node) s'
  | addNode {type : TypeName} {kind : NodeKind} {parent? : Option NodeId} {s' : Scene} :
      (s.addNode type kind parent?).map Prod.snd = .ok s' → Makes s (.addNode type kind parent?) s'
  | setEnabled {id : NodeId} {enabled : Bool} {s' : Scene} :
      s.setEnabled id enabled = .ok s' → Makes s (.setEnabled id enabled) s'
  | setField {id : NodeId} {name : String} {value : FieldValue} {s' : Scene} :
      s.setField id name value = .ok s' → Makes s (.setField id name value) s'
  | remove {id : NodeId} {s' : Scene} : s.remove id = .ok s' → Makes s (.remove id) s'

theorem WellFormed.made {s s' : Scene} (hs : s.WellFormed) {operation : Operation} (h : s.Makes operation s') :
    s'.WellFormed ∧ s.nextId ≤ s'.nextId := by
  have hinsert : ∀ {node}, s.insert node = .ok s' → s'.WellFormed ∧ s.nextId ≤ s'.nextId := by
    intro node hok
    refine ⟨hs.insert hok, ?_⟩
    rw [(insert_ok hok).2.2.2.1]
    exact Nat.le_max_left _ _
  cases h with
  | insert hok => exact hinsert hok
  | addNode hok => exact hinsert (insert_of_addNode hok)
  | setEnabled hok => exact ⟨hs.modifyNode hok (fun _ => rfl) fun _ => rfl, Nat.le_of_eq (modifyNode_ok hok).2.2.1.symm⟩
  | setField hok => exact ⟨hs.modifyNode hok (fun _ => rfl) fun _ => rfl, Nat.le_of_eq (modifyNode_ok hok).2.2.1.symm⟩
  | remove hok =>
    obtain ⟨-, n, -, -, hnext, -⟩ := remove_ok hok
    exact ⟨hs.remove hok, Nat.le_of_eq hnext.symm⟩

structure History where
  scene : Scene
  past : List NodeId

namespace History

def start (s : Scene) : History := ⟨s, s.ids⟩

/-- Goes on with the scene that an edit left behind, whether it succeeded or failed. -/
def advance {α : Type} (h : History) (e : Edit Scene SceneError α) : History :=
  match e.perform h.scene with
  | (.ok _, s) => ⟨s, h.past ++ s.ids⟩
  | (.error _, s) => { h with scene := s }

def step (h : History) : Operation → History
  | .insert node => h.advance (insertM node)
  | .addNode type kind parent? => h.advance (addNodeM type kind parent?)
  | .setEnabled id enabled => h.advance (setEnabledM id enabled)
  | .setField id name value => h.advance (setFieldM id name value)
  | .remove id => h.advance (removeM id)
  | .reload => (h.scene.reload?.map start).getD h

def run (h : History) (operations : List Operation) : History := operations.foldl step h

structure Sound (h : History) : Prop where
  wellFormed : h.scene.WellFormed
  present : ∀ id ∈ h.scene.ids, id ∈ h.past
  past : ∀ id ∈ h.past, id.toNat < h.scene.nextId

variable {h : History} {α : Type} {e : Edit Scene SceneError α}

theorem advance_cases (h : History) (he : e.Keeps) : h.advance e = h ∨
    ∃ s, (e.result h.scene).map Prod.snd = .ok s ∧ h.advance e = ⟨s, h.past ++ s.ids⟩ := by
  rw [advance, Edit.result]
  cases hperform : e.perform h.scene with
  | mk answer s =>
    cases answer with
    | ok a => exact Or.inr ⟨s, rfl, rfl⟩
    | error error =>
      obtain rfl := he _ _ error hperform
      exact Or.inl rfl

/-- All that a step can do. That a failure takes a history no further is due to the edits, none of which
changes anything before it has looked at what it needs. -/
theorem step_cases (h : History) (operation : Operation) : h.step operation = h ∨
    (∃ s, h.scene.Makes operation s ∧ h.step operation = ⟨s, h.past ++ s.ids⟩) ∨
    operation = .reload ∧ ∃ s, h.scene.reload? = some s ∧ h.step operation = start s := by
  cases operation with
  | insert node =>
    exact (h.advance_cases (keeps_insertM node)).imp_right fun ⟨s, hok, hs⟩ => Or.inl ⟨s, .insert hok, hs⟩
  | addNode type kind parent? =>
    exact (h.advance_cases (keeps_addNodeM type kind parent?)).imp_right fun ⟨s, hok, hs⟩ =>
      Or.inl ⟨s, .addNode hok, hs⟩
  | setEnabled id enabled =>
    exact (h.advance_cases (keeps_modifyNodeM id _)).imp_right fun ⟨s, hok, hs⟩ => Or.inl ⟨s, .setEnabled hok, hs⟩
  | setField id name value =>
    exact (h.advance_cases (keeps_modifyNodeM id _)).imp_right fun ⟨s, hok, hs⟩ => Or.inl ⟨s, .setField hok, hs⟩
  | remove id =>
    exact (h.advance_cases (keeps_removeM id)).imp_right fun ⟨s, hok, hs⟩ => Or.inl ⟨s, .remove hok, hs⟩
  | reload =>
    rw [step]
    cases hreload : h.scene.reload? with
    | none => exact Or.inl rfl
    | some s => exact Or.inr (Or.inr ⟨rfl, s, rfl, rfl⟩)

theorem sound_start {s : Scene} (hs : s.WellFormed) : (start s).Sound := ⟨hs, fun _ hid => hid, hs.fresh⟩

/-- No single operation, whether it succeeds or fails, breaks the agreement. -/
theorem Sound.step (hs : h.Sound) (operation : Operation) : (h.step operation).Sound := by
  obtain hstep | ⟨s, hmade, hstep⟩ | ⟨-, s, hreload, hstep⟩ := h.step_cases operation
  · rwa [hstep]
  · rw [hstep]
    obtain ⟨hwell, hnext⟩ := hs.wellFormed.made hmade
    refine ⟨hwell, fun id hid => List.mem_append_right _ hid, fun id hid => ?_⟩
    rcases List.mem_append.mp hid with hid | hid
    · exact Nat.lt_of_lt_of_le (hs.past id hid) hnext
    · exact hwell.fresh id hid
  · rw [hstep]
    obtain ⟨nodes, hload⟩ := exists_ofNodes_of_reload? hreload
    exact sound_start (.ofNodes hload)

theorem Sound.run (hs : h.Sound) (operations : List Operation) : (h.run operations).Sound := by
  induction operations generalizing h with
  | nil => exact hs
  | cons operation rest ih => exact ih (hs.step operation)

/-- A new node gets an id that no node had before. -/
theorem Sound.addNode_fresh (hs : h.Sound) {type : TypeName} {kind : NodeKind} {parent? : Option NodeId}
    {id : NodeId} {s : Scene} (hadd : h.scene.addNode type kind parent? = .ok (id, s)) : id ∉ h.past := by
  obtain ⟨hlt, rfl, -⟩ := addNode_ok hadd
  exact ofNat_notMem hs.past hlt

end History

theorem WellFormed.node?_eq_some_iff {s : Scene} (hs : s.WellFormed) {id : NodeId} {n : Node} :
    s.node? id = some n ↔ n ∈ s.nodes ∧ n.id = id := by
  constructor
  · exact mem_of_node?
  · rintro ⟨hn, rfl⟩
    exact hs.node?_of_mem hn

theorem WellFormed.nodup_children {s : Scene} (hs : s.WellFormed) (p : NodeId) : (s.children p).Nodup := by
  rw [hs.children]
  exact hs.nodup.sublist (List.filter_sublist.map _)

/-- What holds of every scene that was created or loaded and then worked on: each node is found under
its id; parents stand before their children and lead to the top; the children of an id are the nodes
that name it as their parent, in order; and the next id is beyond all that were ever there. -/
theorem invariant_of_history {first : Scene} (hfirst : first = ∅ ∨ ∃ nodes, ofNodes nodes = .ok first)
    (operations : List Operation) :
    let h := (History.start first).run operations
    (h.scene.ids.Nodup ∧ ∀ id n, h.scene.node? id = some n ↔ n ∈ h.scene.nodes ∧ n.id = id) ∧
    (ParentsFirst h.scene.nodes ∧ ∀ id ∈ h.scene.ids, ∃ k, h.scene.view.HasDepth id k) ∧
    (∀ p, h.scene.children p = (h.scene.nodes.filter (·.parent? = some p)).map (·.id) ∧
      (h.scene.children p).Nodup) ∧
    (∀ id ∈ h.scene.ids, id ∈ h.past) ∧ (∀ id ∈ h.past, id.toNat < h.scene.nextId) ∧
    h.scene.nextId ≤ UInt32.size ∧
    ∀ type kind parent? id s, h.scene.addNode type kind parent? = .ok (id, s) → id ∉ h.past := by
  intro h
  have hstart : first.WellFormed := by
    rcases hfirst with rfl | ⟨nodes, hload⟩
    · exact .empty
    · exact .ofNodes hload
  have hs : h.Sound := (History.sound_start hstart).run operations
  refine ⟨⟨hs.wellFormed.nodup, fun id n => hs.wellFormed.node?_eq_some_iff⟩,
    ⟨hs.wellFormed.parentsFirst, fun id hid => ?_⟩,
    fun p => ⟨hs.wellFormed.children p, hs.wellFormed.nodup_children p⟩,
    hs.present, hs.past, hs.wellFormed.bound, fun _ _ _ _ _ hadd => hs.addNode_fresh hadd⟩
  obtain ⟨n, hn, rfl⟩ := exists_node_of_mem_ids hid
  obtain ⟨k, -, hdepth⟩ := hs.wellFormed.hasDepth hn
  exact ⟨k, hdepth⟩

/-- The node 6 was there and was removed. A node with a child stays, and the next id is not 6 again. -/
theorem invariant_of_history_removed :
    let h := (History.start ∅).run
      [.insert { id := 5, type := "Transform", kind := .transform }, .addNode "Animator" .component (some 5),
        .remove 5, .remove 6]
    h.scene.ids = [5] ∧ 6 ∈ h.past ∧
      ∀ type kind parent? id s, h.scene.addNode type kind parent? = .ok (id, s) → id ≠ 6 := by
  intro h
  have hpast : 6 ∈ h.past := by decide
  obtain ⟨-, -, -, -, -, -, hfresh⟩ := invariant_of_history (Or.inl rfl) _
  refine ⟨by decide, hpast, fun type kind parent? id s hadd hid => ?_⟩
  subst hid
  exact hfresh type kind parent? 6 s hadd hpast

end ScenePrune.Scene
