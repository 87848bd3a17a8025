import ScenePrune.Graph.Build
import ScenePrune.Proofs.OrderedMap
import ScenePrune.Scene.Listing

/-! # Scenes as the analysis sees them

A view is well listed if no id repeats and every listed id has a type. Nothing is asked of the
parents: they may be missing or form cycles.
-/
namespace ScenePrune

/-- Numbering the elements of a list without repetitions is looking up where they stand. -/
theorem zipIdx_eq_map_idxOf {l : List NodeId} (hl : l.Nodup) : l.zipIdx = l.map fun a => (a, l.idxOf a) := by
  apply List.ext_getElem (by simp)
  intro i hi _
  simp [hl.idxOf_getElem]

namespace SceneView

def Typed (v : SceneView) : Prop := ∀ id ∈ v.ids, (v.type? id).isSome

/-- What the findings of a run rely on: ids are distinct and have a type. -/
structure WellListed (v : SceneView) : Prop where
  nodup : v.ids.Nodup
  typed : ∀ id ∈ v.ids, (v.type? id).isSome

def typeOf (v : SceneView) (id : NodeId) : TypeName := (v.type? id).getD ""

def kindOf (v : SceneView) (id : NodeId) : NodeKind := (v.kind? id).getD .component

def switch (v : SceneView) (id : NodeId) : String := (v.kindOf id).enabledProperty

def listedParent? (v : SceneView) (id : NodeId) : Option NodeId := (v.parent? id).filter (· ∈ v.ids)

def place (v : SceneView) (id : NodeId) : Nat := v.ids.idxOf id

variable {v : SceneView}

theorem listedParent?_eq_some {id parent : NodeId} :
    v.listedParent? id = some parent ↔ v.parent? id = some parent ∧ parent ∈ v.ids := by
  simp [listedParent?, Option.filter_eq_some_iff]

theorem place_inj {id id' : NodeId} (h : id ∈ v.ids) (hp : v.place id = v.place id') : id = id' :=
  (List.idxOf_inj h).mp hp

def bareNode (v : SceneView) (id : NodeId) : GraphNode := Graph.nodeOf v id (v.typeOf id)

theorem Typed.nodesOf (hv : v.Typed) : Graph.nodesOf v = v.ids.map v.bareNode := by
  rw [Graph.nodesOf, ← List.filterMap_eq_map]
  apply List.filterMap_congr
  intro id hid
  obtain ⟨type, htype⟩ := Option.isSome_iff_exists.mp (hv id hid)
  simp [bareNode, typeOf, htype]

end SceneView

section Listings
variable {l : Listing}

/-- A listing is in order if all of its nodes have a type, as it lists no id twice. -/
theorem Listing.wellListed_view (h : ∀ x ∈ l.nodes.entries, x.2.type?.isSome) : (Host.view l).WellListed := by
  refine ⟨l.distinct, fun id hid => ?_⟩
  obtain ⟨n, hn⟩ := Option.isSome_iff_exists.mp (OrderedMap.contains_iff.mpr hid)
  have htype : (Host.view l).type? id = n.type? := by simp [Host.view, view, hn]
  rw [htype]
  exact h (id, n) (mem_of_lookup_eq_some hn)

end Listings

namespace Graph
variable {v : SceneView}

theorem foldl_addNode (nodes : List GraphNode) (g : Graph) :
    nodes.foldl addNode g = { g with slots := g.slots ++ nodes.map some } := by
  induction nodes generalizing g with
  | nil => simp
  | cons n nodes ih => simp [ih, addNode]

theorem enroll_empty (hv : v.Typed) :
    (∅ : Graph).enroll v = ⟨v.ids.map fun id => some (v.bareNode id), []⟩ := by
  rw [enroll, foldl_addNode, hv.nodesOf, List.map_map]
  rfl

/-- After enrolment every listed id is found at its place in the listing. -/
theorem lookup_roster (hv : v.WellListed) (id : NodeId) :
    ((∅ : Graph).roster v).lookup id = if id ∈ v.ids then some (v.place id) else none := by
  have hzip : (nodesOf v).zipIdx (∅ : Graph).slots.length =
      v.ids.map fun id => (v.bareNode id, v.place id) := by
    rw [SceneView.Typed.nodesOf hv.typed, List.zipIdx_map, show (∅ : Graph).slots.length = 0 from rfl,
      zipIdx_eq_map_idxOf hv.nodup, List.map_map]
    rfl
  have hroster : (∅ : Graph).roster v = (v.ids.map fun id => (id, v.place id)).reverse := by
    rw [roster, hzip, ← List.map_reverse, List.map_map, ← List.map_reverse]
    rfl
  rw [hroster]
  split
  case isTrue hid =>
    apply lookup_eq_some_of_mem
    · rw [List.map_reverse, List.nodup_reverse, List.map_map]
      simpa [Function.comp_def] using hv.nodup
    · exact List.mem_reverse.mpr (List.mem_map_of_mem (f := fun id => (id, v.place id)) hid)
  case isFalse hid =>
    rw [List.lookup_eq_none_iff]
    intro p hp
    obtain ⟨id', hid', rfl⟩ := List.mem_map.mp (List.mem_reverse.mp hp)
    simpa using fun he : id = id' => hid (he ▸ hid')

section Slots
variable {ids : List NodeId} {node : NodeId → GraphNode} {edges : List Edge}

theorem node?_of_mem {id : NodeId} (hid : id ∈ ids) :
    (Graph.mk (ids.map fun id => some (node id)) edges).node? (ids.idxOf id) = some (node id) := by
  have hlt := List.idxOf_lt_length_of_mem hid
  simp [node?, List.getElem?_eq_getElem hlt, List.getElem_idxOf]

theorem nodesWithIndex_map (hids : ids.Nodup) :
    (Graph.mk (ids.map fun id => some (node id)) edges).nodesWithIndex =
      ids.map fun id => (ids.idxOf id, node id) := by
  rw [nodesWithIndex, List.zipIdx_map, zipIdx_eq_map_idxOf hids, List.map_map, List.filterMap_map, ← List.filterMap_eq_map]
  exact List.filterMap_congr fun id _ => rfl

theorem exists_of_node? {i : Nat} {n : GraphNode} (hids : ids.Nodup)
    (h : (Graph.mk (ids.map fun id => some (node id)) edges).node? i = some n) :
    ∃ id ∈ ids, i = ids.idxOf id ∧ n = node id := by
  simp only [node?, List.getElem?_map, Option.join_eq_some_iff, Option.map_eq_some_iff,
    Option.some.injEq] at h
  obtain ⟨id, hid, rfl⟩ := h
  obtain ⟨hi, rfl⟩ := List.getElem?_eq_some_iff.mp hid
  exact ⟨ids[i], List.getElem_mem hi, (hids.idxOf_getElem i hi).symm, rfl⟩

end Slots

end Graph

end ScenePrune
