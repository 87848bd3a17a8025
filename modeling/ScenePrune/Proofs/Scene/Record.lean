import ScenePrune.Format.Scene
import ScenePrune.Proofs.Json.Record
import ScenePrune.Proofs.OrderedMap

/-! # Nodes are read from the records they are written as

A record leaves out what its reader knows to supply: a parent or fields if there are none. A number is
written as a decimal numeral; that this numeral stands for the same double again is asked of each number
on its own.
-/
namespace ScenePrune

namespace FieldValue
open Json

def ReadsBack : FieldValue → Prop
  | number x => ∃ n, Decimal.ofFloat? x = some n ∧ n.float? = some x
  | _ => True

theorem ofJson?_toJson {value : FieldValue} (h : value.ReadsBack) : ofJson? value.toJson = some value := by
  cases value with
  | bool value => rfl
  | number x =>
    obtain ⟨n, hn, hx⟩ := h
    have hread : (ofFloat x).float? = some x := by rw [ofFloat, hn]; exact hx
    rw [toJson, ofJson?, hread]
    rfl
  | text value => rfl
  | ref target =>
    rw [toJson, ofJson?, nullable?_ofOption]
    rfl
  | refs targets =>
    rw [toJson, ofJson?, list?_ofList fun target _ => nullable?_ofOption target]
    rfl

theorem tableOfJson?_tableToJson {fields : OrderedMap String FieldValue} (hnames : fields.keys.Nodup)
    (h : ∀ entry ∈ fields.entries, entry.2.ReadsBack) : tableOfJson? (tableToJson fields) = some fields := by
  have hread : (fields.entries.map fun m => (m.1, m.2.toJson)).mapM (fun m => (ofJson? m.2).map (m.1, ·)) =
      some fields.entries :=
    mapM_map_eq_some fun entry hmem => congrArg (Option.map (entry.1, ·)) (ofJson?_toJson (h entry hmem))
  rw [tableOfJson?, tableToJson, members?, Option.bind_eq_bind, Option.bind_some]
  refine (congrArg (Option.bind · _) hread).trans ?_
  exact congrArg (some ∘ OrderedMap.mk) (OrderedMap.entries_ofList hnames)

/-- Of two members of one name only one is kept. -/
theorem nodup_keys_of_tableOfJson? {j : Json} {fields : OrderedMap String FieldValue}
    (h : tableOfJson? j = some fields) : fields.keys.Nodup := by
  obtain ⟨members, -, h⟩ := Option.bind_eq_some_iff.mp h
  obtain ⟨entries, -, h⟩ := Option.bind_eq_some_iff.mp h
  obtain rfl := Option.some.inj h
  exact OrderedMap.nodup_keys_ofList entries

theorem legible_toJson (value : FieldValue) : value.toJson.Legible := by
  have hone : ∀ (name : String) {j : Json}, j.Legible → (object [(name, j)]).Legible :=
    fun _ _ hj => .object fun _ hm => List.mem_singleton.mp hm ▸ hj
  have href : ∀ target : Option NodeId, (ofOption ofId target).Legible := by
    rintro (_ | target)
    · exact .null
    · exact legible_ofId target
  cases value with
  | bool value => exact hone _ (.bool value)
  | number x => exact hone _ (legible_ofFloat x)
  | text value => exact hone _ (.string value)
  | ref target => exact hone _ (href target)
  | refs targets => exact hone _ (legible_ofList href targets)

theorem legible_tableToJson (fields : OrderedMap String FieldValue) : (tableToJson fields).Legible := by
  refine .object fun m hm => ?_
  obtain ⟨entry, -, rfl⟩ := List.mem_map.mp hm
  exact legible_toJson entry.2

end FieldValue

namespace Node
open Json

structure Recordable (n : Node) : Prop where
  names : n.fields.keys.Nodup
  values : ∀ entry ∈ n.fields.entries, entry.2.ReadsBack

/-- The members of a record by their names. -/
theorem record?_toJson (n : Node) : n.toJson.record? ["id", "type", "kind", "parent", "enabled", "fields"] =
    some [some (ofId n.id), some (.string n.type), some (.string n.kind.label), n.parent?.map ofId,
      some (.bool n.enabled), if n.fields.isEmpty then none else some (FieldValue.tableToJson n.fields)] := by
  unfold toJson
  cases n.parent? <;> cases n.fields.isEmpty <;> simp [record?, single?]

theorem ofJson?_toJson {n : Node} (h : n.Recordable) : ofJson? n.toJson = some n := by
  have hkind : NodeKind.ofJson? (.string n.kind.label) = some n.kind := by cases n.kind <;> rfl
  have hparent : orDefault? (nullable? id?) none (n.parent?.map ofId) = some n.parent? := by
    cases n.parent? with
    | none => rfl
    | some parent => exact nullable?_ofId parent
  have hfields : orDefault? FieldValue.tableOfJson? ∅
      (if n.fields.isEmpty then none else some (FieldValue.tableToJson n.fields)) = some n.fields := by
    split
    case isTrue hempty => exact congrArg (some ∘ OrderedMap.mk) (List.isEmpty_iff.mp hempty).symm
    case isFalse => exact FieldValue.tableOfJson?_tableToJson h.names h.values
  have henabled : orDefault? bool? true (some (.bool n.enabled)) = some n.enabled := rfl
  simp [ofJson?, record?_toJson, required?, id?_ofId, string?, hkind, hparent, henabled, hfields]

/-- A record cannot give a node two fields of one name: the last value of a name stands. -/
theorem nodup_keys_of_ofJson? {j : Json} {n : Node} (h : ofJson? j = some n) : n.fields.keys.Nodup := by
  simp only [ofJson?, Option.bind_eq_bind, Option.bind_eq_some_iff] at h
  obtain ⟨parts, -, h⟩ := h
  split at h
  case h_2 => cases h
  case h_1 _ _ _ _ _ fields? =>
    simp only [Option.bind_eq_some_iff] at h
    obtain ⟨id, -, type, -, kind, -, parent?, -, enabled, -, fields, hfields, h⟩ := h
    obtain rfl := Option.some.inj h
    cases fields? with
    | none =>
      obtain rfl := Option.some.inj hfields
      exact List.nodup_nil
    | some j => exact FieldValue.nodup_keys_of_tableOfJson? hfields

theorem legible_toJson (n : Node) : n.toJson.Legible := by
  refine .object fun m hm => ?_
  simp only [List.mem_append, List.mem_cons, List.not_mem_nil, or_false, List.mem_map] at hm
  rcases hm with (((rfl | rfl | rfl) | ⟨parent, -, rfl⟩) | rfl) | hm
  · exact legible_ofId n.id
  · exact .string n.type
  · exact .string n.kind.label
  · exact legible_ofId parent
  · exact .bool n.enabled
  · split at hm
    · cases hm
    · obtain rfl := List.mem_singleton.mp hm
      exact FieldValue.legible_tableToJson n.fields

end Node

namespace Scene
open Json

theorem nodesOfJson?_toJson {s : Scene} (h : ∀ n ∈ s.nodes, n.Recordable) : nodesOfJson? s.toJson = some s.nodes := by
  have hnodes := list?_ofList fun n hn => Node.ofJson?_toJson (h n hn)
  simp [nodesOfJson?, toJson, record?, single?, orDefault?, hnodes]

theorem nodup_keys_of_nodesOfJson? {j : Json} {nodes : List Node} (h : nodesOfJson? j = some nodes) :
    ∀ n ∈ nodes, n.fields.keys.Nodup := by
  simp only [nodesOfJson?, Option.bind_eq_bind, Option.bind_eq_some_iff] at h
  obtain ⟨parts, -, h⟩ := h
  split at h
  case h_2 => cases h
  case h_1 nodes? =>
    intro n hn
    cases nodes? with
    | none =>
      obtain rfl := Option.some.inj h
      cases hn
    | some j =>
      obtain ⟨item, hitem⟩ := exists_of_mem_list? h n hn
      exact Node.nodup_keys_of_ofJson? hitem

theorem legible_toJson (s : Scene) : s.toJson.Legible := by
  refine .object fun m hm => ?_
  obtain rfl := List.mem_singleton.mp hm
  exact legible_ofList Node.legible_toJson s.nodes

def ofText? (text : String) : Option Scene :=
  ((Json.parse? text).bind nodesOfJson?).bind fun nodes => (ofNodes nodes).toOption

end Scene

end ScenePrune
