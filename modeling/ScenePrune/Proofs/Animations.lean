import ScenePrune.Proofs.OrderedMap

/-! # What an animation table tells

All that matters of a table is which node may write which property of which other node. Adding a writer
adds just this to it, so that a table read from records tells what the records tell.
-/
namespace ScenePrune

namespace OrderedMap
variable {κ ν : Type} [DecidableEq κ] {k : κ} {f : Option ν → ν} {l : List (κ × ν)} {e : κ × ν}

theorem lookup_cons_of_ne {k' : κ} {v : ν} (hk : k ≠ k') : ((k', v) :: l).lookup k = l.lookup k := by
  rw [List.lookup_cons, beq_false_of_ne hk]

theorem mem_upsertEntries_self : (k, f (l.lookup k)) ∈ upsertEntries k f l :=
  mem_of_lookup_eq_some (by rw [lookup_upsertEntries, if_pos rfl])

theorem mem_or_eq_of_mem_upsertEntries (h : e ∈ upsertEntries k f l) : e ∈ l ∨ e = (k, f (l.lookup k)) := by
  induction l with
  | nil => exact Or.inr (List.mem_singleton.mp h)
  | cons e' l ih =>
    obtain ⟨k', v⟩ := e'
    by_cases hk : k = k'
    · subst hk
      rw [upsertEntries, if_pos rfl] at h
      rcases List.mem_cons.mp h with rfl | h
      · exact Or.inr (by simp)
      · exact Or.inl (List.mem_cons_of_mem _ h)
    · rw [upsertEntries, if_neg hk] at h
      rcases List.mem_cons.mp h with rfl | h
      · exact Or.inl List.mem_cons_self
      · rw [lookup_cons_of_ne hk]
        exact (ih h).imp_left (List.mem_cons_of_mem _)

theorem mem_upsertEntries_or_lookup (h : e ∈ l) :
    e ∈ upsertEntries k f l ∨ e.1 = k ∧ l.lookup k = some e.2 := by
  induction l with
  | nil => cases h
  | cons e' l ih =>
    obtain ⟨k', v⟩ := e'
    by_cases hk : k = k'
    · subst hk
      rw [upsertEntries, if_pos rfl]
      rcases List.mem_cons.mp h with rfl | h
      · exact Or.inr ⟨rfl, by simp⟩
      · exact Or.inl (List.mem_cons_of_mem _ h)
    · rw [upsertEntries, if_neg hk, lookup_cons_of_ne hk]
      rcases List.mem_cons.mp h with rfl | h
      · exact Or.inl List.mem_cons_self
      · exact (ih h).imp_left (List.mem_cons_of_mem _)

end OrderedMap

namespace AnimationTable

def Tells (t : AnimationTable) (node : NodeId) (property : String) (writer : NodeId) : Prop :=
  ∃ r ∈ t.records, r.node = node ∧ r.property = property ∧ writer ∈ r.writers

variable {t : AnimationTable} {node node' : NodeId} {property property' : String} {writer writer' : NodeId}

theorem mem_records {r : AnimationRecord} :
    r ∈ t.records ↔ ((r.node, r.property), r.writers) ∈ t.lists.entries := by
  rw [records, List.mem_mergeSort, List.mem_map]
  constructor
  · rintro ⟨e, he, rfl⟩
    exact he
  · exact fun h => ⟨_, h, rfl⟩

theorem tells_iff :
    t.Tells node property writer ↔ ∃ ws, ((node, property), ws) ∈ t.lists.entries ∧ writer ∈ ws := by
  simp only [Tells, mem_records]
  constructor
  · rintro ⟨r, hr, rfl, rfl, hw⟩
    exact ⟨r.writers, hr, hw⟩
  · rintro ⟨ws, he, hw⟩
    exact ⟨⟨node, property, ws⟩, he, rfl, rfl, hw⟩

theorem tells_of_mem_writers (h : writer ∈ t.writers node property) : t.Tells node property writer := by
  unfold Writers.writers at h
  cases he : t.lists.get? (node, property) with
  | none => simp [he] at h
  | some ws =>
    rw [he] at h
    exact tells_iff.mpr ⟨ws, mem_of_lookup_eq_some he, h⟩

theorem not_tells_empty : ¬ AnimationTable.Tells ∅ node property writer := by
  rw [tells_iff]
  rintro ⟨_, he, -⟩
  cases he

/-- Adding a writer tells this much more. -/
theorem tells_add : AnimationTable.Tells (t.add node' property' writer') node property writer ↔
    t.Tells node property writer ∨ node = node' ∧ property = property' ∧ writer = writer' := by
  unfold Writers.add
  split
  case isTrue hmem =>
    constructor
    · exact Or.inl
    · rintro (h | ⟨rfl, rfl, rfl⟩)
      · exact h
      · exact tells_of_mem_writers hmem
  case isFalse =>
    simp only [tells_iff, OrderedMap.upsert]
    constructor
    · rintro ⟨ws, he, hw⟩
      rcases OrderedMap.mem_or_eq_of_mem_upsertEntries he with he | he
      · exact Or.inl ⟨ws, he, hw⟩
      · obtain ⟨hkey, rfl⟩ := Prod.mk.inj he
        obtain ⟨rfl, rfl⟩ := Prod.mk.inj hkey
        rcases List.mem_append.mp hw with hw | hw
        · exact Or.inl (tells_iff.mp (tells_of_mem_writers hw))
        · exact Or.inr ⟨rfl, rfl, List.mem_singleton.mp hw⟩
    · rintro (⟨ws, he, hw⟩ | ⟨rfl, rfl, rfl⟩)
      · rcases OrderedMap.mem_upsertEntries_or_lookup he with he | ⟨hkey, hlookup⟩
        · exact ⟨ws, he, hw⟩
        · obtain ⟨rfl, rfl⟩ := Prod.mk.inj hkey
          refine ⟨_, OrderedMap.mem_upsertEntries_self, ?_⟩
          rw [hlookup]
          exact List.mem_append_left _ hw
      · exact ⟨_, OrderedMap.mem_upsertEntries_self, List.mem_append_right _ (List.mem_singleton_self _)⟩

theorem tells_foldl_add {ws : List NodeId} :
    AnimationTable.Tells (ws.foldl (fun t w => t.add node' property' w) t) node property writer ↔
      t.Tells node property writer ∨ node = node' ∧ property = property' ∧ writer ∈ ws := by
  induction ws generalizing t with
  | nil => simp
  | cons w ws ih => simp only [List.foldl_cons, ih, tells_add, List.mem_cons, and_or_left, or_assoc]

/-- A table tells what the records tell that it is read from. -/
theorem tells_ofRecords {records : List AnimationRecord} : (ofRecords records).Tells node property writer ↔
    ∃ r ∈ records, r.node = node ∧ r.property = property ∧ writer ∈ r.writers := by
  -- The table that the fold starts with is arbitrary, as it grows with every record.
  have hfold : ∀ t : AnimationTable,
      AnimationTable.Tells (records.foldl (fun t r => r.writers.foldl (fun t w => t.add r.node r.property w) t) t)
        node property writer ↔
      t.Tells node property writer ∨ ∃ r ∈ records, r.node = node ∧ r.property = property ∧ writer ∈ r.writers := by
    induction records with
    | nil => simp
    | cons r records ih =>
      intro t
      simp only [List.foldl_cons, ih, tells_foldl_add, List.exists_mem_cons_iff, or_assoc, eq_comm (a := node),
        eq_comm (a := property)]
  rw [ofRecords, hfold, or_iff_right not_tells_empty]

/-- The second list has the records of the first one in any order, each with its writers in any order. -/
def Rearranged (records records' : List AnimationRecord) : Prop :=
  ∃ moved, records.Perm moved ∧
    List.Forall₂ (fun r r' => r'.node = r.node ∧ r'.property = r.property ∧ r.writers.Perm r'.writers) moved records'

/-- Neither the order of the records nor that of the writers in a record matters. -/
theorem Rearranged.tells_iff {records records' : List AnimationRecord} (h : Rearranged records records') :
    (ofRecords records').Tells node property writer ↔ (ofRecords records).Tells node property writer := by
  obtain ⟨moved, hperm, hsame⟩ := h
  have hmoved : (∃ r ∈ records', r.node = node ∧ r.property = property ∧ writer ∈ r.writers) ↔
      ∃ r ∈ moved, r.node = node ∧ r.property = property ∧ writer ∈ r.writers := by
    clear hperm
    induction hsame with
    | nil => simp
    | cons he _ ih =>
      obtain ⟨hnode, hproperty, hwriters⟩ := he
      rw [List.exists_mem_cons_iff, List.exists_mem_cons_iff, ih, hnode, hproperty, hwriters.mem_iff]
  rw [tells_ofRecords, tells_ofRecords, hmoved]
  simp only [hperm.mem_iff]

end AnimationTable

end ScenePrune
