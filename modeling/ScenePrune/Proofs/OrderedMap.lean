import ScenePrune.Proofs.Lists
import ScenePrune.Writers

/-! # Look-up in maps whose keys are distinct

A list of pairs with distinct keys is its own map: `OrderedMap.ofList` keeps it as it is, and
look-up finds exactly the listed pairs, in whatever order they stand.
-/
namespace ScenePrune

section Lookup
variable {κ ν : Type} [DecidableEq κ]

theorem mem_of_lookup_eq_some {l : List (κ × ν)} {k : κ} {v : ν} (h : l.lookup k = some v) :
    (k, v) ∈ l := by
  obtain ⟨l₁, l₂, rfl, -⟩ := List.lookup_eq_some_iff.mp h
  simp

theorem lookup_eq_some_of_mem {l : List (κ × ν)} (hl : (l.map Prod.fst).Nodup) {k : κ} {v : ν}
    (h : (k, v) ∈ l) : l.lookup k = some v := by
  obtain ⟨l₁, l₂, rfl⟩ := List.append_of_mem h
  refine List.lookup_eq_some_iff.mpr ⟨l₁, l₂, rfl, ?_⟩
  intro p hp
  rw [List.map_append, List.map_cons] at hl
  have hne := (List.nodup_append.mp hl).2.2 p.1 (List.mem_map_of_mem hp) k List.mem_cons_self
  simpa using Ne.symm hne

/-- A key that is listed more than once does no harm where every key has a value of its own. -/
theorem lookup_map_of_mem {keys : List κ} {k : κ} (hk : k ∈ keys) (value : κ → ν) :
    (keys.map fun j => (j, value j)).lookup k = some (value k) := by
  induction keys with
  | nil => cases hk
  | cons j keys ih =>
    by_cases he : k = j
    · subst he
      simp
    · simpa [List.lookup_cons, beq_eq_false_iff_ne.mpr he] using ih ((List.mem_cons.mp hk).resolve_left he)

theorem lookup_map_of_notMem {keys : List κ} {k : κ} (hk : k ∉ keys) (value : κ → ν) :
    (keys.map fun j => (j, value j)).lookup k = none := by
  rw [List.lookup_eq_none_iff]
  intro e he
  obtain ⟨j, hj, rfl⟩ := List.mem_map.mp he
  have hne : k ≠ j := fun hkj => hk (hkj ▸ hj)
  simpa using hne

/-- With distinct keys the order of the pairs has no influence on look-up. -/
theorem lookup_eq_of_perm {l l' : List (κ × ν)} (hl : (l.map Prod.fst).Nodup) (h : l.Perm l')
    (k : κ) : l'.lookup k = l.lookup k := by
  have hl' : (l'.map Prod.fst).Nodup := (h.map Prod.fst).nodup_iff.mp hl
  apply Option.ext
  intro v
  constructor
  · exact fun hv => lookup_eq_some_of_mem hl (h.mem_iff.mpr (mem_of_lookup_eq_some hv))
  · exact fun hv => lookup_eq_some_of_mem hl' (h.mem_iff.mp (mem_of_lookup_eq_some hv))

end Lookup

namespace OrderedMap
variable {κ ν : Type} [DecidableEq κ]

theorem upsertEntries_of_notMem {k : κ} {f : Option ν → ν} {l : List (κ × ν)}
    (hk : k ∉ l.map Prod.fst) : upsertEntries k f l = l ++ [(k, f none)] := by
  induction l with
  | nil => rfl
  | cons e l ih =>
    simp only [List.map_cons, List.mem_cons, not_or] at hk
    simp [upsertEntries, hk.1, ih hk.2]

theorem entries_foldl_insert {m : OrderedMap κ ν} {l : List (κ × ν)}
    (h : (m.keys ++ l.map Prod.fst).Nodup) :
    (l.foldl (fun m (k, v) => m.insert k v) m).entries = m.entries ++ l := by
  induction l generalizing m with
  | nil => simp
  | cons e l ih =>
    obtain ⟨k, v⟩ := e
    have hk : k ∉ m.keys := fun hk => (List.nodup_append.mp h).2.2 k hk k List.mem_cons_self rfl
    have hentries : (m.insert k v).entries = m.entries ++ [(k, v)] := upsertEntries_of_notMem hk
    have hkeys : (m.insert k v).keys = m.keys ++ [k] := by rw [keys_insert, if_neg hk]
    rw [List.foldl_cons, ih (by rw [hkeys]; simpa using h), hentries]
    simp

@[simp] theorem entries_ofList {l : List (κ × ν)} (h : (l.map Prod.fst).Nodup) :
    (ofList l).entries = l := by
  exact entries_foldl_insert (m := (∅ : OrderedMap κ ν)) h

theorem entries_ofList_map {keys : List κ} (h : keys.Nodup) (value : κ → ν) :
    (ofList (keys.map fun k => (k, value k))).entries = keys.map fun k => (k, value k) := by
  have hkeys : (keys.map fun k => (k, value k)).map Prod.fst = keys := by
    rw [List.map_map]
    exact List.map_id keys
  exact entries_ofList (hkeys.symm ▸ h)

theorem upsertEntries_map {keys : List κ} (hkeys : keys.Nodup) {k : κ} (hk : k ∈ keys) (value : κ → ν)
    (f : Option ν → ν) : upsertEntries k f (keys.map fun j => (j, value j)) =
      keys.map fun j => (j, if j = k then f (some (value j)) else value j) := by
  induction keys with
  | nil => simp at hk
  | cons j keys ih =>
    obtain ⟨hj, hkeys⟩ := List.nodup_cons.mp hkeys
    by_cases he : k = j
    · subst he
      simp only [List.map_cons, upsertEntries, if_true, List.cons.injEq, true_and]
      apply List.map_congr_left
      intro i hi
      have hne : i ≠ k := fun he => hj (he ▸ hi)
      rw [if_neg hne]
    · have hmem : k ∈ keys := (List.mem_cons.mp hk).resolve_left he
      simp [upsertEntries, he, Ne.symm he, ih hkeys hmem]

/-- A map that is given by its keys still is after an update. -/
theorem upsertEntries_tabulated {keys : List κ} (hkeys : keys.Nodup) (k : κ) (value : κ → ν) (f : Option ν → ν) :
    upsertEntries k f (keys.map fun j => (j, value j)) = (if k ∈ keys then keys else keys ++ [k]).map fun j =>
      (j, if j = k then f (if k ∈ keys then some (value k) else none) else value j) := by
  by_cases hk : k ∈ keys
  · rw [upsertEntries_map hkeys hk, if_pos hk, if_pos hk]
    refine List.map_congr_left fun j _ => ?_
    by_cases hj : j = k
    · rw [hj]
    · rw [if_neg hj, if_neg hj]
  · have hfst : k ∉ (keys.map fun j => (j, value j)).map Prod.fst := by simpa using hk
    have hothers : ∀ j ∈ keys, j ≠ k := fun j hj he => hk (he ▸ hj)
    rw [upsertEntries_of_notMem hfst, if_neg hk, if_neg hk, List.map_append, List.map_singleton, if_pos rfl]
    exact congrArg (· ++ _) (List.map_congr_left fun j hj => by rw [if_neg (hothers j hj)])

theorem get?_erase_of_ne {m : OrderedMap κ ν} {k j : κ} (h : j ≠ k) :
    (m.erase k).get? j = m.get? j := by
  simp only [get?, erase]
  induction m.entries with
  | nil => rfl
  | cons e l ih =>
    obtain ⟨k', v⟩ := e
    by_cases hk : k' = k
    · subst hk
      have hj : (j == k') = false := by simpa using h
      simpa [List.lookup_cons, hj] using ih
    · rw [List.filter_cons_of_pos (by simpa using hk), List.lookup_cons, List.lookup_cons, ih]

@[simp] theorem get?_erase_self (m : OrderedMap κ ν) (k : κ) : (m.erase k).get? k = none := by
  rw [get?, erase, List.lookup_eq_none_iff]
  intro p hp
  have hne : p.1 ≠ k := of_decide_eq_true (List.mem_filter.mp hp).2
  simpa using hne.symm

theorem erase_of_get?_eq_none {m : OrderedMap κ ν} {k : κ} (h : m.get? k = none) : m.erase k = m := by
  have hkeys : ∀ p ∈ m.entries, p.1 ≠ k := by
    intro p hp he
    simpa [he] using List.lookup_eq_none_iff.mp h p hp
  rw [erase, List.filter_eq_self.mpr fun p hp => by simpa using hkeys p hp]

theorem get?_modify (m : OrderedMap κ ν) (k j : κ) (f : ν → ν) :
    (m.modify k f).get? j = if j = k then (m.get? k).map f else m.get? j := by
  simp only [get?, modify]
  induction m.entries with
  | nil => simp
  | cons e l ih =>
    obtain ⟨k', v⟩ := e
    by_cases hk : k' = k
    · subst hk
      by_cases hj : j = k'
      · simp [hj]
      · simpa [List.lookup_cons, hj, beq_eq_false_iff_ne.mpr hj] using ih
    · by_cases hj : j = k
      · subst hj
        have hne : (j == k') = false := beq_eq_false_iff_ne.mpr (Ne.symm hk)
        simpa [List.lookup_cons, hk, hne] using ih
      · rw [if_neg hj] at ih ⊢
        rw [List.map_cons, if_neg hk, List.lookup_cons, List.lookup_cons, ih]

/-- Whether a key gets a value does not depend on which of its pairs comes last. -/
theorem isSome_get?_ofList {l : List (κ × ν)} {k : κ} :
    ((ofList l).get? k).isSome ↔ k ∈ l.map Prod.fst := by
  have hfold : ∀ m : OrderedMap κ ν, ((l.foldl (fun m (k, v) => m.insert k v) m).get? k).isSome ↔
      (m.get? k).isSome ∨ k ∈ l.map Prod.fst := by
    induction l with
    | nil => simp
    | cons e l ih =>
      intro m
      rw [List.foldl_cons, ih, get?_insert, List.map_cons, List.mem_cons]
      by_cases hk : k = e.1 <;> simp [hk]
  simpa [ofList] using hfold ∅

/-- Of several pairs with the same key the last one stands. -/
theorem get?_ofList (l : List (κ × ν)) (k : κ) : (ofList l).get? k = l.reverse.lookup k := by
  have hfold : ∀ m : OrderedMap κ ν, (l.foldl (fun m (k, v) => m.insert k v) m).get? k =
      (l.reverse.lookup k).or (m.get? k) := by
    induction l with
    | nil => simp
    | cons e l ih =>
      obtain ⟨k', v⟩ := e
      intro m
      have hlast : (m.insert k' v).get? k = ([(k', v)].lookup k).or (m.get? k) := by
        rw [get?_insert, List.lookup_cons]
        by_cases hk : k = k'
        · simp [hk]
        · simp [hk, beq_false_of_ne hk]
      rw [List.foldl_cons, ih, hlast, List.reverse_cons, List.lookup_append, Option.or_assoc]
  rw [ofList, hfold, get?_empty, Option.or_none]

end OrderedMap

namespace Writers
variable {κ : Type} [DecidableEq κ]

@[simp] theorem writers_empty (object : κ) (property : String) :
    (∅ : Writers κ).writers object property = [] := rfl

theorem mem_writers_add {t : Writers κ} {object object' : κ} {property property' : String}
    {writer writer' : NodeId} : writer ∈ (t.add object' property' writer').writers object property ↔
      writer ∈ t.writers object property ∨
        object = object' ∧ property = property' ∧ writer = writer' := by
  unfold add
  split
  case isTrue hmem =>
    constructor
    · exact Or.inl
    · rintro (h | ⟨rfl, rfl, rfl⟩)
      · exact h
      · exact hmem
  case isFalse =>
    simp only [writers, OrderedMap.get?_upsert, Prod.mk.injEq]
    by_cases h : object = object' ∧ property = property'
    · obtain ⟨rfl, rfl⟩ := h
      simp
    · rw [if_neg h]
      exact ⟨Or.inl, fun hor => hor.resolve_right fun ⟨ho, hp, _⟩ => h ⟨ho, hp⟩⟩

theorem isWritten_iff {t : Writers κ} {object : κ} {property : String} :
    t.isWritten object property = true ↔ ∃ writer, writer ∈ t.writers object property := by
  simp only [isWritten, Bool.not_eq_true', List.isEmpty_eq_false_iff_exists_mem]

end Writers

end ScenePrune
