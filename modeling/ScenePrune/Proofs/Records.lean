import ScenePrune.Format.Animation
import ScenePrune.Proofs.Animations
import ScenePrune.Proofs.Json.Record

/-! # The canonical form of an animation table

A table is filled from records and then writer by writer. What it holds is read off this history: the pairs
of a node and a property in the order in which they were first named, each with its distinct writers. Listed
by ascending nodes this is a canonical form, as a table that is filled from such a list lists it again.
-/
namespace ScenePrune

structure Mention where
  node : NodeId
  property : String
  writer : NodeId
deriving DecidableEq

def Mention.key (m : Mention) : NodeId × String := (m.node, m.property)

def Mention.writersOf (history : List Mention) (key : NodeId × String) : List NodeId :=
  (history.filter (·.key = key)).map (·.writer)

namespace AnimationRecord
open Json

def key (r : AnimationRecord) : NodeId × String := (r.node, r.property)

def ofEntry (e : (NodeId × String) × List NodeId) : AnimationRecord := ⟨e.1.1, e.1.2, e.2⟩

def mentions (r : AnimationRecord) : List Mention := r.writers.map fun writer => ⟨r.node, r.property, writer⟩

theorem map_key_mentions (r : AnimationRecord) :
    r.mentions.map Mention.key = List.replicate r.writers.length r.key := by
  rw [mentions, List.map_map]
  exact List.map_const (b := r.key)

theorem writersOf_mentions (r : AnimationRecord) : Mention.writersOf r.mentions r.key = r.writers := by
  have hall : r.mentions.filter (·.key = r.key) = r.mentions := by
    refine List.filter_eq_self.mpr fun m hm => ?_
    obtain ⟨_, -, rfl⟩ := List.mem_map.mp hm
    exact decide_eq_true rfl
  rw [Mention.writersOf, hall, mentions, List.map_map]
  exact List.map_id r.writers

theorem ofJson?_toJson (r : AnimationRecord) : ofJson? r.toJson = some r := by
  have hwriters : list? id? (ofList ofId r.writers) = some r.writers := list?_ofList fun id _ => id?_ofId id
  have hrecord : r.toJson.record? ["node", "property", "writers"] =
      some [some (ofId r.node), some (.string r.property), some (ofList ofId r.writers)] := by
    simp [toJson, record?, single?]
  simp [ofJson?, hrecord, required?, id?_ofId, string?, hwriters]

theorem legible_toJson (r : AnimationRecord) : r.toJson.Legible := by
  refine .object fun m hm => ?_
  simp only [List.mem_cons, List.not_mem_nil, or_false] at hm
  rcases hm with rfl | rfl | rfl
  · exact legible_ofId r.node
  · exact .string r.property
  · exact legible_ofList legible_ofId r.writers

end AnimationRecord

namespace AnimationTable
open Mention

def addAll (t : AnimationTable) (history : List Mention) : AnimationTable :=
  history.foldl (fun t m => t.add m.node m.property m.writer) t

def canonical (records : List AnimationRecord) : List AnimationRecord := (ofRecords records).records

def ofText? (text : String) : Option AnimationTable := (Json.parse? text).bind ofJson?

/-- The table holds the pairs that were named, each with the distinct writers that were named for it. -/
def Holds (t : AnimationTable) (history : List Mention) : Prop :=
  t.lists.entries = (history.map key).eraseDups.map fun k => (k, (writersOf history k).eraseDups)

section Contents
variable {t : AnimationTable} {history : List Mention} {k : NodeId × String}

theorem mem_writersOf {writer : NodeId} :
    writer ∈ writersOf history k ↔ ∃ m ∈ history, m.key = k ∧ m.writer = writer := by
  simp [writersOf, and_assoc]

theorem writersOf_eq_nil_iff : writersOf history k = [] ↔ k ∉ history.map key := by
  simp [writersOf, List.filter_eq_nil_iff]

/-- One more mention adds to the writers of its own pair, and only a writer that was not named before. -/
theorem eraseDups_writersOf_concat (m : Mention) : (writersOf (history ++ [m]) k).eraseDups =
    if k = m.key ∧ m.writer ∉ writersOf history k then (writersOf history k).eraseDups ++ [m.writer]
    else (writersOf history k).eraseDups := by
  by_cases hk : m.key = k
  · subst hk
    have hlast : writersOf (history ++ [m]) m.key = writersOf history m.key ++ [m.writer] := by simp [writersOf]
    rw [hlast, eraseDups_concat]
    by_cases hw : m.writer ∈ writersOf history m.key <;> simp [hw]
  · have hlast : writersOf (history ++ [m]) k = writersOf history k := by simp [writersOf, hk]
    rw [hlast, if_neg fun h => hk h.1.symm]

theorem Holds.writers_eq (h : t.Holds history) (node : NodeId) (property : String) :
    t.writers node property = (writersOf history (node, property)).eraseDups := by
  rw [Writers.writers, OrderedMap.get?, h]
  by_cases hk : (node, property) ∈ history.map key
  · have hkept : (node, property) ∈ (history.map key).eraseDups := List.mem_eraseDups.mpr hk
    rw [lookup_map_of_mem hkept]
    rfl
  · have hdropped : (node, property) ∉ (history.map key).eraseDups := fun h => hk (List.mem_eraseDups.mp h)
    rw [lookup_map_of_notMem hdropped, writersOf_eq_nil_iff.mpr hk]
    rfl

theorem Holds.add (h : t.Holds history) (m : Mention) :
    AnimationTable.Holds (t.add m.node m.property m.writer) (history ++ [m]) := by
  have hwriters : t.writers m.node m.property = (writersOf history m.key).eraseDups := h.writers_eq _ _
  simp only [Writers.add, AnimationTable.Holds, eraseDups_writersOf_concat, List.map_append, List.map_singleton,
    eraseDups_concat, hwriters, List.mem_eraseDups]
  -- A writer that is known changes nothing, and a new one changes its own pair only, which may be new as well.
  split
  case isTrue hmem =>
    have hk : m.key ∈ history.map key := by
      by_contra hk
      rw [writersOf_eq_nil_iff.mpr hk] at hmem
      cases hmem
    rw [if_pos hk, h]
    refine List.map_congr_left fun k _ => ?_
    rw [if_neg fun hadds => hadds.2 (hadds.1 ▸ hmem)]
  case isFalse hnew =>
    change OrderedMap.upsertEntries m.key (fun l => l.getD [] ++ [m.writer]) t.lists.entries = _
    rw [h, OrderedMap.upsertEntries_tabulated (nodup_eraseDups _)]
    simp only [List.mem_eraseDups]
    refine List.map_congr_left fun k _ => ?_
    by_cases hown : k = m.key
    · subst hown
      have hadds : m.key = m.key ∧ m.writer ∉ writersOf history m.key := ⟨rfl, hnew⟩
      rw [if_pos rfl, if_pos hadds]
      by_cases hk : m.key ∈ history.map key
      · rw [if_pos hk]
        rfl
      · rw [if_neg hk, writersOf_eq_nil_iff.mpr hk]
        rfl
    · rw [if_neg hown, if_neg fun hadds => hown hadds.1]

theorem Holds.addAll (h : t.Holds history) (more : List Mention) : (t.addAll more).Holds (history ++ more) := by
  induction more generalizing t history with
  | nil => exact (List.append_nil history).symm ▸ h
  | cons m more ih =>
    rw [List.append_cons]
    exact ih (h.add m)

theorem holds_ofRecords (records : List AnimationRecord) :
    (ofRecords records).Holds (records.flatMap AnimationRecord.mentions) := by
  have hmentions : ofRecords records = addAll ∅ (records.flatMap AnimationRecord.mentions) := by
    simp only [ofRecords, AnimationTable.addAll, List.foldl_flatMap, AnimationRecord.mentions, List.foldl_map]
  have hempty : AnimationTable.Holds ∅ [] := rfl
  rw [hmentions]
  exact hempty.addAll _

end Contents

section Listing
variable {t : AnimationTable} {history : List Mention} {r : AnimationRecord}

theorem Holds.mem_records_iff (h : t.Holds history) :
    r ∈ t.records ↔ r.key ∈ history.map key ∧ r.writers = (writersOf history r.key).eraseDups := by
  rw [mem_records, h, List.mem_map]
  constructor
  · rintro ⟨k, hk, he⟩
    obtain ⟨rfl, hwriters⟩ := Prod.mk.inj he
    exact ⟨List.mem_eraseDups.mp hk, hwriters.symm⟩
  · rintro ⟨hk, hwriters⟩
    exact ⟨r.key, List.mem_eraseDups.mpr hk, Prod.ext rfl hwriters.symm⟩

theorem records_eq (t : AnimationTable) :
    t.records = (t.lists.entries.map AnimationRecord.ofEntry).mergeSort (·.node ≤ ·.node) := rfl

theorem map_key_records_perm (t : AnimationTable) : (t.records.map AnimationRecord.key).Perm t.lists.keys := by
  have hkeys : (t.lists.entries.map AnimationRecord.ofEntry).map AnimationRecord.key = t.lists.keys := by
    rw [List.map_map]
    rfl
  rw [records_eq, ← hkeys]
  exact (List.mergeSort_perm _ _).map _

theorem Holds.keys_eq (h : t.Holds history) : t.lists.keys = (history.map key).eraseDups := by
  rw [OrderedMap.keys, h, List.map_map]
  exact List.map_id _

theorem Holds.nodup_keys (h : t.Holds history) : (t.records.map AnimationRecord.key).Nodup :=
  (map_key_records_perm t).nodup_iff.mpr (h.keys_eq ▸ nodup_eraseDups _)

theorem ascending_records (t : AnimationTable) : t.records.Pairwise (·.node ≤ ·.node) :=
  pairwise_le_mergeSort AnimationRecord.node _

/-- The properties of one node are listed in the order in which they were named. -/
theorem Holds.properties_eq (h : t.Holds history) (node : NodeId) :
    (t.records.filter (·.node = node)).map (·.property) =
      ((history.filter (·.node = node)).map (·.property)).eraseDups := by
  have hinj : ∀ k ∈ (history.map key).filter (·.1 = node), ∀ k' ∈ (history.map key).filter (·.1 = node),
      k.2 = k'.2 → k = k' := by
    intro k hk k' hk' he
    have hnode : k.1 = k'.1 :=
      (of_decide_eq_true (List.mem_filter.mp hk).2).trans (of_decide_eq_true (List.mem_filter.mp hk').2).symm
    exact Prod.ext hnode he
  calc (t.records.filter (·.node = node)).map (·.property)
    _ = ((history.map key).eraseDups.filter (·.1 = node)).map Prod.snd := by
      rw [records_eq, filter_mergeSort AnimationRecord.node, h, List.map_map, List.filter_map, List.map_map]
      rfl
    _ = (((history.map key).filter (·.1 = node)).map Prod.snd).eraseDups := by
      rw [filter_eraseDups, eraseDups_map hinj]
    _ = ((history.filter (·.node = node)).map (·.property)).eraseDups := by
      rw [List.filter_map, List.map_map]
      rfl

theorem Holds.visited_iff (h : t.Holds history) (node : NodeId) (property : String) :
    (∃ r ∈ t.records, r.key = (node, property)) ↔ t.writers node property ≠ [] := by
  have hnamed : (∃ r ∈ t.records, r.key = (node, property)) ↔ (node, property) ∈ history.map key := by
    rw [← List.mem_map, (map_key_records_perm t).mem_iff, h.keys_eq, List.mem_eraseDups]
  rw [hnamed, h.writers_eq, ← not_iff_not, not_not, ← writersOf_eq_nil_iff, List.eq_nil_iff_forall_not_mem,
    List.eq_nil_iff_forall_not_mem]
  simp only [List.mem_eraseDups]

theorem length_records (t : AnimationTable) : t.records.length = t.size := by
  rw [records_eq, List.length_mergeSort, List.length_map]
  rfl

end Listing

section Reload

/-- Each property of a node stands once, with writers that do not repeat, and the nodes ascend. -/
structure Canonical (records : List AnimationRecord) : Prop where
  once : (records.map AnimationRecord.key).Nodup
  written : ∀ r ∈ records, r.writers ≠ [] ∧ r.writers.Nodup
  ascending : records.Pairwise (·.node ≤ ·.node)

variable {t : AnimationTable} {history : List Mention} {records : List AnimationRecord}

theorem Holds.canonical (h : t.Holds history) : Canonical t.records := by
  refine ⟨h.nodup_keys, fun r hr => ?_, ascending_records t⟩
  obtain ⟨hk, hwriters⟩ := h.mem_records_iff.mp hr
  obtain ⟨m, hm, hkey⟩ := List.mem_map.mp hk
  have hmem : m.writer ∈ r.writers := hwriters ▸ List.mem_eraseDups.mpr (mem_writersOf.mpr ⟨m, hm, hkey, rfl⟩)
  exact ⟨List.ne_nil_of_mem hmem, hwriters ▸ nodup_eraseDups _⟩

theorem Canonical.eraseDups_keys (h : Canonical records) :
    ((records.flatMap AnimationRecord.mentions).map key).eraseDups = records.map AnimationRecord.key := by
  obtain ⟨honce, hwritten, -⟩ := h
  induction records with
  | nil => rfl
  | cons r records ih =>
    obtain ⟨hr, honce⟩ := List.nodup_cons.mp honce
    have hlater : r.key ∉ (records.flatMap AnimationRecord.mentions).map key := by
      simp only [List.map_flatMap, List.mem_flatMap, AnimationRecord.map_key_mentions, List.mem_replicate]
      rintro ⟨r', hr', -, hkey⟩
      exact hr (hkey ▸ List.mem_map_of_mem hr')
    -- A record without writers would leave no trace in the history.
    have hsome : r.writers.length ≠ 0 := fun h0 =>
      (hwritten r List.mem_cons_self).1 (List.eq_nil_of_length_eq_zero h0)
    rw [List.flatMap_cons, List.map_append, AnimationRecord.map_key_mentions, eraseDups_replicate_append hsome hlater,
      ih honce fun r' hr' => hwritten r' (List.mem_cons_of_mem _ hr'), List.map_cons]

theorem Canonical.writersOf_eq (h : Canonical records) {r : AnimationRecord} (hr : r ∈ records) :
    writersOf (records.flatMap AnimationRecord.mentions) r.key = r.writers := by
  rw [writersOf, List.filter_flatMap, List.map_flatMap,
    flatMap_eq_of_only (List.Nodup.of_map _ h.once) hr fun r' hr' hne => ?_]
  · exact r.writersOf_mentions
  · have hkey : r.key ∉ r'.mentions.map key := by
      rw [AnimationRecord.map_key_mentions, List.mem_replicate]
      exact fun hmem => hne (List.inj_on_of_nodup_map h.once hr' hr hmem.2.symm)
    exact writersOf_eq_nil_iff.mpr hkey

/-- What is listed canonically is listed in the same way again. -/
theorem Canonical.canonical_eq (h : Canonical records) : canonical records = records := by
  have hentries : (ofRecords records).lists.entries = records.map fun r => (r.key, r.writers) := by
    rw [holds_ofRecords records, h.eraseDups_keys, List.map_map]
    refine List.map_congr_left fun r hr => ?_
    rw [Function.comp_apply, h.writersOf_eq hr, eraseDups_eq_self (h.written r hr).2]
  have hsame : (ofRecords records).lists.entries.map AnimationRecord.ofEntry = records := by
    rw [hentries, List.map_map]
    exact List.map_id records
  rw [canonical, records_eq, hsame]
  exact List.mergeSort_of_pairwise (h.ascending.imp decide_eq_true)

theorem ofJson?_toJson (t : AnimationTable) : ofJson? t.toJson = some (ofRecords t.records) := by
  rw [ofJson?, toJson, Json.list?_ofList fun r _ => r.ofJson?_toJson]
  rfl

theorem legible_toJson (t : AnimationTable) : t.toJson.Legible :=
  Json.legible_ofList AnimationRecord.legible_toJson t.records

theorem ofText?_toJson (t : AnimationTable) :
    ∀ text ∈ [t.toJson.compact, t.toJson.pretty], ofText? text = some (ofRecords t.records) := by
  have hread : ∀ text, Json.parse? text = some t.toJson → ofText? text = some (ofRecords t.records) := by
    intro text htext
    rw [ofText?, htext]
    exact t.ofJson?_toJson
  simp only [List.mem_cons, List.not_mem_nil, or_false]
  rintro text (rfl | rfl)
  · exact hread _ (Json.parse?_compact t.legible_toJson)
  · exact hread _ (Json.parse?_pretty t.legible_toJson)

/-- A table is given by its history: it lists each property that was given a writer once, nodes ascending and
the properties of a node in the order in which they were first named, each with its distinct writers in the order
in which they were. Written out and read again, it lists the same. -/
theorem records_canonical (loaded : List AnimationRecord) (added : List Mention) :
    let history := loaded.flatMap AnimationRecord.mentions ++ added
    let t := (ofRecords loaded).addAll added
    (∀ node property, t.writers node property = (writersOf history (node, property)).eraseDups) ∧
    (t.records.map AnimationRecord.key).Nodup ∧
    (∀ node property, (∃ r ∈ t.records, r.key = (node, property)) ↔ t.writers node property ≠ []) ∧
    (∀ r ∈ t.records, r.writers = t.writers r.node r.property) ∧
    t.records.Pairwise (·.node ≤ ·.node) ∧
    (∀ node, (t.records.filter (·.node = node)).map (·.property) =
      ((history.filter (·.node = node)).map (·.property)).eraseDups) ∧
    t.size = t.records.length ∧
    (∀ text ∈ [t.toJson.compact, t.toJson.pretty], ∃ t', ofText? text = some t' ∧ t'.records = t.records) ∧
    canonical (canonical loaded) = canonical loaded := by
  intro history t
  have ht : t.Holds history := (holds_ofRecords loaded).addAll added
  have hloaded := holds_ofRecords loaded
  refine ⟨ht.writers_eq, ht.nodup_keys, ht.visited_iff, fun r hr => ?_, ascending_records t, ht.properties_eq,
    (length_records t).symm, fun text htext => ?_, hloaded.canonical.canonical_eq⟩
  · rw [ht.writers_eq]
    exact (ht.mem_records_iff.mp hr).2
  · exact ⟨_, ofText?_toJson t text htext, ht.canonical.canonical_eq⟩

/-- Records of one property are merged, and one without writers is dropped. -/
example : canonical [⟨9, "a", [1]⟩, ⟨4, "a", []⟩, ⟨2, "a", [3, 3]⟩, ⟨9, "a", [2, 1]⟩] =
    [⟨2, "a", [3]⟩, ⟨9, "a", [1, 2]⟩] := by
  cbv

end Reload

end AnimationTable

end ScenePrune
