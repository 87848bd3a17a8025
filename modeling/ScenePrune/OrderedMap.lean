/-!
# Maps that remember the order of their keys

An `OrderedMap` lists its entries in the order in which their keys were first inserted. Writing to
a known key changes its value and keeps its place. The lemmas say what each operation does to
look-up and to the list of keys.
-/

namespace ScenePrune

structure OrderedMap (κ ν : Type) where
  entries : List (κ × ν)
deriving DecidableEq

namespace OrderedMap

variable {κ ν : Type} [DecidableEq κ]

def empty : OrderedMap κ ν := ⟨[]⟩

instance : EmptyCollection (OrderedMap κ ν) := ⟨empty⟩

instance : Inhabited (OrderedMap κ ν) := ⟨∅⟩

def keys (m : OrderedMap κ ν) : List κ := m.entries.map Prod.fst

def size (m : OrderedMap κ ν) : Nat := m.entries.length

def isEmpty (m : OrderedMap κ ν) : Bool := m.entries.isEmpty

def get? (m : OrderedMap κ ν) (k : κ) : Option ν := m.entries.lookup k

def contains (m : OrderedMap κ ν) (k : κ) : Bool := (m.get? k).isSome

/-- The entries with the value at `k` replaced by what `f` makes of it; a new key goes to the end. -/
def upsertEntries (k : κ) (f : Option ν → ν) : List (κ × ν) → List (κ × ν)
  | [] => [(k, f none)]
  | (k', v) :: rest =>
    if k = k' then (k', f (some v)) :: rest else (k', v) :: upsertEntries k f rest

def upsert (m : OrderedMap κ ν) (k : κ) (f : Option ν → ν) : OrderedMap κ ν :=
  ⟨upsertEntries k f m.entries⟩

def insert (m : OrderedMap κ ν) (k : κ) (v : ν) : OrderedMap κ ν := m.upsert k fun _ => v

def erase (m : OrderedMap κ ν) (k : κ) : OrderedMap κ ν := ⟨m.entries.filter (·.1 ≠ k)⟩

def modify (m : OrderedMap κ ν) (k : κ) (f : ν → ν) : OrderedMap κ ν :=
  ⟨m.entries.map fun (k', v) => if k' = k then (k', f v) else (k', v)⟩

/-- The map that holds the pairs of the list, where a later pair overwrites an earlier one. -/
def ofList (l : List (κ × ν)) : OrderedMap κ ν := l.foldl (fun m (k, v) => m.insert k v) ∅

theorem lookup_upsertEntries (k j : κ) (f : Option ν → ν) (l : List (κ × ν)) :
    (upsertEntries k f l).lookup j = if j = k then some (f (l.lookup k)) else l.lookup j := by
  induction l with
  | nil => grind [upsertEntries]
  | cons e l ih => grind [upsertEntries]

@[simp] theorem get?_empty (k : κ) : (∅ : OrderedMap κ ν).get? k = none := rfl

theorem get?_upsert (m : OrderedMap κ ν) (k j : κ) (f : Option ν → ν) :
    (m.upsert k f).get? j = if j = k then some (f (m.get? k)) else m.get? j :=
  lookup_upsertEntries k j f m.entries

theorem get?_insert (m : OrderedMap κ ν) (k j : κ) (v : ν) :
    (m.insert k v).get? j = if j = k then some v else m.get? j :=
  get?_upsert m k j _

theorem map_fst_upsertEntries (k : κ) (f : Option ν → ν) (l : List (κ × ν)) :
    (upsertEntries k f l).map Prod.fst =
      if k ∈ l.map Prod.fst then l.map Prod.fst else l.map Prod.fst ++ [k] := by
  induction l with
  | nil => simp [upsertEntries]
  | cons e l ih =>
    obtain ⟨k', v⟩ := e
    by_cases hk : k = k'
    · simp [upsertEntries, hk]
    · simp only [upsertEntries, hk, if_false, List.map_cons, ih, List.mem_cons, false_or]
      split <;> rfl

theorem keys_upsert (m : OrderedMap κ ν) (k : κ) (f : Option ν → ν) :
    (m.upsert k f).keys = if k ∈ m.keys then m.keys else m.keys ++ [k] :=
  map_fst_upsertEntries k f m.entries

theorem keys_insert (m : OrderedMap κ ν) (k : κ) (v : ν) :
    (m.insert k v).keys = if k ∈ m.keys then m.keys else m.keys ++ [k] :=
  keys_upsert m k _

theorem keys_erase (m : OrderedMap κ ν) (k : κ) : (m.erase k).keys = m.keys.filter (· ≠ k) := by
  simp only [erase, keys, List.filter_map]
  rfl

theorem nodup_keys_upsert {m : OrderedMap κ ν} (hm : m.keys.Nodup) (k : κ) (f : Option ν → ν) :
    (m.upsert k f).keys.Nodup := by
  rw [keys_upsert]
  split
  case isTrue => exact hm
  case isFalse hnew =>
    refine List.nodup_append.mpr ⟨hm, by simp, ?_⟩
    rintro key hkey _ hk rfl
    exact hnew (List.mem_singleton.mp hk ▸ hkey)

theorem nodup_keys_insert {m : OrderedMap κ ν} (hm : m.keys.Nodup) (k : κ) (v : ν) : (m.insert k v).keys.Nodup :=
  nodup_keys_upsert hm k _

theorem nodup_keys_ofList (l : List (κ × ν)) : (ofList l).keys.Nodup := by
  have hfold : ∀ m : OrderedMap κ ν, m.keys.Nodup → (l.foldl (fun m (k, v) => m.insert k v) m).keys.Nodup := by
    induction l with
    | nil => exact fun _ hm => hm
    | cons e l ih => exact fun m hm => ih _ (nodup_keys_insert hm e.1 e.2)
  exact hfold ∅ List.nodup_nil

theorem nodup_keys_erase {m : OrderedMap κ ν} (hm : m.keys.Nodup) (k : κ) : (m.erase k).keys.Nodup := by
  rw [keys_erase]
  exact hm.filter _

theorem contains_iff {m : OrderedMap κ ν} {k : κ} : m.contains k = true ↔ k ∈ m.keys := by
  rw [contains, Option.isSome_iff_ne_none, get?, Ne, List.lookup_eq_none_iff, keys]
  simp

end OrderedMap

end ScenePrune
