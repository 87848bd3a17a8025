import Mathlib.Data.List.Induction
import Mathlib.Data.List.Nodup

/-! # Repetitions and order in a list

A list may be asked not to repeat some of its elements: each of them stays where it stands first. A list that
is sorted by a key ascends by it and keeps the order of elements of one key.
-/
namespace ScenePrune

section KeepOnce
variable {α β : Type} [DecidableEq α] [DecidableEq β]

/-- The list without the repetitions of those elements that may stand only once. -/
def keepOnce (single : α → Bool) (l : List α) : List α :=
  l.foldl (fun kept a => if single a ∧ a ∈ kept then kept else kept ++ [a]) []

variable {single : α → Bool}

theorem keepOnce_concat (l : List α) (a : α) : keepOnce single (l ++ [a]) =
    if single a ∧ a ∈ keepOnce single l then keepOnce single l else keepOnce single l ++ [a] := by
  rw [keepOnce, List.foldl_append]
  rfl

theorem mem_keepOnce {l : List α} {a : α} : a ∈ keepOnce single l ↔ a ∈ l := by
  induction l using List.reverseRecOn with
  | nil => simp [keepOnce]
  | append_singleton l b ih =>
    rw [keepOnce_concat]
    split
    case isTrue h =>
      rw [ih, List.mem_append, List.mem_singleton]
      exact ⟨Or.inl, fun hor => hor.elim id fun hab => hab ▸ ih.mp (hab ▸ h.2)⟩
    case isFalse => simp [ih]

theorem filter_keepOnce (p : α → Bool) (l : List α) :
    (keepOnce single l).filter p = keepOnce single (l.filter p) := by
  induction l using List.reverseRecOn with
  | nil => rfl
  | append_singleton l b ih =>
    by_cases hp : p b
    · have hmem : b ∈ keepOnce single (l.filter p) ↔ b ∈ keepOnce single l := by simp [mem_keepOnce, hp]
      rw [List.filter_append, List.filter_singleton, hp, cond_true, keepOnce_concat, keepOnce_concat]
      simp only [hmem]
      split
      · exact ih
      · rw [List.filter_append, List.filter_singleton, hp, cond_true, ih]
    · have hp : p b = false := by simpa using hp
      rw [List.filter_append, List.filter_singleton, hp, cond_false, List.append_nil,
        keepOnce_concat, ← ih]
      split
      · rfl
      · simp [hp]

theorem map_keepOnce {single' : β → Bool} {f : α → β} {l : List α}
    (hf : ∀ a ∈ l, ∀ b ∈ l, f a = f b → a = b) (hs : ∀ a ∈ l, single' (f a) = single a) :
    keepOnce single' (l.map f) = (keepOnce single l).map f := by
  induction l using List.reverseRecOn with
  | nil => rfl
  | append_singleton l b ih =>
    have hlast : b ∈ l ++ [b] := by simp
    have ih := ih (fun a ha c hc => hf a (List.mem_append_left _ ha) c (List.mem_append_left _ hc))
      fun a ha => hs a (List.mem_append_left _ ha)
    have hmem : f b ∈ (keepOnce single l).map f ↔ b ∈ keepOnce single l := by
      rw [List.mem_map]
      constructor
      · rintro ⟨a, ha, hab⟩
        exact hf a (List.mem_append_left _ (mem_keepOnce.mp ha)) b hlast hab ▸ ha
      · exact fun hb => ⟨b, hb, rfl⟩
    rw [List.map_append, List.map_singleton, keepOnce_concat, keepOnce_concat, ih, hs b hlast]
    simp only [hmem]
    split <;> simp

theorem keepOnce_eq_self {l : List α} (h : ∀ a ∈ l, single a = false) : keepOnce single l = l := by
  induction l using List.reverseRecOn with
  | nil => rfl
  | append_singleton l b ih =>
    have hb : single b = false := h b (by simp)
    rw [keepOnce_concat, if_neg (by simp [hb]), ih fun a ha => h a (List.mem_append_left _ ha)]

theorem nodup_keepOnce {l : List α} (h : ∀ a ∈ l, single a = true) : (keepOnce single l).Nodup := by
  induction l using List.reverseRecOn with
  | nil => exact List.nodup_nil
  | append_singleton l b ih =>
    have ih := ih fun a ha => h a (List.mem_append_left _ ha)
    have hb : single b = true := h b (by simp)
    rw [keepOnce_concat]
    split
    case isTrue => exact ih
    case isFalse hnew => exact List.concat_eq_append ▸ ih.concat fun hmem => hnew ⟨hb, hmem⟩

/-- Up to order, the elements that may stand once are kept if they occur and the others as they are. -/
theorem keepOnce_perm {l l' : List α} (hsingle : ∀ a, single a = true → (a ∈ l ↔ a ∈ l'))
    (hrest : (l.filter fun a => !single a).Perm (l'.filter fun a => !single a)) :
    (keepOnce single l).Perm (keepOnce single l') := by
  -- The two kinds of elements do not mix, so each is compared on its own.
  have hsplit : ∀ l : List α, (keepOnce single l).Perm
      (keepOnce single (l.filter single) ++ l.filter fun a => !single a) := by
    intro l
    have hothers : keepOnce single (l.filter fun a => !single a) = l.filter fun a => !single a :=
      keepOnce_eq_self fun a ha => by simpa using (List.mem_filter.mp ha).2
    rw [← hothers, ← filter_keepOnce, ← filter_keepOnce]
    exact (List.filter_append_perm single _).symm
  have honce : (keepOnce single (l.filter single)).Perm (keepOnce single (l'.filter single)) := by
    rw [List.perm_ext_iff_of_nodup (nodup_keepOnce fun a ha => (List.mem_filter.mp ha).2)
      (nodup_keepOnce fun a ha => (List.mem_filter.mp ha).2)]
    intro a
    rw [mem_keepOnce, mem_keepOnce, List.mem_filter, List.mem_filter]
    exact and_congr_left (hsingle a)
  exact (hsplit l).trans ((honce.append hrest).trans (hsplit l').symm)

end KeepOnce

section EraseDups
variable {α : Type} [DecidableEq α] [BEq α] [LawfulBEq α]

/-- Here no element may stand more than once. -/
theorem eraseDups_eq_keepOnce (l : List α) : l.eraseDups = keepOnce (fun _ => true) l := by
  induction l using List.reverseRecOn with
  | nil => rfl
  | append_singleton l b ih =>
    rw [keepOnce_concat, List.eraseDups_append, ← ih]
    by_cases hb : b ∈ l <;> simp [List.removeAll, List.eraseDups_cons, hb]

theorem eraseDups_concat (l : List α) (a : α) :
    (l ++ [a]).eraseDups = if a ∈ l then l.eraseDups else l.eraseDups ++ [a] := by
  simp only [eraseDups_eq_keepOnce, keepOnce_concat, mem_keepOnce, true_and]

theorem filter_eraseDups (p : α → Bool) (l : List α) : l.eraseDups.filter p = (l.filter p).eraseDups := by
  rw [eraseDups_eq_keepOnce, eraseDups_eq_keepOnce, filter_keepOnce]

theorem eraseDups_map {β : Type} [DecidableEq β] [BEq β] [LawfulBEq β] {f : α → β} {l : List α}
    (hf : ∀ a ∈ l, ∀ b ∈ l, f a = f b → a = b) : (l.map f).eraseDups = l.eraseDups.map f := by
  rw [eraseDups_eq_keepOnce, eraseDups_eq_keepOnce, map_keepOnce hf fun _ _ => rfl]

theorem nodup_eraseDups (l : List α) : l.eraseDups.Nodup := by
  rw [eraseDups_eq_keepOnce]
  exact nodup_keepOnce fun _ _ => rfl

omit [DecidableEq α]

theorem eraseDups_replicate_append {n : Nat} (hn : n ≠ 0) {a : α} {l : List α} (ha : a ∉ l) :
    (List.replicate n a ++ l).eraseDups = a :: l.eraseDups := by
  obtain ⟨n, rfl⟩ := Nat.exists_eq_succ_of_ne_zero hn
  have hothers : (l.filter fun b => !b == a) = l :=
    List.filter_eq_self.mpr fun b hb => by simpa using fun he : b = a => ha (he ▸ hb)
  rw [List.replicate_succ, List.cons_append, List.eraseDups_cons, List.filter_append, hothers]
  simp

theorem eraseDups_eq_self {l : List α} (h : l.Nodup) : l.eraseDups = l := by
  induction l with
  | nil => rfl
  | cons a l ih =>
    obtain ⟨ha, hl⟩ := List.nodup_cons.mp h
    have hfirst := eraseDups_replicate_append Nat.one_ne_zero ha
    exact hfirst.trans (congrArg (a :: ·) (ih hl))

end EraseDups

section Alone
variable {α β : Type} {f : α → List β} {l : List α} {a : α}

/-- Where only one element brings anything, the others may be left out. -/
theorem flatMap_eq_of_only (hl : l.Nodup) (ha : a ∈ l) (h : ∀ b ∈ l, b ≠ a → f b = []) : l.flatMap f = f a := by
  obtain ⟨before, after, rfl⟩ := List.append_of_mem ha
  obtain ⟨-, hafter, hbefore⟩ := List.nodup_append.mp hl
  have hnone : before.flatMap f = [] :=
    List.flatMap_eq_nil_iff.mpr fun b hb => h b (List.mem_append_left _ hb) (hbefore b hb a List.mem_cons_self)
  have hnone' : after.flatMap f = [] :=
    List.flatMap_eq_nil_iff.mpr fun b hb => h b (by simp [hb]) fun hba => (List.nodup_cons.mp hafter).1 (hba ▸ hb)
  rw [List.flatMap_append, List.flatMap_cons, hnone, hnone', List.nil_append, List.append_nil]

end Alone

section Sorting
variable {α β : Type} [LE β] [DecidableLE β] [Std.IsLinearOrder β] (key : α → β)

theorem decide_le_trans (a b c : α) (hab : decide (key a ≤ key b) = true) (hbc : decide (key b ≤ key c) = true) :
    decide (key a ≤ key c) = true :=
  decide_eq_true (Std.le_trans (of_decide_eq_true hab) (of_decide_eq_true hbc))

theorem decide_le_total (a b : α) : (decide (key a ≤ key b) || decide (key b ≤ key a)) = true := by
  simpa using Std.le_total (a := key a) (b := key b)

theorem pairwise_le_mergeSort (l : List α) :
    (l.mergeSort fun a b => key a ≤ key b).Pairwise fun a b => key a ≤ key b :=
  (List.pairwise_mergeSort (decide_le_trans key) (decide_le_total key) l).imp of_decide_eq_true

/-- Sorting by keys that do not repeat leaves them strictly ascending. -/
theorem pairwise_lt_mergeSort [LT β] [Std.LawfulOrderLT β] {l : List α} (h : (l.map key).Nodup) :
    ((l.mergeSort fun a b => key a ≤ key b).map key).Pairwise (· < ·) := by
  have hne : ((l.mergeSort fun a b => key a ≤ key b).map key).Pairwise (· ≠ ·) :=
    ((List.mergeSort_perm l _).map key).nodup_iff.mpr h
  have hle : ((l.mergeSort fun a b => key a ≤ key b).map key).Pairwise (· ≤ ·) :=
    List.pairwise_map.mpr (pairwise_le_mergeSort key l)
  exact (hle.and hne).imp fun hab => Std.lt_of_le_of_ne hab.1 hab.2

/-- Sorting leaves elements of one key in their order. -/
theorem filter_mergeSort [DecidableEq β] (l : List α) (k : β) :
    (l.mergeSort fun a b => key a ≤ key b).filter (key · = k) = l.filter (key · = k) := by
  have hsorted : (l.filter (key · = k)).Pairwise fun a b => decide (key a ≤ key b) = true := by
    refine List.pairwise_of_forall_mem_list fun a ha b hb => ?_
    have hab : key a = key b :=
      (of_decide_eq_true (List.mem_filter.mp ha).2).trans (of_decide_eq_true (List.mem_filter.mp hb).2).symm
    exact decide_eq_true (hab ▸ Std.le_refl (key a))
  have hsub := (List.sublist_mergeSort (decide_le_trans key) (decide_le_total key) hsorted List.filter_sublist).filter
    (key · = k)
  simp only [List.filter_filter, Bool.and_self] at hsub
  exact (hsub.eq_of_length ((List.mergeSort_perm l _).filter _).length_eq.symm).symm

end Sorting

end ScenePrune
