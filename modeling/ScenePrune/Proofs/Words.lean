import ScenePrune.Text.Blank

/-! # Words of a text

The words of a text are its longest runs of characters that are no blanks. A blank between two texts keeps their
words apart, so the words of the whole are those of the one and then those of the other.
-/
namespace ScenePrune.Text

/-- A run without blanks that goes on to a blank, or to the end of the text, on either side. -/
def IsWord (word text : List Char) : Prop :=
  word ≠ [] ∧ (∀ c ∈ word, isBlank c = false) ∧ ∃ before after, text = before ++ word ++ after ∧
    (∀ c ∈ before.getLast?, isBlank c = true) ∧ ∀ c ∈ after.head?, isBlank c = true

variable {word run text rest : List Char} {blank : Char}

theorem wordsFrom_append_blank (hblank : isBlank blank = true) :
    wordsFrom word (text ++ blank :: rest) = wordsFrom word text ++ wordsFrom [] rest := by
  induction text generalizing word with
  | nil =>
    rw [List.nil_append, wordsFrom, wordsFrom, if_pos hblank]
    split <;> rfl
  | cons c text ih =>
    rw [List.cons_append, wordsFrom, wordsFrom]
    split
    · split
      · exact ih
      · rw [ih, List.cons_append]
    · exact ih

theorem wordsFrom_append (hrun : ∀ c ∈ run, isBlank c = false) :
    wordsFrom word (run ++ rest) = wordsFrom (run.reverse ++ word) rest := by
  induction run generalizing word with
  | nil => rfl
  | cons c run ih =>
    have hc : ¬ isBlank c = true := by simp [hrun c List.mem_cons_self]
    rw [List.cons_append, wordsFrom, if_neg hc, ih fun d hd => hrun d (List.mem_cons_of_mem _ hd),
      List.reverse_cons, List.append_assoc, List.singleton_append]

/-- A run that has come to its end is a word. -/
theorem wordsFrom_of_end (hword : word ≠ []) (hrest : ∀ c ∈ rest.head?, isBlank c = true) :
    wordsFrom word rest = word.reverse :: wordsFrom [] rest.tail := by
  cases rest with
  | nil => simp [wordsFrom, hword]
  | cons c rest => simp [wordsFrom, hword, hrest c rfl]

theorem wordsFrom_of_run (hrun : ∀ c ∈ run, isBlank c = false) (hne : run ≠ [])
    (hrest : ∀ c ∈ rest.head?, isBlank c = true) : wordsFrom [] (run ++ rest) = run :: wordsFrom [] rest.tail := by
  rw [wordsFrom_append hrun, List.append_nil, wordsFrom_of_end (by simpa using hne) hrest, List.reverse_reverse]

theorem isWord_append (hrun : ∀ c ∈ run, isBlank c = false) (hne : run ≠ [])
    (hrest : ∀ c ∈ rest.head?, isBlank c = true) : IsWord run (run ++ rest) :=
  ⟨hne, hrun, [], rest, rfl, by simp, hrest⟩

theorem IsWord.after_blank (hblank : isBlank blank = true) (h : IsWord word rest) :
    IsWord word (text ++ blank :: rest) := by
  obtain ⟨hne, hrun, before, after, rfl, hbefore, hafter⟩ := h
  refine ⟨hne, hrun, text ++ blank :: before, after, by simp, ?_, hafter⟩
  rcases List.eq_nil_or_concat before with rfl | ⟨before, d, rfl⟩
  · simpa using hblank
  · rw [List.concat_eq_append, List.getLast?_concat] at hbefore
    rwa [List.concat_eq_append, ← List.cons_append, ← List.append_assoc, List.getLast?_concat]

theorem isWord_of_mem_wordsFrom (hrun : ∀ c ∈ run, isBlank c = false) (h : word ∈ wordsFrom run text) :
    IsWord word (run.reverse ++ text) := by
  induction text generalizing run with
  | nil =>
    rw [wordsFrom] at h
    split at h
    · cases h
    case isFalse hne =>
      obtain rfl := List.mem_singleton.mp h
      exact isWord_append (by simpa using hrun) (by simpa using hne) (by simp)
  | cons c text ih =>
    rw [wordsFrom] at h
    split at h
    case isTrue hblank =>
      have hlater : word ∈ wordsFrom [] text → IsWord word (run.reverse ++ c :: text) := fun hmem =>
        (ih (fun _ hd => absurd hd List.not_mem_nil) hmem).after_blank hblank
      split at h
      · exact hlater h
      case isFalse hne =>
        rcases List.mem_cons.mp h with rfl | hmem
        · exact isWord_append (by simpa using hrun) (by simpa using hne) (by simpa using hblank)
        · exact hlater hmem
    case isFalse hletter =>
      have hlonger : ∀ d ∈ c :: run, isBlank d = false := by simpa [hletter] using hrun
      have hword := ih hlonger h
      rwa [List.reverse_cons, List.append_assoc, List.singleton_append] at hword

theorem mem_wordsFrom_iff : word ∈ wordsFrom [] text ↔ IsWord word text := by
  constructor
  · exact isWord_of_mem_wordsFrom fun _ hc => absurd hc List.not_mem_nil
  · rintro ⟨hne, hrun, before, after, rfl, hbefore, hafter⟩
    have hmem : word ∈ wordsFrom [] (word ++ after) := by
      rw [wordsFrom_of_run hrun hne hafter]
      exact List.mem_cons_self
    rcases List.eq_nil_or_concat before with rfl | ⟨before, blank, rfl⟩
    · exact hmem
    · have hblank : isBlank blank = true := hbefore blank (by simp)
      rw [List.concat_eq_append, List.append_assoc, List.append_assoc, List.singleton_append,
        wordsFrom_append_blank hblank]
      exact List.mem_append_right _ hmem

theorem mem_words_iff {s t : String} : s ∈ words t ↔ IsWord s.toList t.toList := by
  rw [← mem_wordsFrom_iff, words, List.mem_map]
  constructor
  · rintro ⟨word, hword, rfl⟩
    rwa [String.toList_ofList]
  · exact fun h => ⟨s.toList, h, String.ofList_toList⟩

/-- A blank keeps the words on its two sides apart. -/
theorem isWord_push_append {a b : String} (hblank : isBlank blank = true) :
    IsWord word (a.push blank ++ b).toList ↔ IsWord word a.toList ∨ IsWord word b.toList := by
  rw [String.toList_append, String.toList_push, List.append_assoc, List.singleton_append, ← mem_wordsFrom_iff,
    wordsFrom_append_blank hblank, List.mem_append, mem_wordsFrom_iff, mem_wordsFrom_iff]

theorem isWord_of_run (hne : run ≠ []) (hrun : ∀ c ∈ run, isBlank c = false) : IsWord word run ↔ word = run := by
  have hwords : wordsFrom [] (run ++ []) = [run] := wordsFrom_of_run hrun hne (by simp)
  rw [← mem_wordsFrom_iff, ← List.append_nil run, hwords, List.mem_singleton, List.append_nil]

end ScenePrune.Text
