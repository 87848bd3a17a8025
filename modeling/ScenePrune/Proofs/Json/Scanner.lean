import Mathlib.Data.List.Forall2
import ScenePrune.Json.Printer
import ScenePrune.Json.Reader
import ScenePrune.Proofs.Decimal.Shortest

/-! # What a text spells

A text spells a list of tokens if the scanner, put in front of it between two tokens, has read just these
once what follows ends the last word. The texts that are printed are put together from quoted strings,
bare words, punctuation and blanks, and so are the tokens that they spell.
-/
namespace ScenePrune.Json

/-- The text is cut into the tokens, wherever it stands; its last word may still be open. -/
def Spells (text : List Char) (tokens : List Token) : Prop :=
  ∀ before, ∃ s, text.foldlM Scanner.step ⟨.between, before⟩ = some s ∧
    s.endWord? = some ⟨.between, tokens.reverse ++ before⟩

/-- The text is cut into the tokens, and nothing that follows can belong to the last one. -/
def Closes (text : List Char) (tokens : List Token) : Prop :=
  ∀ before, text.foldlM Scanner.step ⟨.between, before⟩ = some ⟨.between, tokens.reverse ++ before⟩

section Pieces
variable {text text' : List Char} {tokens tokens' : List Token} {c : Char} {t : Token}

theorem Closes.spells (h : Closes text tokens) : Spells text tokens := fun before => ⟨_, h before, rfl⟩

theorem Closes.nil : Closes [] [] := fun _ => rfl

theorem Closes.append_spells (h : Closes text tokens) (h' : Spells text' tokens') :
    Spells (text ++ text') (tokens ++ tokens') := by
  intro before
  obtain ⟨s, hs, hend⟩ := h' (tokens.reverse ++ before)
  refine ⟨s, ?_, by rw [hend, List.reverse_append, List.append_assoc]⟩
  rw [List.foldlM_append, h before]
  exact hs

theorem Closes.append (h : Closes text tokens) (h' : Closes text' tokens') :
    Closes (text ++ text') (tokens ++ tokens') := by
  intro before
  rw [List.foldlM_append, h before, List.reverse_append, List.append_assoc]
  exact h' _

/-- Outside of strings every character is treated alike, whether or not a word is open. -/
theorem Scanner.step_eq_outside {s ended : Scanner} (h : s.endWord? = some ended) (c : Char) :
    ∃ chars, s.step c = s.outside chars c := by
  unfold Scanner.step
  cases hs : s.scan <;> first | exact ⟨_, rfl⟩ | simp [Scanner.endWord?, hs] at h

theorem Scanner.step_space {s ended : Scanner} (h : s.endWord? = some ended) (hc : isSpace c = true) :
    s.step c = some ended := by
  obtain ⟨chars, hstep⟩ := Scanner.step_eq_outside h c
  rw [hstep, Scanner.outside, if_pos hc, h]

theorem Scanner.step_punctuation {s ended : Scanner} (h : s.endWord? = some ended) (hc : punctuation? c = some t) :
    s.step c = some (ended.emit t) := by
  have hother : isSpace c = false ∧ c ≠ '"' := by
    unfold punctuation? at hc
    split at hc <;> first | exact ⟨rfl, by decide⟩ | cases hc
  obtain ⟨chars, hstep⟩ := Scanner.step_eq_outside h c
  rw [hstep, Scanner.outside, if_neg (by simp [hother.1]), if_neg hother.2, hc]
  simp [h]

theorem Spells.punctuation (h : Spells text tokens) (hc : punctuation? c = some t) :
    Closes (text ++ [c]) (tokens ++ [t]) := by
  intro before
  obtain ⟨s, hs, hend⟩ := h before
  rw [List.foldlM_append, hs]
  simp [Scanner.step_punctuation hend hc, Scanner.emit]

theorem Spells.space (h : Spells text tokens) (hc : isSpace c = true) : Closes (text ++ [c]) tokens := by
  intro before
  obtain ⟨s, hs, hend⟩ := h before
  rw [List.foldlM_append, hs]
  simp [Scanner.step_space hend hc]

theorem Spells.spaces {blanks : List Char} (h : Spells text tokens) (hblanks : ∀ c ∈ blanks, isSpace c = true) :
    Spells (text ++ blanks) tokens := by
  induction blanks generalizing text with
  | nil => rwa [List.append_nil]
  | cons c blanks ih =>
    rw [List.append_cons]
    exact ih (h.space (hblanks c List.mem_cons_self)).spells fun c hc => hblanks c (List.mem_cons_of_mem _ hc)

theorem Closes.blanks {blanks : List Char} (hblanks : ∀ c ∈ blanks, isSpace c = true) : Closes blanks [] := by
  induction blanks with
  | nil => exact Closes.nil
  | cons c blanks ih =>
    exact (Closes.nil.spells.space (hblanks c List.mem_cons_self)).append
      (ih fun c hc => hblanks c (List.mem_cons_of_mem _ hc))

end Pieces

section Words

def IsBare (c : Char) : Prop := isSpace c = false ∧ c ≠ '"' ∧ punctuation? c = none

theorem foldlM_word {word chars : List Char} (hbare : ∀ c ∈ word, IsBare c) (before : List Token) :
    word.foldlM Scanner.step ⟨.word chars, before⟩ = some ⟨.word (word.reverse ++ chars), before⟩ := by
  induction word generalizing chars with
  | nil => rfl
  | cons c word ih =>
    obtain ⟨hspace, hquote, hpunctuation⟩ := hbare c List.mem_cons_self
    have hstep : Scanner.step ⟨.word chars, before⟩ c = some ⟨.word (c :: chars), before⟩ := by
      simp [Scanner.step, Scanner.outside, hspace, hquote, hpunctuation]
    rw [List.foldlM_cons, hstep, List.reverse_cons, List.append_assoc]
    exact ih fun c hc => hbare c (List.mem_cons_of_mem _ hc)

theorem spells_word {word : List Char} {v : Json} (hword : ofWord? word = some v) (hne : word ≠ [])
    (hbare : ∀ c ∈ word, IsBare c) : Spells word [.scalar v] := by
  intro before
  obtain ⟨c, rest, rfl⟩ := List.exists_cons_of_ne_nil hne
  obtain ⟨hspace, hquote, hpunctuation⟩ := hbare c List.mem_cons_self
  have hstep : Scanner.step ⟨.between, before⟩ c = some ⟨.word [c], before⟩ := by
    simp [Scanner.step, Scanner.outside, hspace, hquote, hpunctuation]
  refine ⟨⟨.word (c :: rest).reverse, before⟩, ?_, ?_⟩
  · rw [List.foldlM_cons, hstep, List.reverse_cons]
    exact foldlM_word (fun c hc => hbare c (List.mem_cons_of_mem _ hc)) before
  · simp only [Scanner.endWord?, List.reverse_reverse, hword]
    rfl

variable {n : Numeral}

theorem ofWord?_text (hn : n.Canonical) : ofWord? n.text.toList = some (number n) := by
  have hread := Numeral.ofChars?_text hn
  have hother : ∀ word : String, Numeral.ofChars? word.toList = none → String.ofList n.text.toList ≠ word := by
    intro word hword he
    rw [String.ofList_toList] at he
    rw [he, hword] at hread
    cases hread
  unfold ofWord?
  split
  case h_1 he => exact absurd he (hother _ (by decide))
  case h_2 he => exact absurd he (hother _ (by decide))
  case h_3 he => exact absurd he (hother _ (by decide))
  case h_4 => rw [hread, Option.map_some]

theorem isBare_of_mem_text (hn : n.Canonical) {c : Char} (hc : c ∈ n.text.toList) : IsBare c := by
  have hdigit : c.isDigit = true → IsBare c := by
    intro hd
    refine ⟨?_, ?_, ?_⟩
    · rw [← Bool.not_eq_true]
      intro hspace
      simp only [isSpace, Bool.or_eq_true, decide_eq_true_eq] at hspace
      rcases hspace with ((rfl | rfl) | rfl) | rfl <;> cases hd
    · rintro rfl
      cases hd
    · unfold punctuation?
      split <;> first | rfl | cases hd
  have hsign : ∀ c ∈ ['-', '+', '.', 'e'], IsBare c := by
    simp only [List.mem_cons, List.not_mem_nil, or_false, forall_eq_or_imp, forall_eq]
    exact ⟨⟨rfl, by decide, rfl⟩, ⟨rfl, by decide, rfl⟩, ⟨rfl, by decide, rfl⟩, rfl, by decide, rfl⟩
  have hbody : c ∈ n.body → IsBare c := fun hc => (Numeral.mem_body hn hc).elim hdigit (hsign c)
  rw [Numeral.toList_text] at hc
  split at hc
  · rcases List.mem_cons.mp hc with rfl | hc
    · exact hsign _ (by simp)
    · exact hbody hc
  · exact hbody hc

theorem spells_numeral (hn : n.Canonical) : Spells n.text.toList [.scalar (number n)] := by
  refine spells_word (ofWord?_text hn) ?_ fun c hc => isBare_of_mem_text hn hc
  intro hnil
  have hread := Numeral.ofChars?_text hn
  rw [hnil] at hread
  cases hread

end Words

section Strings
variable {c : Char}

def Piece.Holds (c : Char) : Piece → Prop
  | .char c' => c' = c
  | .unit n => n = c.toNat ∧ n < 32

theorem joinPieces_cons {p : Piece} (hp : p.Holds c) (pieces : List Piece) :
    joinPieces (p :: pieces) = (joinPieces pieces).map (c :: ·) := by
  cases p with
  | char c' =>
    obtain rfl : c' = c := hp
    rw [joinPieces]
  | unit n =>
    obtain ⟨rfl, hn⟩ := hp
    have hhigh : isHigh c.toNat = false := by simp [isHigh]; omega
    have hlow : isLow c.toNat = false := by simp [isLow]; omega
    cases pieces with
    | nil => simp [joinPieces, hhigh, hlow]
    | cons p' pieces =>
      cases p' <;> simp [joinPieces, hhigh, hlow]

theorem joinPieces_eq {pieces : List Piece} {cs : List Char} (h : List.Forall₂ (fun p c => p.Holds c) pieces cs) :
    joinPieces pieces = some cs := by
  induction h with
  | nil => rfl
  | cons hp _ ih => rw [joinPieces_cons hp, ih, Option.map_some]

theorem hexValue?_digitChar {d : Nat} (h : d < 16) : Text.hexValue? (Nat.digitChar d) = some d := by
  revert d
  decide

theorem foldlM_hexDigits {n : Nat} (h : n < 65536) (pieces : List Piece) (before : List Token) :
    (Text.hexDigits 4 n).toList.foldlM Scanner.step ⟨.digits pieces 0 0, before⟩ =
      some ⟨.inside (.unit n :: pieces), before⟩ := by
  have hdigits : (Text.hexDigits 4 n).toList = [n / 4096, n / 256, n / 16, n / 1].map fun k => Nat.digitChar (k % 16) := by
    rw [Text.hexDigits, String.toList_ofList]
    rfl
  have hvalue : ∀ k, Text.hexValue? (Nat.digitChar (k % 16)) = some (k % 16) :=
    fun k => hexValue?_digitChar (Nat.mod_lt _ (by decide))
  rw [hdigits]
  simp only [List.map_cons, List.map_nil, List.foldlM_cons, List.foldlM_nil, Scanner.step, hvalue, Option.map_some,
    Option.bind_eq_bind, Option.bind_some, Nat.reduceAdd, Nat.reduceEqDiff, if_true, if_false, Option.pure_def]
  have hjoined : 16 * (16 * (16 * (16 * 0 + n / 4096 % 16) + n / 256 % 16) + n / 16 % 16) + n / 1 % 16 = n := by omega
  rw [hjoined]

/-- Reading back what a character is written as gives a piece for it. -/
theorem foldlM_escape (c : Char) : ∃ p : Piece, p.Holds c ∧ ∀ pieces before,
    (escape c).toList.foldlM Scanner.step ⟨.inside pieces, before⟩ = some ⟨.inside (p :: pieces), before⟩ := by
  unfold escape
  split
  case h_6 hquote hbackslash _ _ _ =>
    have hquote : c ≠ '"' := hquote
    have hbackslash : c ≠ '\\' := hbackslash
    have hchar : ∀ n, c.toNat = n → Char.ofNat n = c := by
      rintro _ rfl
      exact Char.ofNat_toNat c
    split
    case isTrue h => exact ⟨.char (Char.ofNat 8), hchar 8 h, fun _ _ => by simp [Scanner.step, escapedChar?]⟩
    split
    case isTrue h => exact ⟨.char (Char.ofNat 12), hchar 12 h, fun _ _ => by simp [Scanner.step, escapedChar?]⟩
    split
    case isTrue h =>
      refine ⟨.unit c.toNat, ⟨rfl, h⟩, fun pieces before => ?_⟩
      rw [String.toList_append, List.foldlM_append]
      exact foldlM_hexDigits (by omega) pieces before
    case isFalse h =>
      refine ⟨.char c, rfl, fun pieces before => ?_⟩
      simp [Scanner.step, h, hquote, hbackslash]
  all_goals exact ⟨.char _, rfl, fun _ _ => by simp [Scanner.step, escapedChar?]⟩

theorem foldlM_escapes (cs : List Char) : ∃ read, List.Forall₂ (fun p c => p.Holds c) read cs ∧
    ∀ pieces before, (cs.flatMap fun c => (escape c).toList).foldlM Scanner.step ⟨.inside pieces, before⟩ =
      some ⟨.inside (read.reverse ++ pieces), before⟩ := by
  induction cs with
  | nil => exact ⟨[], .nil, fun _ _ => rfl⟩
  | cons c cs ih =>
    obtain ⟨p, hp, hfirst⟩ := foldlM_escape c
    obtain ⟨read, hread, hrest⟩ := ih
    refine ⟨p :: read, .cons hp hread, fun pieces before => ?_⟩
    rw [List.flatMap_cons, List.foldlM_append, hfirst, List.reverse_cons, List.append_assoc]
    exact hrest (p :: pieces) before

theorem closes_quoted (text : String) : Closes (quoted text).toList [.scalar (string text)] := by
  obtain ⟨read, hread, hfold⟩ := foldlM_escapes text.toList
  intro before
  have htext : (quoted text).toList = '"' :: ((text.toList.flatMap fun c => (escape c).toList) ++ ['"']) := by
    simp [quoted, List.flatMap_map]
  have hopen : Scanner.step ⟨.between, before⟩ '"' = some ⟨.inside [], before⟩ := rfl
  rw [htext, List.foldlM_cons, hopen]
  simp only [Option.bind_eq_bind, Option.bind_some, List.foldlM_append, hfold]
  simp [Scanner.step, ofPieces, joinPieces_eq hread]

end Strings

end ScenePrune.Json
