import Mathlib.Data.Nat.Digits.Defs
import ScenePrune.Decimal.Shortest

/-! # A numeral is read as it was written

A canonical numeral has a digit on either side of the point and no zero in front of another digit. The
text of such a numeral reads back as the same numeral. Natural numbers are written so, and finite doubles
are.
-/
namespace ScenePrune

namespace Numeral

structure Canonical (n : Numeral) : Prop where
  digits : ∀ d ∈ n.whole, d < 10
  unpadded : n.whole = [0] ∨ ∃ d ds, n.whole = d :: ds ∧ d ≠ 0
  fraction : ∀ ds, n.fraction? = some ds → ds ≠ [] ∧ ∀ d ∈ ds, d < 10

section Digits
variable {d k : Nat} {ds : List Nat} {rest : List Char}

theorem isDigit_digitChar (h : d < 10) : (Nat.digitChar d).isDigit = true := by
  revert d
  decide

theorem toNat_digitChar (h : d < 10) : (Nat.digitChar d).toNat - 48 = d := by
  revert d
  decide

/-- Digits are split off up to the first character that is none. -/
theorem splitDigits_append (hds : ∀ d ∈ ds, d < 10) (hrest : ∀ c, rest.head? = some c → c.isDigit = false) :
    splitDigits (ds.map Nat.digitChar ++ rest) = (ds, rest) := by
  have hdigits : ∀ c ∈ ds.map Nat.digitChar, c.isDigit = true := by
    intro c hc
    obtain ⟨d, hd, rfl⟩ := List.mem_map.mp hc
    exact isDigit_digitChar (hds d hd)
  have hnone : rest.takeWhile Char.isDigit = [] ∧ rest.dropWhile Char.isDigit = rest := by
    cases rest with
    | nil => exact ⟨rfl, rfl⟩
    | cons c rest => simp [hrest c rfl]
  rw [splitDigits, List.takeWhile_append_of_pos hdigits, List.dropWhile_append_of_pos hdigits, hnone.1, hnone.2,
    List.append_nil, List.map_map]
  exact congrArg (·, rest) ((List.map_congr_left fun d hd => toNat_digitChar (hds d hd)).trans (List.map_id _))

theorem digit?_digitChar (h : d < 10) : digit? (Nat.digitChar d) = some d := by
  rw [digit?, if_pos (isDigit_digitChar h), toNat_digitChar h]

theorem whole_ofNat_of_lt (h : k < 10) : (ofNat k).whole = [k] := by
  simp [ofNat, Nat.toDigits_of_lt_base h, digit?_digitChar h]

theorem whole_ofNat_of_le (h : 10 ≤ k) : (ofNat k).whole = (ofNat (k / 10)).whole ++ [k % 10] := by
  have hlast : digit? (Nat.digitChar (k % 10)) = some (k % 10) := digit?_digitChar (Nat.mod_lt _ (by omega))
  simp [ofNat, Nat.toDigits_of_base_le (by omega : 1 < 10) h, hlast]

/-- Induction on a number by dropping its last digit. -/
theorem digits_induction {motive : Nat → List Nat → Prop} (one : ∀ k < 10, motive k [k])
    (more : ∀ k, 10 ≤ k → motive (k / 10) (ofNat (k / 10)).whole →
      motive k ((ofNat (k / 10)).whole ++ [k % 10])) (k : Nat) : motive k (ofNat k).whole := by
  induction k using Nat.strongRecOn with
  | ind k ih =>
    by_cases hk : k < 10
    · rw [whole_ofNat_of_lt hk]
      exact one k hk
    · have hk : 10 ≤ k := Nat.le_of_not_lt hk
      rw [whole_ofNat_of_le hk]
      exact more k hk (ih _ (by omega))

theorem valueOf_ofNat (k : Nat) : valueOf (ofNat k).whole = k := by
  induction k using digits_induction with
  | one k hk => simp [valueOf]
  | more k hk ih =>
    rw [valueOf] at ih
    rw [valueOf, List.foldl_append, ih]
    simp only [List.foldl_cons, List.foldl_nil]
    omega

theorem digits_ofNat (k : Nat) : ∀ d ∈ (ofNat k).whole, d < 10 := by
  induction k using digits_induction with
  | one k hk => simpa using hk
  | more k hk ih =>
    intro d hd
    rcases List.mem_append.mp hd with hd | hd
    · exact ih d hd
    · obtain rfl := List.mem_singleton.mp hd
      exact Nat.mod_lt _ (by omega)

theorem unpadded_ofNat (hk : 0 < k) : ∃ d ds, (ofNat k).whole = d :: ds ∧ d ≠ 0 := by
  induction k using digits_induction with
  | one k _ => exact ⟨k, [], rfl, Nat.ne_of_gt hk⟩
  | more k hten ih =>
    obtain ⟨d, ds, hds, hd⟩ := ih (by omega)
    exact ⟨d, ds ++ [k % 10], by rw [hds]; rfl, hd⟩

theorem map_digitChar_ofNat (k : Nat) : (ofNat k).whole.map Nat.digitChar = Nat.toDigits 10 k := by
  induction k using digits_induction with
  | one k hk => rw [Nat.toDigits_of_lt_base hk]; rfl
  | more k hk ih => rw [Nat.toDigits_of_base_le (by omega) hk, List.map_append, ih]; rfl

theorem canonical_ofNat (k : Nat) : (ofNat k).Canonical where
  digits := digits_ofNat k
  unpadded := by
    cases k with
    | zero => exact Or.inl rfl
    | succ k => exact Or.inr (unpadded_ofNat k.succ_pos)
  fraction := nofun

@[simp] theorem nat?_ofNat (k : Nat) : (ofNat k).nat? = some k := congrArg some (valueOf_ofNat k)

end Digits

section Reading
variable {n : Numeral} {rest : List Char}

theorem Canonical.exists_cons (hn : n.Canonical) : ∃ d ds, n.whole = d :: ds ∧ d < 10 := by
  rcases hn.unpadded with h | ⟨d, ds, h, -⟩
  · exact ⟨0, [], h, by omega⟩
  · exact ⟨d, ds, h, hn.digits d (h ▸ List.mem_cons_self)⟩

theorem toList_exponentText (e : Int) : (exponentText e).toList =
    'e' :: (if e < 0 then '-' else '+') :: (ofNat e.natAbs).whole.map Nat.digitChar := by
  rw [map_digitChar_ofNat, exponentText, String.toList_append, Nat.toString_eq_ofList_toDigits, String.toList_ofList]
  split <;> rfl

theorem suffixOf?_exponentText (n : Numeral) (e : Int) :
    suffixOf? n (exponentText e).toList = some { n with exponent? := some e } := by
  have hsplit : splitDigits ((ofNat e.natAbs).whole.map Nat.digitChar) = ((ofNat e.natAbs).whole, []) := by
    rw [← List.append_nil (List.map _ _)]
    exact splitDigits_append (digits_ofNat _) nofun
  have hvalue := valueOf_ofNat e.natAbs
  rw [toList_exponentText]
  generalize (ofNat e.natAbs).whole.map Nat.digitChar = digits at hsplit
  obtain ⟨d, ds, hwhole, -⟩ := (canonical_ofNat e.natAbs).exists_cons
  rw [hwhole] at hsplit hvalue
  by_cases he : e < 0
  · simp only [suffixOf?, exponentOf?, he, if_true, hsplit, hvalue, Option.map_some]
    congr 3
    omega
  · simp only [suffixOf?, exponentOf?, he, if_false, Bool.false_eq_true, hsplit, hvalue, Option.map_some]
    congr 3
    omega

def suffix (n : Numeral) : List Char :=
  match n.exponent? with
  | none => []
  | some e => (exponentText e).toList

theorem suffix_cases (n : Numeral) : n.suffix = [] ∨ ∃ rest, n.suffix = 'e' :: rest := by
  unfold suffix
  split
  · exact Or.inl rfl
  · exact Or.inr ⟨_, toList_exponentText _⟩

theorem suffixOf?_suffix {m : Numeral} (hm : m.exponent? = none) :
    suffixOf? m n.suffix = some { m with exponent? := n.exponent? } := by
  unfold suffix
  split
  case h_1 h => rw [suffixOf?, h, ← hm]
  case h_2 e h => rw [suffixOf?_exponentText, h]

def body (n : Numeral) : List Char :=
  n.whole.map Nat.digitChar ++
    match n.fraction? with
    | none => n.suffix
    | some fraction => '.' :: (fraction.map Nat.digitChar ++ n.suffix)

theorem toList_text (n : Numeral) : n.text.toList = if n.negative then '-' :: n.body else n.body := by
  unfold text body suffix digitsText
  cases n.fraction? <;> cases n.exponent? <;> cases n.negative <;> simp

theorem splitDigits_suffix {ds : List Nat} (h : ∀ d ∈ ds, d < 10) :
    splitDigits (ds.map Nat.digitChar ++ n.suffix) = (ds, n.suffix) := by
  refine splitDigits_append h fun c hc => ?_
  rcases n.suffix_cases with hnil | ⟨rest, hrest⟩
  · simp [hnil] at hc
  · rw [hrest] at hc
    cases hc
    rfl

section Split
variable {negative : Bool} {whole fraction : List Nat} {s s' rest : List Char}

theorem unsignedOf?_of_whole (hsplit : splitDigits s = (whole, rest))
    (hwhole : whole = [0] ∨ ∃ d ds, whole = d :: ds ∧ d ≠ 0) (hrest : ∀ s', rest ≠ '.' :: s') :
    unsignedOf? negative s = suffixOf? { negative, whole } rest := by
  unfold unsignedOf?
  rw [hsplit]
  split <;> simp_all

theorem unsignedOf?_of_fraction (hsplit : splitDigits s = (whole, '.' :: s'))
    (hwhole : whole = [0] ∨ ∃ d ds, whole = d :: ds ∧ d ≠ 0) (hsplit' : splitDigits s' = (fraction, rest))
    (hfraction : fraction ≠ []) :
    unsignedOf? negative s = suffixOf? { negative, whole, fraction? := some fraction } rest := by
  obtain ⟨f, fs, rfl⟩ := List.exists_cons_of_ne_nil hfraction
  rcases hwhole with rfl | ⟨d, ds, rfl, hd⟩
  · simp only [unsignedOf?, hsplit, hsplit']
  · obtain ⟨d, rfl⟩ := Nat.exists_eq_succ_of_ne_zero hd
    simp only [unsignedOf?, hsplit, hsplit']

end Split

theorem unsignedOf?_body (hn : n.Canonical) : unsignedOf? n.negative n.body = some n := by
  unfold body
  cases hfraction : n.fraction? with
  | none =>
    have hsuffix : ∀ s, n.suffix ≠ '.' :: s := by
      intro s hs
      rcases n.suffix_cases with h | ⟨rest, h⟩ <;> simp [h] at hs
    rw [unsignedOf?_of_whole (splitDigits_suffix hn.digits) hn.unpadded hsuffix, suffixOf?_suffix rfl, ← hfraction]
  | some fraction =>
    obtain ⟨hne, hdigits⟩ := hn.fraction fraction hfraction
    have hpoint : ∀ c, ('.' :: (fraction.map Nat.digitChar ++ n.suffix)).head? = some c → c.isDigit = false := by
      rintro c ⟨⟩
      rfl
    have hsplit := splitDigits_append hn.digits hpoint
    rw [unsignedOf?_of_fraction hsplit hn.unpadded (splitDigits_suffix hdigits) hne, suffixOf?_suffix rfl, ← hfraction]

theorem mem_body {c : Char} (hn : n.Canonical) (hc : c ∈ n.body) : c.isDigit = true ∨ c ∈ ['-', '+', '.', 'e'] := by
  have hmap : ∀ {ds : List Nat}, (∀ d ∈ ds, d < 10) → c ∈ ds.map Nat.digitChar → c.isDigit = true := by
    intro ds hds hc
    obtain ⟨d, hd, rfl⟩ := List.mem_map.mp hc
    exact isDigit_digitChar (hds d hd)
  have hsuffix : c ∈ n.suffix → c.isDigit = true ∨ c ∈ ['-', '+', '.', 'e'] := by
    unfold suffix
    intro hc
    split at hc
    · cases hc
    · rw [toList_exponentText, List.mem_cons, List.mem_cons] at hc
      rcases hc with rfl | rfl | hc
      · simp
      · split <;> simp
      · exact Or.inl (hmap (digits_ofNat _) hc)
  unfold body at hc
  rcases List.mem_append.mp hc with hc | hc
  · exact Or.inl (hmap hn.digits hc)
  split at hc
  case h_1 => exact hsuffix hc
  case h_2 fraction hfraction =>
    rw [List.mem_cons, List.mem_append] at hc
    rcases hc with rfl | hc | hc
    · simp
    · exact Or.inl (hmap (hn.fraction fraction hfraction).2 hc)
    · exact hsuffix hc

/-- A canonical numeral reads back as itself. -/
theorem ofChars?_text (hn : n.Canonical) : ofChars? n.text.toList = some n := by
  have hbody := unsignedOf?_body hn
  rw [toList_text]
  cases hsign : n.negative with
  | true =>
    rw [hsign] at hbody
    exact hbody
  | false =>
    rw [hsign] at hbody
    obtain ⟨d, ds, hwhole, hd⟩ := hn.exists_cons
    have hminus : ∀ s, n.body ≠ '-' :: s := by
      intro s hs
      have hchar : Nat.digitChar d = '-' := by
        simp only [body, hwhole, List.map_cons, List.cons_append, List.cons.injEq] at hs
        exact hs.1
      have hdigit := isDigit_digitChar hd
      rw [hchar] at hdigit
      cases hdigit
    rw [if_neg (by simp), ofChars?]
    · exact hbody
    · exact hminus

end Reading

end Numeral

end ScenePrune
