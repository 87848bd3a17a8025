import ScenePrune.Options
import ScenePrune.Proofs.Words

/-! # What the words of an option text ask for

Each option has a long form, and three of them have a letter. Reading a text collects what its words ask for, and
nothing that a word says takes back what another one has asked for. So the order of the words and how often they
stand in the text make no difference, nor do words and letters that ask for nothing.
-/
namespace ScenePrune

inductive Flag where
  | dryRun | report | printAfterAll | printBeforeSweep | exportDot
deriving DecidableEq

namespace Flag

def longForm : Flag → String
  | dryRun => "--dry-run"
  | report => "--report"
  | printAfterAll => "--print-after-all"
  | printBeforeSweep => "--print-before-sweep"
  | exportDot => "--export-dot"

/-- The characters whose lower case is the letter of an option. None of them lies beyond ASCII. -/
def letters : Flag → List Char
  | dryRun => ['n', 'N']
  | report => ['r', 'R']
  | exportDot => ['d', 'D']
  | printAfterAll | printBeforeSweep => []

/-- A word asks for an option if it is the long form, or if it begins with exactly one dash and a letter of the
option is among the characters after the dash. -/
def AskedBy (flag : Flag) (word : List Char) : Prop :=
  word = flag.longForm.toList ∨
    ∃ tail, word = '-' :: tail ∧ tail.head? ≠ some '-' ∧ ∃ c ∈ tail, c ∈ flag.letters

def isLetter (c : Char) : Bool := [dryRun, report, exportDot].any (c ∈ ·.letters)

variable {flag : Flag} {word name tail : List Char} {c : Char}

theorem exists_longForm (flag : Flag) : ∃ name, flag.longForm.toList = '-' :: '-' :: name := by
  cases flag <;> exact ⟨_, rfl⟩

/-- Two dashes begin a long form, and what follows them is never read as letters. -/
theorem askedBy_of_name : flag.AskedBy ('-' :: '-' :: name) ↔ '-' :: '-' :: name = flag.longForm.toList := by
  constructor
  · rintro (h | ⟨tail, h, hdash, -⟩)
    · exact h
    · obtain rfl := (List.cons.inj h).2
      exact absurd rfl hdash
  · exact Or.inl

theorem askedBy_of_letters (hdash : tail.head? ≠ some '-') :
    flag.AskedBy ('-' :: tail) ↔ ∃ c ∈ tail, c ∈ flag.letters := by
  constructor
  · rintro (h | ⟨tail', h, -, hletter⟩)
    · obtain ⟨name, hname⟩ := flag.exists_longForm
      obtain rfl := (List.cons.inj (h.trans hname)).2
      exact absurd rfl hdash
    · exact (List.cons.inj h).2 ▸ hletter
  · exact fun hletter => Or.inr ⟨tail, rfl, hdash, hletter⟩

theorem AskedBy.head? (h : flag.AskedBy word) : word.head? = some '-' := by
  rcases h with rfl | ⟨tail, rfl, -, -⟩
  · obtain ⟨name, hname⟩ := flag.exists_longForm
    rw [hname]
    rfl
  · rfl

theorem isLetter_iff : isLetter c = true ↔ ∃ flag : Flag, c ∈ flag.letters := by
  rw [isLetter, List.any_eq_true]
  simp only [decide_eq_true_iff]
  constructor
  · rintro ⟨flag, -, hletter⟩
    exact ⟨flag, hletter⟩
  · rintro ⟨flag, hletter⟩
    refine ⟨flag, ?_, hletter⟩
    cases flag
    case printAfterAll | printBeforeSweep => cases hletter
    all_goals decide

def only (flag : Flag) : Options where
  dryRun := flag = dryRun
  report := flag = report
  printAfterAll := flag = printAfterAll
  printBeforeSweep := flag = printBeforeSweep
  exportDot := flag = exportDot

end Flag

namespace Options

def has (o : Options) : Flag → Bool
  | .dryRun => o.dryRun
  | .report => o.report
  | .printAfterAll => o.printAfterAll
  | .printBeforeSweep => o.printBeforeSweep
  | .exportDot => o.exportDot

variable {o o' : Options} {flag : Flag} {word text : String} {c : Char} {tail : List Char}

theorem eq_of_has (h : ∀ flag, o.has flag = o'.has flag) : o = o' := by
  cases o
  cases o'
  simpa [has] using ⟨h .dryRun, h .report, h .printAfterAll, h .printBeforeSweep, h .exportDot⟩

theorem has_merge (o o' : Options) (flag : Flag) : (o.merge o').has flag = (o.has flag || o'.has flag) := by
  cases flag <;> rfl

theorem has_empty (flag : Flag) : ({} : Options).has flag = false := by
  cases flag <;> rfl

theorem has_only_iff {flag' : Flag} : flag.only.has flag' = true ↔ flag = flag' := by
  cases flag' <;> exact decide_eq_true_iff

theorem ofName?_eq_some_iff : ofName? word = some o ↔ ∃ flag : Flag, word = flag.longForm ∧ o = flag.only := by
  constructor
  · intro h
    unfold ofName? at h
    split at h
    · exact ⟨.dryRun, rfl, (Option.some.inj h).symm⟩
    · exact ⟨.report, rfl, (Option.some.inj h).symm⟩
    · exact ⟨.printAfterAll, rfl, (Option.some.inj h).symm⟩
    · exact ⟨.printBeforeSweep, rfl, (Option.some.inj h).symm⟩
    · exact ⟨.exportDot, rfl, (Option.some.inj h).symm⟩
    · cases h
  · rintro ⟨flag, rfl, rfl⟩
    cases flag <;> rfl

/-- Only a letter and its capital have the letter for their lower case. -/
theorem mem_of_toLower {lower upper : Char} (hcase : upper.toNat + 32 = lower.toNat) (h : c.toLower = lower) :
    c ∈ [lower, upper] := by
  by_cases hupper : c.val ≥ 'A'.val ∧ c.val ≤ 'Z'.val
  · have hle : c.val.toNat ≤ 90 := hupper.2
    have hsum : c.val.toNat + 32 < 2 ^ 32 := Nat.lt_of_le_of_lt (Nat.add_le_add_right hle 32) (by decide)
    have hlower : c.toLower.val = c.val + 32 := congrArg Char.val (dif_pos hupper)
    have hval : c.val.toNat + 32 = lower.val.toNat := by
      rw [← h, hlower, UInt32.toNat_add]
      exact (Nat.mod_eq_of_lt hsum).symm
    have hc : c = upper := Char.toNat_inj.mp (Nat.add_right_cancel (hval.trans hcase.symm))
    simp [hc]
  · have hsame : c.toLower = c := dif_neg hupper
    simp [← h, hsame]

theorem ofLetter?_eq_some_iff : ofLetter? c = some o ↔ ∃ flag : Flag, c ∈ flag.letters ∧ o = flag.only := by
  constructor
  · intro h
    unfold ofLetter? at h
    split at h
    case h_1 hc => exact ⟨.dryRun, mem_of_toLower rfl hc, (Option.some.inj h).symm⟩
    case h_2 hc => exact ⟨.report, mem_of_toLower rfl hc, (Option.some.inj h).symm⟩
    case h_3 hc => exact ⟨.exportDot, mem_of_toLower rfl hc, (Option.some.inj h).symm⟩
    case h_4 => cases h
  · rintro ⟨flag, hletter, rfl⟩
    have hboth : flag.letters.all (ofLetter? · = some flag.only) = true := by cases flag <;> rfl
    exact of_decide_eq_true (List.all_eq_true.mp hboth c hletter)

/-- A word sets what it asks for. -/
theorem ok_mem_ofWord_iff : .ok o ∈ ofWord word ↔ ∃ flag : Flag, flag.AskedBy word.toList ∧ o = flag.only := by
  unfold ofWord
  extract_lets known
  have hknown : ∀ text o?, .ok o = known text o? ↔ o? = some o := by
    intro text o?
    cases o? <;> simp [known, eq_comm]
  split
  case h_1 name hword =>
    rw [List.mem_singleton, hknown, ofName?_eq_some_iff]
    refine exists_congr fun flag => and_congr_left fun _ => ?_
    rw [hword, Flag.askedBy_of_name, ← hword, String.toList_inj]
  case h_2 tail htail hword =>
    have hdash : tail.head? ≠ some '-' := by
      intro h
      obtain ⟨name, rfl⟩ := List.head?_eq_some_iff.mp h
      exact htail name rfl
    rw [hword, List.mem_map]
    simp only [Flag.askedBy_of_letters hdash, eq_comm (b := Except.ok o), hknown, ofLetter?_eq_some_iff]
    constructor
    · rintro ⟨c, hc, flag, hletter, rfl⟩
      exact ⟨flag, ⟨c, hc, hletter⟩, rfl⟩
    · rintro ⟨flag, ⟨c, hc, hletter⟩, rfl⟩
      exact ⟨c, hc, flag, hletter, rfl⟩
  case h_3 _ hother =>
    constructor
    · simp
    · rintro ⟨flag, hasked, -⟩
      obtain ⟨tail, hword⟩ := List.head?_eq_some_iff.mp hasked.head?
      exact absurd hword (hother tail)

/-- What has been read before is kept. -/
theorem has_foldl_iff {read : Options → Except String Options → Options} (hok : ∀ o p, read o (.ok p) = o.merge p)
    (herror : ∀ o text, read o (.error text) = o) (parts : List (Except String Options)) :
    (parts.foldl read o).has flag = true ↔ o.has flag = true ∨ ∃ p, .ok p ∈ parts ∧ p.has flag = true := by
  induction parts generalizing o with
  | nil => simp
  | cons part parts ih =>
    rw [List.foldl_cons, ih]
    cases part with
    | error text => simp [herror]
    | ok p => simp [hok, has_merge, or_assoc]

theorem has_parse_iff :
    (parse text).has flag = true ↔ ∃ word, Text.IsWord word text.toList ∧ flag.AskedBy word := by
  rw [parse, has_foldl_iff (fun _ _ => rfl) (fun _ _ => rfl), has_empty]
  constructor
  · rintro (h | ⟨p, hp, hflag⟩)
    · cases h
    · obtain ⟨word, hword, hp⟩ := List.mem_flatMap.mp hp
      obtain ⟨flag', hasked, rfl⟩ := ok_mem_ofWord_iff.mp hp
      exact ⟨word.toList, Text.mem_words_iff.mp hword, has_only_iff.mp hflag ▸ hasked⟩
  · rintro ⟨word, hword, hasked⟩
    rw [← String.toList_ofList (l := word)] at hword hasked
    have hp := ok_mem_ofWord_iff.mpr ⟨flag, hasked, rfl⟩
    exact Or.inr ⟨flag.only, List.mem_flatMap.mpr ⟨_, Text.mem_words_iff.mpr hword, hp⟩, has_only_iff.mpr rfl⟩

theorem has_parse_push_append {a b : String} {blank : Char} (hblank : Text.isBlank blank = true) (flag : Flag) :
    (parse (a.push blank ++ b)).has flag = ((parse a).has flag || (parse b).has flag) := by
  rw [Bool.eq_iff_iff, Bool.or_eq_true, has_parse_iff, has_parse_iff, has_parse_iff, ← exists_or]
  simp only [Text.isWord_push_append hblank, or_and_right]

theorem has_parse_run_iff {run : List Char} (hne : run ≠ []) (hrun : ∀ c ∈ run, Text.isBlank c = false) :
    (parse (String.ofList run)).has flag = true ↔ flag.AskedBy run := by
  rw [has_parse_iff, String.toList_ofList]
  simp only [Text.isWord_of_run hne hrun, exists_eq_left]

/-- Neither the order of the words matters nor how often each of them stands in the text. -/
theorem parse_eq_of_words {a b : String} (h : ∀ word, Text.IsWord word a.toList ↔ Text.IsWord word b.toList) :
    parse a = parse b := by
  apply eq_of_has
  intro flag
  rw [Bool.eq_iff_iff, has_parse_iff, has_parse_iff]
  simp only [h]

/-- Words that ask for nothing make no difference. -/
theorem parse_push_idle {a idle b : String} {blank blank' : Char} (hblank : Text.isBlank blank = true)
    (hblank' : Text.isBlank blank' = true)
    (hidle : ∀ word, Text.IsWord word idle.toList → ∀ flag : Flag, ¬ flag.AskedBy word) :
    parse ((a.push blank ++ idle).push blank' ++ b) = parse (a.push blank ++ b) := by
  apply eq_of_has
  intro flag
  have hnone : (parse idle).has flag = false := by
    rw [Bool.eq_false_iff, Ne, has_parse_iff]
    rintro ⟨word, hword, hasked⟩
    exact hidle word hword flag hasked
  rw [has_parse_push_append hblank', has_parse_push_append hblank, has_parse_push_append hblank, hnone, Bool.or_false]

/-- Behind a dash, letters that no option has make no difference. -/
theorem parse_filter_isLetter (htail : ∀ c ∈ tail, Text.isBlank c = false) (hdash : tail.head? ≠ some '-') :
    parse (String.ofList ('-' :: tail)) = parse (String.ofList ('-' :: tail.filter Flag.isLetter)) := by
  have hdash' : (tail.filter Flag.isLetter).head? ≠ some '-' := by
    intro h
    have hmem := List.mem_of_mem_head? h
    exact absurd (List.mem_filter.mp hmem).2 (by decide)
  have hrun : ∀ c ∈ '-' :: tail, Text.isBlank c = false := by
    simpa using ⟨by decide, htail⟩
  have hrun' : ∀ c ∈ '-' :: tail.filter Flag.isLetter, Text.isBlank c = false :=
    fun c hc => hrun c (List.cons_subset_cons _ List.filter_sublist.subset hc)
  apply eq_of_has
  intro flag
  rw [Bool.eq_iff_iff, has_parse_run_iff (List.cons_ne_nil _ _) hrun, has_parse_run_iff (List.cons_ne_nil _ _) hrun',
    Flag.askedBy_of_letters hdash, Flag.askedBy_of_letters hdash']
  constructor
  · rintro ⟨c, hc, hletter⟩
    exact ⟨c, List.mem_filter.mpr ⟨hc, Flag.isLetter_iff.mpr ⟨flag, hletter⟩⟩, hletter⟩
  · rintro ⟨c, hc, hletter⟩
    exact ⟨c, (List.mem_filter.mp hc).1, hletter⟩

/-- Reading options is a homomorphism: a text that is put together from two others, with a blank between them, sets
what the one or the other sets. Of the words it only matters which there are. An option is set just if some word asks
for it; words that ask for nothing and, behind a dash, letters that no option has neither set nor hide anything. -/
theorem parse_exact :
    (∀ (a b : String) (blank : Char), Text.isBlank blank = true → ∀ flag,
      (parse (a.push blank ++ b)).has flag = ((parse a).has flag || (parse b).has flag)) ∧
    (∀ a b : String, (∀ word, Text.IsWord word a.toList ↔ Text.IsWord word b.toList) → parse a = parse b) ∧
    (∀ (text : String) (flag : Flag), (parse text).has flag = true ↔
      ∃ word, Text.IsWord word text.toList ∧ flag.AskedBy word) ∧
    (∀ (a idle b : String) (blank blank' : Char), Text.isBlank blank = true → Text.isBlank blank' = true →
      (∀ word, Text.IsWord word idle.toList → ∀ flag : Flag, ¬ flag.AskedBy word) →
      parse ((a.push blank ++ idle).push blank' ++ b) = parse (a.push blank ++ b)) ∧
    ∀ tail : List Char, (∀ c ∈ tail, Text.isBlank c = false) → tail.head? ≠ some '-' →
      parse (String.ofList ('-' :: tail)) = parse (String.ofList ('-' :: tail.filter Flag.isLetter)) :=
  ⟨fun _ _ _ => has_parse_push_append, fun _ _ => parse_eq_of_words, fun _ _ => has_parse_iff,
    fun _ _ _ _ _ => parse_push_idle, fun _ => parse_filter_isLetter⟩

/-- An ideographic space divides words as well as any blank, and words may change places and be repeated. Neither a
word of two dashes that is no long form nor a letter or dash that no option has hides the letters beside it. -/
theorem parse_exact_crowded :
    (parse ("-xN".push '\u3000' ++ "--report")).has .dryRun = true ∧
    parse "-n --report" = parse "--report -n -n" ∧
    parse (("-r".push ' ' ++ "--nr n").push '\t' ++ "-d") = parse ("-r".push ' ' ++ "-d") ∧
    parse "-xN-r" = parse "-Nr" := by
  obtain ⟨happend, hsame, hasked, hidle, hletters⟩ := parse_exact
  have hdryRun : (parse "-xN").has .dryRun = true := by decide
  have hwords : ∀ word ∈ Text.wordsFrom [] "-n --report".toList, word ∈ Text.wordsFrom [] "--report -n -n".toList := by
    decide
  have hwords' : ∀ word ∈ Text.wordsFrom [] "--report -n -n".toList, word ∈ Text.wordsFrom [] "-n --report".toList := by
    decide
  have htail : (['x', 'N', '-', 'r'].all fun c => !Text.isBlank c) = true := by decide
  have hnone : ∀ flag, (parse "--nr n").has flag = false := by
    intro flag
    cases flag <;> decide
  refine ⟨?_, hsame _ _ fun word => ?_, hidle _ _ _ _ _ (by decide) (by decide) fun word hword flag h => ?_, ?_⟩
  · rw [happend _ _ _ (by decide), hdryRun, Bool.true_or]
  · rw [← Text.mem_wordsFrom_iff, ← Text.mem_wordsFrom_iff]
    exact ⟨hwords word, hwords' word⟩
  · exact absurd ((hasked _ flag).mpr ⟨word, hword, h⟩) (by simp [hnone])
  · exact hletters ['x', 'N', '-', 'r'] (by simpa using htail) (by decide)

end Options

end ScenePrune
