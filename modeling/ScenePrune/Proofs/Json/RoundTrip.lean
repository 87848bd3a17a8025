import ScenePrune.Proofs.Json.Scanner

/-! # What is printed is read back

Both layouts of a value spell the same tokens, and the stack of open brackets makes the value out of
them. Only a string that stands for no text, and a numeral that is not written as numbers are, could not
be read back.
-/
namespace ScenePrune.Json

/-- Every string stands for a text, and every numeral is canonical. -/
inductive Legible : Json → Prop where
  | null : Legible null
  | bool (value : Bool) : Legible (bool value)
  | number {n : Numeral} : n.Canonical → Legible (number n)
  | string (text : String) : Legible (string text)
  | array {items : List Json} : (∀ item ∈ items, Legible item) → Legible (array items)
  | object {members : List (String × Json)} : (∀ m ∈ members, Legible m.2) → Legible (object members)

mutual

def tokens : Json → List Token
  | array items => .openArray :: ([Token.comma].intercalate (itemTokens items) ++ [.closeArray])
  | object members => .openObject :: ([Token.comma].intercalate (memberTokens members) ++ [.closeObject])
  | scalar => [.scalar scalar]

def itemTokens : List Json → List (List Token)
  | [] => []
  | item :: rest => tokens item :: itemTokens rest

def memberTokens : List (String × Json) → List (List Token)
  | [] => []
  | (name, value) :: rest => (.scalar (string name) :: .colon :: tokens value) :: memberTokens rest

end

section Lists
variable {items : List Json} {members : List (String × Json)}

theorem itemTokens_eq_map : itemTokens items = items.map tokens := by
  induction items with
  | nil => rfl
  | cons item rest ih => rw [itemTokens, ih, List.map_cons]

theorem memberTokens_eq_map :
    memberTokens members = members.map fun m => .scalar (string m.1) :: .colon :: tokens m.2 := by
  induction members with
  | nil => rfl
  | cons m rest ih => rw [memberTokens, ih, List.map_cons]

theorem compactItems_eq_map : compactItems items = items.map compact := by
  induction items with
  | nil => rfl
  | cons item rest ih => rw [compactItems, ih, List.map_cons]

theorem compactMembers_eq_map : compactMembers members = members.map fun m => quoted m.1 ++ ":" ++ compact m.2 := by
  induction members with
  | nil => rfl
  | cons m rest ih => rw [compactMembers, ih, List.map_cons]

theorem prettyItems_eq_map (depth : Nat) : prettyItems depth items = items.map (prettyAt depth) := by
  induction items with
  | nil => rfl
  | cons item rest ih => rw [prettyItems, ih, List.map_cons]

theorem prettyMembers_eq_map (depth : Nat) :
    prettyMembers depth members = members.map fun m => quoted m.1 ++ ": " ++ prettyAt depth m.2 := by
  induction members with
  | nil => rfl
  | cons m rest ih => rw [prettyMembers, ih, List.map_cons]

end Lists

section Layout
variable {texts : List String} {spelled : List (List Token)} {opening closing : Token} {first last : Char} {o c : String}

theorem spells_intercalate (h : List.Forall₂ (fun text tokens => Spells text.toList tokens) texts spelled) :
    Spells (",".intercalate texts).toList ([Token.comma].intercalate spelled) := by
  rw [String.toList_intercalate]
  induction h with
  | nil => exact Closes.nil.spells
  | cons hfirst hrest ih =>
    cases hrest with
    | nil => simpa using hfirst
    | cons _ _ =>
      rw [List.map_cons, List.map_cons, List.intercalate_cons_cons, List.intercalate_cons_cons]
      exact (hfirst.punctuation rfl).append_spells ih

/-- Brackets around what stands between them, and perhaps blanks before the closing one. -/
theorem closes_between {inside blanks : List Char} {tokens : List Token} (ho : punctuation? first = some opening)
    (hc : punctuation? last = some closing) (h : Spells inside tokens) (hblanks : ∀ c ∈ blanks, isSpace c = true) :
    Closes (first :: (inside ++ (blanks ++ [last]))) (opening :: (tokens ++ [closing])) := by
  have hopening : Closes [first] [opening] := Closes.nil.spells.punctuation ho
  have hrest := (h.spaces hblanks).punctuation hc
  rw [List.append_assoc] at hrest
  exact hopening.append hrest

theorem closes_brackets (ho : punctuation? first = some opening) (hc : punctuation? last = some closing)
    (hfirst : o.toList = [first]) (hlast : c.toList = [last])
    (h : List.Forall₂ (fun text tokens => Spells text.toList tokens) texts spelled) :
    Closes (brackets o c texts).toList (opening :: ([Token.comma].intercalate spelled ++ [closing])) := by
  have htext : (brackets o c texts).toList = first :: ((",".intercalate texts).toList ++ ([] ++ [last])) := by
    simp [brackets, hfirst, hlast]
  rw [htext]
  exact closes_between ho hc (spells_intercalate h) nofun

theorem closes_block (depth : Nat) (ho : punctuation? first = some opening) (hc : punctuation? last = some closing)
    (hfirst : o.toList = [first]) (hlast : c.toList = [last])
    (h : List.Forall₂ (fun text tokens => Spells text.toList tokens) texts spelled) :
    Closes (block o c depth texts).toList (opening :: ([Token.comma].intercalate spelled ++ [closing])) := by
  have hline : ∀ depth, ∀ c ∈ ("\n" ++ String.join (List.replicate depth "  ")).toList, isSpace c = true := by
    intro depth c hc
    simp only [String.toList_append, String.toList_join, List.mem_append, List.mem_flatMap, List.mem_replicate] at hc
    rcases hc with hc | ⟨_, ⟨-, rfl⟩, hc⟩
    · obtain rfl := List.mem_singleton.mp hc
      rfl
    · have hblank : c = ' ' := by simpa using hc
      rw [hblank]
      rfl
  unfold block
  dsimp only
  split
  case isTrue hempty =>
    obtain rfl := List.isEmpty_iff.mp hempty
    obtain rfl := List.forall₂_nil_left_iff.mp h
    have htext : (o ++ c).toList = first :: ([] ++ ([] ++ [last])) := by simp [hfirst, hlast]
    rw [htext]
    exact closes_between ho hc Closes.nil.spells nofun
  case isFalse =>
    have hitems : List.Forall₂ (fun text tokens => Spells text.toList tokens)
        (texts.map ("\n" ++ String.join (List.replicate (depth + 1) "  ") ++ ·)) spelled := by
      rw [List.forall₂_map_left_iff]
      refine h.imp fun text tokens htext => ?_
      rw [String.toList_append]
      exact (Closes.blanks (hline (depth + 1))).append_spells htext
    have hclosed := closes_between ho hc (spells_intercalate hitems) (hline depth)
    simpa [hfirst, hlast] using hclosed

end Layout

section Spelling

theorem spells_letters {word : List Char} {v : Json} (hword : ofWord? word = some v) (hne : word ≠ [])
    (hletters : word ⊆ ['n', 'u', 'l', 't', 'r', 'e', 'f', 'a', 's']) : Spells word [.scalar v] := by
  have hbare : ∀ c ∈ ['n', 'u', 'l', 't', 'r', 'e', 'f', 'a', 's'], IsBare c := by
    simp [IsBare, isSpace, punctuation?]
  exact spells_word hword hne fun c hc => hbare c (hletters hc)

/-- Both layouts spell the tokens of the value. -/
theorem Legible.spells {j : Json} (h : j.Legible) :
    Spells (compact j).toList (tokens j) ∧ ∀ depth, Spells (prettyAt depth j).toList (tokens j) := by
  have hscalar : ∀ {j : Json}, Spells (compact j).toList (tokens j) → (∀ depth, prettyAt depth j = compact j) →
      Spells (compact j).toList (tokens j) ∧ ∀ depth, Spells (prettyAt depth j).toList (tokens j) := by
    intro j hj hpretty
    exact ⟨hj, fun depth => (hpretty depth).symm ▸ hj⟩
  induction h with
  | null =>
    have hnull : Spells ['n', 'u', 'l', 'l'] [.scalar .null] := spells_letters rfl (by simp) (by simp)
    exact hscalar hnull fun _ => rfl
  | bool value =>
    refine hscalar ?_ fun _ => rfl
    cases value with
    | true =>
      have htrue : Spells ['t', 'r', 'u', 'e'] [.scalar (.bool true)] := spells_letters rfl (by simp) (by simp)
      exact htrue
    | false =>
      have hfalse : Spells ['f', 'a', 'l', 's', 'e'] [.scalar (.bool false)] := spells_letters rfl (by simp) (by simp)
      exact hfalse
  | number hn => exact hscalar (spells_numeral hn) fun _ => rfl
  | string text => exact hscalar (closes_quoted text).spells fun _ => rfl
  | @array items _ ih =>
    constructor
    · rw [compact, tokens, compactItems_eq_map, itemTokens_eq_map]
      refine (closes_brackets rfl rfl rfl rfl ?_).spells
      rw [List.forall₂_map_left_iff, List.forall₂_map_right_iff, List.forall₂_same]
      exact fun item hitem => (ih item hitem).1
    · intro depth
      rw [prettyAt, tokens, prettyItems_eq_map, itemTokens_eq_map]
      refine (closes_block depth rfl rfl rfl rfl ?_).spells
      rw [List.forall₂_map_left_iff, List.forall₂_map_right_iff, List.forall₂_same]
      exact fun item hitem => (ih item hitem).2 _
  | @object members _ ih =>
    have hname : ∀ m : String × Json, Closes (quoted m.1 ++ ":").toList [.scalar (.string m.1), .colon] := by
      intro m
      rw [String.toList_append]
      exact (closes_quoted m.1).spells.punctuation rfl
    constructor
    · rw [compact, tokens, compactMembers_eq_map, memberTokens_eq_map]
      refine (closes_brackets rfl rfl rfl rfl ?_).spells
      rw [List.forall₂_map_left_iff, List.forall₂_map_right_iff, List.forall₂_same]
      intro m hm
      rw [String.toList_append]
      exact (hname m).append_spells (ih m hm).1
    · intro depth
      rw [prettyAt, tokens, prettyMembers_eq_map, memberTokens_eq_map]
      refine (closes_block depth rfl rfl rfl rfl ?_).spells
      rw [List.forall₂_map_left_iff, List.forall₂_map_right_iff, List.forall₂_same]
      intro m hm
      have hblank : (quoted m.1 ++ ": ").toList = (quoted m.1 ++ ":").toList ++ [' '] := by simp
      rw [String.toList_append, hblank]
      exact ((hname m).spells.space rfl).append_spells ((ih m hm).2 _)

end Spelling

section Stack
variable {e : Expectation} {stack : List Frame} {done : List (String × Json)}

def Expectation.AwaitsValue (e : Expectation) (stack : List Frame) : Prop :=
  ∀ t, t ≠ .closeArray → e.step t = takeValue stack t

def Expectation.AwaitsName (e : Expectation) (done : List (String × Json)) (stack : List Frame) : Prop :=
  ∀ name, e.step (.scalar (string name)) = some (.colon (done.map fun m => (some m.1, m.2)) (some name) stack)

theorem Expectation.awaitsValue_value (stack : List Frame) : (value stack).AwaitsValue stack := fun _ _ => rfl

theorem Expectation.awaitsValue_itemOrEnd : (itemOrEnd stack).AwaitsValue (.array [] :: stack) := by
  intro t ht
  cases t with
  | closeArray => exact absurd rfl ht
  | _ => rfl

theorem mapM_map_eq_some {α β : Type} {read : β → Option α} {write : α → β} {l : List α}
    (h : ∀ a ∈ l, read (write a) = some a) : (l.map write).mapM read = some l := by
  induction l with
  | nil => rfl
  | cons a l ih =>
    rw [List.map_cons, List.mapM_cons, h a List.mem_cons_self, ih fun a ha => h a (List.mem_cons_of_mem _ ha)]
    rfl

theorem ofMembers_names (members : List (String × Json)) :
    ofMembers (members.map fun m => (some m.1, m.2)) = object members := by
  rw [ofMembers, mapM_map_eq_some]
  exact fun _ _ => rfl

def IsRead (j : Json) : Prop :=
  ∀ e stack, Expectation.AwaitsValue e stack → (tokens j).foldlM Expectation.step e = some (.complete j stack)

/-- The items of an array are put onto those already read, newest first, until the array is closed. -/
theorem foldlM_items {items done : List Json} (hitems : ∀ item ∈ items, IsRead item) (hne : items ≠ [])
    (he : e.AwaitsValue (.array done :: stack)) :
    ([Token.comma].intercalate (items.map tokens) ++ [Token.closeArray]).foldlM Expectation.step e =
      some (.complete (array (done.reverse ++ items)) stack) := by
  induction items generalizing e done with
  | nil => exact absurd rfl hne
  | cons item rest ih =>
    have hitem := hitems item List.mem_cons_self e _ he
    cases rest with
    | nil =>
      rw [List.map_cons, List.map_nil, List.intercalate_singleton, List.foldlM_append, hitem]
      simp [Expectation.step]
    | cons next rest =>
      have hrest := ih (fun item hitem => hitems item (List.mem_cons_of_mem _ hitem)) (by simp)
        (Expectation.awaitsValue_value (.array (item :: done) :: stack))
      rw [List.map_cons, List.map_cons, List.intercalate_cons_cons, List.append_assoc, List.append_assoc,
        List.foldlM_append, hitem]
      rw [List.reverse_cons, List.append_assoc] at hrest
      exact hrest

/-- The same for the members of an object. -/
theorem foldlM_members {members : List (String × Json)} (hmembers : ∀ m ∈ members, IsRead m.2) (hne : members ≠ [])
    (he : e.AwaitsName done stack) :
    ([Token.comma].intercalate (members.map fun m => .scalar (string m.1) :: .colon :: tokens m.2) ++
        [Token.closeObject]).foldlM Expectation.step e =
      some (.complete (object (done.reverse ++ members)) stack) := by
  induction members generalizing e done with
  | nil => exact absurd rfl hne
  | cons m rest ih =>
    have hvalue := hmembers m List.mem_cons_self _ _
      (Expectation.awaitsValue_value (.object (done.map fun m => (some m.1, m.2)) (some m.1) :: stack))
    have hmember : (.scalar (string m.1) :: .colon :: tokens m.2).foldlM Expectation.step e =
        some (.complete m.2 (.object (done.map fun m => (some m.1, m.2)) (some m.1) :: stack)) := by
      rw [List.foldlM_cons, he m.1]
      exact hvalue
    cases rest with
    | nil =>
      have hdone : ((some m.1, m.2) :: done.map fun m => (some m.1, m.2)).reverse =
          (done.reverse ++ [m]).map fun m => (some m.1, m.2) := by simp
      rw [List.map_cons, List.map_nil, List.intercalate_singleton, List.foldlM_append, hmember]
      simp only [Option.bind_eq_bind, Option.bind_some, List.foldlM_cons, List.foldlM_nil, Expectation.step, hdone,
        ofMembers_names, Option.pure_def]
    | cons next rest =>
      have hname : (Expectation.name ((m :: done).map fun m => (some m.1, m.2)) stack).AwaitsName (m :: done) stack :=
        fun _ => rfl
      have hrest := ih (fun m hm => hmembers m (List.mem_cons_of_mem _ hm)) (by simp) hname
      rw [List.map_cons, List.map_cons, List.intercalate_cons_cons, List.append_assoc, List.append_assoc,
        List.foldlM_append, hmember]
      rw [List.reverse_cons, List.append_assoc] at hrest
      exact hrest

/-- The stack makes a value out of its tokens. -/
theorem Legible.isRead {j : Json} (h : j.Legible) : IsRead j := by
  induction h with
  | null | bool | number | string =>
    intro e stack he
    have hscalar : ∀ j, ([Token.scalar j].foldlM Expectation.step e) = some (.complete j stack) := by
      intro j
      rw [List.foldlM_cons, he (.scalar j) nofun]
      rfl
    exact hscalar _
  | @array items _ ih =>
    intro e stack he
    rw [tokens, itemTokens_eq_map, List.foldlM_cons, he .openArray nofun]
    cases items with
    | nil => rfl
    | cons item rest => exact foldlM_items ih (by simp) Expectation.awaitsValue_itemOrEnd
  | @object members _ ih =>
    intro e stack he
    rw [tokens, memberTokens_eq_map, List.foldlM_cons, he .openObject nofun]
    have hname : (Expectation.nameOrEnd stack).AwaitsName [] stack := fun _ => rfl
    cases members with
    | nil => rfl
    | cons m rest => exact foldlM_members ih (by simp) hname

end Stack

section Reading
variable {j : Json}

theorem tokens?_eq_some {text : List Char} {tokens : List Token} (h : Spells text tokens) :
    tokens? text = some tokens := by
  obtain ⟨s, hs, hend⟩ := h []
  have hfold : text.foldlM Scanner.step {} = some s := hs
  rw [tokens?, hfold, Option.bind_some, hend, Option.map_some, List.append_nil, List.reverse_reverse]

theorem parse?_of_spells {text : String} (hj : j.Legible) (h : Spells text.toList (tokens j)) :
    parse? text = some j := by
  have hstack := hj.isRead _ _ (Expectation.awaitsValue_value [])
  rw [parse?, tokens?_eq_some h, Option.bind_some, ofTokens?, hstack]

/-- The compact text of a value reads back as the value. -/
theorem parse?_compact (hj : j.Legible) : parse? j.compact = some j := parse?_of_spells hj hj.spells.1

/-- So does its indented text. -/
theorem parse?_pretty (hj : j.Legible) : parse? j.pretty = some j := parse?_of_spells hj (hj.spells.2 0)

end Reading

end ScenePrune.Json
