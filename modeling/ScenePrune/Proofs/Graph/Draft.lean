import ScenePrune.Graph.Build
import ScenePrune.Proofs.OrderedMap

/-! # What a list of contributions leaves behind

A draft takes its contributions one after another. Read off the finished draft, each of them has
a meaning of its own: it touches at most one node, asks for at most one edge, and names at most one
writer. Only mutation edges are not repeated when they are asked for again.
-/
namespace ScenePrune

section FoldOnly
variable {α β γ : Type} {op : γ → β → γ}

theorem foldl_eq_self {l : List β} (h : ∀ x ∈ l, ∀ c, op c x = c) (c : γ) : l.foldl op c = c := by
  induction l with
  | nil => rfl
  | cons x l ih =>
    rw [List.foldl_cons, h x List.mem_cons_self]
    exact ih fun y hy => h y (List.mem_cons_of_mem _ hy)

/-- Where only one element has a part in a fold, the others may be left out. -/
theorem foldl_flatMap_of_only {f : α → List β} {l : List α} {a : α} (hl : l.Nodup) (ha : a ∈ l)
    (h : ∀ b ∈ l, b ≠ a → ∀ x ∈ f b, ∀ c, op c x = c) (c : γ) :
    (l.flatMap f).foldl op c = (f a).foldl op c := by
  obtain ⟨l₁, l₂, rfl⟩ := List.append_of_mem ha
  have hskip : ∀ l' : List α, (∀ b ∈ l', b ∈ l₁ ++ a :: l₂ ∧ b ≠ a) →
      ∀ c, (l'.flatMap f).foldl op c = c := by
    intro l' hl'
    apply foldl_eq_self
    intro x hx
    obtain ⟨b, hb, hxb⟩ := List.mem_flatMap.mp hx
    exact h b (hl' b hb).1 (hl' b hb).2 x hxb
  obtain ⟨-, hright, hdisjoint⟩ := List.nodup_append.mp hl
  have h₁ : ∀ b ∈ l₁, b ∈ l₁ ++ a :: l₂ ∧ b ≠ a := fun b hb =>
    ⟨List.mem_append_left _ hb, hdisjoint b hb a List.mem_cons_self⟩
  have h₂ : ∀ b ∈ l₂, b ∈ l₁ ++ a :: l₂ ∧ b ≠ a := fun b hb =>
    ⟨by simp [hb], fun he => (List.nodup_cons.mp hright).1 (he ▸ hb)⟩
  rw [List.flatMap_append, List.flatMap_cons, List.foldl_append, List.foldl_append, hskip l₁ h₁,
    hskip l₂ h₂]

end FoldOnly

namespace Edge

def isMutation (e : Edge) : Bool := e.kind = .mutation

end Edge

namespace Contribution

def edge? (roster : Roster) : Contribution → Option Edge
  | .attach child parent => some ⟨child, parent, .hierarchy, .evenIfDisabled⟩
  | .depend source target qualifiers => some ⟨source, target, .dependency, qualifiers⟩
  | .write target kind property writer =>
    if property = kind.enabledProperty then
      (roster.lookup writer).bind fun w =>
        if w = target then none else some ⟨target, w, .mutation, .evenIfDisabled⟩
    else none
  | _ => none

def diagnostic? : Contribution → Option Diagnostic
  | .diagnose d => some d
  | _ => none

def touch (i : Nat) (n : GraphNode) : Contribution → GraphNode
  | .attach child parent => if child = i then { n with parent? := some parent } else n
  | .mark node cause => if node = i then n.mark cause else n
  | _ => n

theorem id_touch (i : Nat) (n : GraphNode) (x : Contribution) : (x.touch i n).id = n.id := by
  cases x <;> simp only [touch, GraphNode.mark] <;> split <;> rfl

theorem id_foldl_touch (i : Nat) (n : GraphNode) (cs : List Contribution) :
    (cs.foldl (touch i) n).id = n.id := by
  induction cs generalizing n with
  | nil => rfl
  | cons x cs ih => rw [List.foldl_cons, ih, id_touch]

end Contribution

namespace Draft
variable {roster : Roster}

theorem cancelled_foldl (cs : List Contribution) (d : Draft) :
    (cs.foldl (apply roster) d).cancelled = (d.cancelled || decide (.cancel ∈ cs)) := by
  induction cs generalizing d with
  | nil => simp
  | cons x cs ih =>
    rw [List.foldl_cons, ih]
    cases x with
    | write target kind property writer => by_cases h : writer ∈ d.writers.writers target property <;> simp [apply, write, h]
    | _ => simp [apply]

theorem diagnostics_apply (d : Draft) (x : Contribution) :
    (apply roster d x).diagnostics = d.diagnostics ++ x.diagnostic?.toList := by
  cases x with
  | write target kind property writer =>
    by_cases h : writer ∈ d.writers.writers target property <;> simp [apply, write, h, Contribution.diagnostic?]
  | _ => simp [apply, Contribution.diagnostic?]

/-- What is diagnosed is reported, in that order. -/
theorem diagnostics_foldl (cs : List Contribution) (d : Draft) :
    (cs.foldl (apply roster) d).diagnostics = d.diagnostics ++ cs.filterMap Contribution.diagnostic? := by
  induction cs generalizing d with
  | nil => simp
  | cons x cs ih =>
    rw [List.foldl_cons, ih, diagnostics_apply, List.append_assoc, List.filterMap_cons]
    cases x.diagnostic? <;> rfl

theorem mem_writers_foldl (cs : List Contribution) (d : Draft) {target : Nat} {property : String}
    {writer : NodeId} : writer ∈ (cs.foldl (apply roster) d).writers.writers target property ↔
      writer ∈ d.writers.writers target property ∨ ∃ kind, .write target kind property writer ∈ cs := by
  induction cs generalizing d with
  | nil => simp
  | cons x cs ih =>
    rw [List.foldl_cons, ih]
    cases x with
    | write t k p w =>
      have hadd : writer ∈ (d.write roster t k p w).writers.writers target property ↔
          writer ∈ d.writers.writers target property ∨ target = t ∧ property = p ∧ writer = w := by
        unfold write
        split
        case isTrue hmem =>
          constructor
          · exact Or.inl
          · rintro (h | ⟨rfl, rfl, rfl⟩)
            · exact h
            · exact hmem
        case isFalse => exact Writers.mem_writers_add
      simp only [apply, hadd, List.mem_cons, Contribution.write.injEq, or_assoc]
      constructor
      · rintro (h | ⟨rfl, rfl, rfl⟩ | ⟨kind, h⟩)
        · exact Or.inl h
        · exact Or.inr ⟨k, Or.inl ⟨rfl, rfl, rfl, rfl⟩⟩
        · exact Or.inr ⟨kind, Or.inr h⟩
      · rintro (h | ⟨kind, ⟨rfl, -, rfl, rfl⟩ | h⟩)
        · exact Or.inl h
        · exact Or.inr (Or.inl ⟨rfl, rfl, rfl⟩)
        · exact Or.inr (Or.inr ⟨kind, h⟩)
    | _ => simp [apply]

theorem slots_keepWriter (g : Graph) (target : Nat) (writer : NodeId) :
    (keepWriter g roster target writer).slots = g.slots := by
  unfold keepWriter
  split
  · rfl
  · split <;> rfl

theorem slots_write (d : Draft) (target : Nat) (kind : NodeKind) (property : String)
    (writer : NodeId) : (d.write roster target kind property writer).graph.slots = d.graph.slots := by
  unfold write
  split
  · rfl
  · split
    · exact slots_keepWriter _ _ _
    · rfl

theorem getElem?_slots_apply (d : Draft) (x : Contribution) (i : Nat) :
    (apply roster d x).graph.slots[i]? =
      d.graph.slots[i]?.map (Option.map fun n => x.touch i n) := by
  cases x with
  | attach child parent =>
    simp only [apply, Graph.addEdge, Graph.modifyNode, List.getElem?_modify, Contribution.touch]
    split <;> simp [*]
  | mark node cause =>
    simp only [apply, Graph.modifyNode, List.getElem?_modify, Contribution.touch]
    split <;> simp [*]
  | write target kind property writer => simp [apply, slots_write, Contribution.touch]
  | _ => simp [apply, Graph.addEdge, Contribution.touch]

theorem getElem?_slots_foldl (cs : List Contribution) (d : Draft) (i : Nat) :
    (cs.foldl (apply roster) d).graph.slots[i]? =
      d.graph.slots[i]?.map (Option.map fun n => cs.foldl (Contribution.touch i) n) := by
  induction cs generalizing d with
  | nil => simp
  | cons x cs ih =>
    rw [List.foldl_cons, ih, getElem?_slots_apply, Option.map_map]
    congr 1
    funext slot
    simp [Option.map_map, Function.comp_def]

def KindsAgree (kindAt : Nat → NodeKind) (cs : List Contribution) : Prop :=
  ∀ target kind property writer, .write target kind property writer ∈ cs → kind = kindAt target

theorem mutation_of_mem {cs : List Contribution} {target w : Nat} {q : Qualifiers}
    (h : ⟨target, w, .mutation, q⟩ ∈ cs.filterMap (Contribution.edge? roster)) :
    ∃ kind writer, .write target kind kind.enabledProperty writer ∈ cs ∧ roster.lookup writer = some w := by
  obtain ⟨x, hx, he⟩ := List.mem_filterMap.mp h
  cases x with
  | write t kind property writer =>
    simp only [Contribution.edge?, Option.ite_none_right_eq_some, Option.bind_eq_some_iff,
      Option.ite_none_left_eq_some, Option.some.injEq, Edge.mk.injEq] at he
    obtain ⟨rfl, v, hv, -, rfl, rfl, -⟩ := he
    exact ⟨kind, writer, hx, hv⟩
  | _ => simp [Contribution.edge?] at he

/-- A write to the flag of a node was asked for just if its mutation edge was. -/
theorem exists_write_iff {kindAt : Nat → NodeKind} {cs : List Contribution} {target w : Nat} {kind : NodeKind}
    {writer : NodeId} (hroster : ∀ w w' i, roster.lookup w = some i → roster.lookup w' = some i → w = w')
    (hkinds : KindsAgree kindAt cs) (hkind : kind = kindAt target) (hw : roster.lookup writer = some w)
    (hself : ¬ w = target) : (∃ k, .write target k kind.enabledProperty writer ∈ cs) ↔
      ⟨target, w, .mutation, .evenIfDisabled⟩ ∈ cs.filterMap (Contribution.edge? roster) := by
  constructor
  · rintro ⟨k, hk⟩
    have hkk : k = kind := (hkinds _ _ _ _ hk).trans hkind.symm
    exact List.mem_filterMap.mpr ⟨_, hk, by simp [Contribution.edge?, hkk, hw, hself]⟩
  · intro h
    obtain ⟨k, writer', hmem, hw'⟩ := mutation_of_mem h
    have hk : k = kind := (hkinds _ _ _ _ hmem).trans hkind.symm
    exact ⟨k, by rw [hroster _ _ _ hw hw', ← hk]; exact hmem⟩

theorem edges_write (d : Draft) (target : Nat) (kind : NodeKind) (property : String)
    (writer : NodeId) : (d.write roster target kind property writer).graph.edges =
      if writer ∈ d.writers.writers target property then d.graph.edges
      else d.graph.edges ++
        ((Contribution.write target kind property writer).edge? roster).toList := by
  unfold write
  split
  · rfl
  · by_cases hp : property = kind.enabledProperty
    · cases hw : roster.lookup writer with
      | none => simp [Contribution.edge?, hp, keepWriter, hw]
      | some w => by_cases hself : w = target <;> simp [Contribution.edge?, hp, keepWriter, hw, hself, Graph.addEdge]
    · simp [Contribution.edge?, hp]

/-- The edges are the ones that were asked for, in that order, and mutation edges are not repeated. -/
theorem edges_foldl {kindAt : Nat → NodeKind} {cs : List Contribution} {d : Draft}
    (hroster : ∀ w w' i, roster.lookup w = some i → roster.lookup w' = some i → w = w')
    (hkinds : KindsAgree kindAt cs) (hedges : d.graph.edges = [])
    (hwriters : ∀ target property, d.writers.writers target property = []) :
    (cs.foldl (apply roster) d).graph.edges =
      keepOnce Edge.isMutation (cs.filterMap (Contribution.edge? roster)) := by
  induction cs using List.reverseRecOn with
  | nil => simpa [keepOnce] using hedges
  | append_singleton cs x ih =>
    have hpast : KindsAgree kindAt cs := fun t k p w h => hkinds t k p w (List.mem_append_left _ h)
    have ih := ih hpast
    have hlast : (cs ++ [x]).filterMap (Contribution.edge? roster) =
        cs.filterMap (Contribution.edge? roster) ++ (x.edge? roster).toList := by
      rw [List.filterMap_append]
      cases h : x.edge? roster <;> simp [h]
    rw [List.foldl_append, List.foldl_cons, List.foldl_nil, hlast]
    cases x with
    | write target kind property writer =>
      have hwritten : writer ∈ (cs.foldl (apply roster) d).writers.writers target property ↔
          ∃ k, .write target k property writer ∈ cs := by
        rw [mem_writers_foldl, hwriters, List.mem_nil_iff, false_or]
      have hkind : kind = kindAt target := hkinds target kind property writer (by simp)
      rw [apply, edges_write, ih]
      cases he : (Contribution.write target kind property writer).edge? roster with
      | none => simp
      | some e =>
        simp only [Contribution.edge?, Option.ite_none_right_eq_some, Option.bind_eq_some_iff,
          Option.ite_none_left_eq_some, Option.some.injEq] at he
        obtain ⟨rfl, w, hw, hself, rfl⟩ := he
        have hseen := hwritten.trans (exists_write_iff hroster hpast hkind hw hself)
        rw [Option.toList_some, keepOnce_concat]
        simp [hseen, mem_keepOnce, Edge.isMutation]
    | attach child parent =>
      simp [apply, Graph.addEdge, Graph.modifyNode, ih, Contribution.edge?, keepOnce_concat, Edge.isMutation]
    | depend source target qualifiers =>
      simp [apply, Graph.addEdge, ih, Contribution.edge?, keepOnce_concat, Edge.isMutation]
    | _ => simpa [apply, Graph.modifyNode, Contribution.edge?] using ih

end Draft

end ScenePrune
