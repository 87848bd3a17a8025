import Mathlib.Data.List.Find
import ScenePrune.Proofs.Graph.Construction
import ScenePrune.Proofs.Plugin.Locality

/-! # What a run is told about one node

Where all callbacks read only the record of the node that they are asked about, what they say about a node
follows from its record: two views with the same record get the same declarations, the same cause for it to
be an entrypoint, and the same requests to cancel.
-/
namespace ScenePrune

/-- All callbacks read only the record of the node that they are asked about. -/
structure Collector.ReadsOwnRecords (c : Collector) : Prop where
  plugins : ∀ entry ∈ c.registry.plugins.entries, entry.2.ReadsOwnRecord
  predicates : ∀ p ∈ c.rules.predicates, p.ReadsOwnRecord

theorem Collector.IsLocal.readsOwnRecords {c : Collector} (hc : c.IsLocal) : c.ReadsOwnRecords where
  plugins := fun entry hentry => (hc.registry entry hentry).1
  predicates := hc.predicates

theorem EntrypointRules.consulted_subset (n : Subject) (predicates : List Predicate) :
    consulted n predicates ⊆ predicates := by
  induction predicates with
  | nil => exact List.Subset.refl _
  | cons p rest ih =>
    unfold consulted
    split
    · exact List.cons_subset_cons p (List.nil_subset rest)
    · exact List.cons_subset_cons p ih

namespace SceneView.SameRecord
variable {v v' : SceneView} {id : NodeId} {c : Collector}

theorem symm (h : v.SameRecord v' id) : v'.SameRecord v id where
  type := h.type.symm
  kind := h.kind.symm
  parent := h.parent.symm
  enabled := h.enabled.symm
  field := fun name => (h.field name).symm

theorem typeOf_eq (h : v.SameRecord v' id) : v'.typeOf id = v.typeOf id := by
  rw [typeOf, h.type]
  rfl

theorem kindOf_eq (h : v.SameRecord v' id) : v'.kindOf id = v.kindOf id := by
  rw [kindOf, h.kind]
  rfl

theorem switch_eq (h : v.SameRecord v' id) : v'.switch id = v.switch id := by
  rw [switch, h.kindOf_eq]
  rfl

theorem declared_eq (h : v.SameRecord v' id) (hc : c.ReadsOwnRecords) {type : TypeName} {p : Plugin}
    (hp : c.registry.lookup type = .ok p) :
    p.dependencies ⟨v', id⟩ = p.dependencies ⟨v, id⟩ ∧ p.mutations ⟨v', id⟩ = p.mutations ⟨v, id⟩ := by
  obtain ⟨t, ht⟩ := PluginRegistry.mem_of_lookup hp
  exact hc.plugins _ ht v v' id h

/-- Its plugin makes the node write the same, to a target of the same kind. -/
theorem pluginWrites_iff (h : v.SameRecord v' id) (hc : c.ReadsOwnRecords) {target : NodeId}
    (htarget : v'.kindOf target = v.kindOf target) (property : String) :
    (∃ p, c.registry.lookup (v'.typeOf id) = .ok p ∧
      ∃ m ∈ (p.mutations ⟨v', id⟩).items, m.target = target ∧ m.path (v'.kindOf target) = property) ↔
    ∃ p, c.registry.lookup (v.typeOf id) = .ok p ∧
      ∃ m ∈ (p.mutations ⟨v, id⟩).items, m.target = target ∧ m.path (v.kindOf target) = property := by
  rw [h.typeOf_eq, htarget]
  refine exists_congr fun p => and_congr_right fun hp => ?_
  rw [(h.declared_eq hc hp).2]

theorem declaredCause?_eq (h : v.SameRecord v' id) (hc : c.ReadsOwnRecords) :
    c.declaredCause? v' id = c.declaredCause? v id := by
  unfold Collector.declaredCause?
  rw [h.typeOf_eq]
  cases hp : c.registry.lookup (v.typeOf id) with
  | error e => cases e <;> rfl
  | ok p =>
    obtain ⟨hd, hm⟩ := h.declared_eq hc hp
    simp only [hd, hm, Plugin.failure?]

theorem classify_eq (h : v.SameRecord v' id) (hc : c.ReadsOwnRecords) :
    c.rules.classify ⟨v', id⟩ = c.rules.classify ⟨v, id⟩ := by
  have hfind : (c.rules.predicates.find? fun p => (p.judge ⟨v', id⟩).holds) =
      c.rules.predicates.find? fun p => (p.judge ⟨v, id⟩).holds :=
    List.find?_congr fun p hp => congrArg Opinion.holds (hc.predicates p hp v v' id h)
  simp only [EntrypointRules.classify, EntrypointRules.fixesType, Subject.parent?, Subject.type?, h.parent, h.type,
    hfind]
  rfl

theorem cause?_eq (h : v.SameRecord v' id) (hc : c.ReadsOwnRecords) : c.cause? v' id = c.cause? v id := by
  rw [Collector.cause?, h.declaredCause?_eq hc, h.classify_eq hc]
  rfl

theorem consulted_eq (predicates : List Predicate)
    (hjudge : ∀ p ∈ predicates, p.judge ⟨v', id⟩ = p.judge ⟨v, id⟩) :
    EntrypointRules.consulted ⟨v', id⟩ predicates = EntrypointRules.consulted ⟨v, id⟩ predicates := by
  induction predicates with
  | nil => rfl
  | cons p rest ih =>
    rw [EntrypointRules.consulted, hjudge p List.mem_cons_self, ih fun q hq => hjudge q (List.mem_cons_of_mem _ hq)]
    rfl

theorem rules_cancels_eq (h : v.SameRecord v' id) (hc : c.ReadsOwnRecords) :
    c.rules.cancels ⟨v', id⟩ = c.rules.cancels ⟨v, id⟩ := by
  have hjudge := fun p hp => hc.predicates p hp v v' id h
  have hany : ((EntrypointRules.consulted ⟨v, id⟩ c.rules.predicates).any fun p => (p.judge ⟨v', id⟩).cancels) =
      (EntrypointRules.consulted ⟨v, id⟩ c.rules.predicates).any fun p => (p.judge ⟨v, id⟩).cancels := by
    rw [Bool.eq_iff_iff, List.any_eq_true, List.any_eq_true]
    exact exists_congr fun p => and_congr_right fun hp => by
      rw [hjudge p (EntrypointRules.consulted_subset _ _ hp)]
  simp only [EntrypointRules.cancels, EntrypointRules.fixesType, Subject.parent?, Subject.type?, h.parent, h.type,
    consulted_eq _ hjudge, hany]

theorem pluginCancels_eq (h : v.SameRecord v' id) (hc : c.ReadsOwnRecords) :
    c.pluginCancels v' id = c.pluginCancels v id := by
  unfold Collector.pluginCancels
  rw [h.typeOf_eq]
  cases hp : c.registry.lookup (v.typeOf id) with
  | error e => rfl
  | ok p =>
    obtain ⟨hd, hm⟩ := h.declared_eq hc hp
    simp only [hd, hm]

end SceneView.SameRecord

end ScenePrune
