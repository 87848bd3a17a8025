import ScenePrune.Proofs.Plugin.References

/-! # Which components the bundled plugins keep

A plugin keeps a node if it marks it as an entrypoint, or if it fails on it. Most types are kept in this way
or have no plugin at all; of the few others, a plugin keeps just the nodes with a field of the wrong form.
`Bundled.Malformed` says so apart from the plugins.
-/
namespace ScenePrune

/-- The plugin makes the node an entrypoint: it says so, or it fails. -/
def Plugin.Keeps (p : Plugin) (n : Subject) : Prop :=
  .entrypoint ∈ (p.dependencies n).items ∨ (p.failure? n).isSome

section Steps
variable {α β : Type} {steps : List (Step α)} {field : Except PluginError β} {e : PluginError}

/-- A callback fails just if one of its steps does. -/
theorem Declared.isSome_failure?_ofSteps : (ofSteps steps).failure?.isSome ↔ ∃ e, .fail e ∈ steps := by
  induction steps with
  | nil => simp [ofSteps]
  | cons step rest ih =>
    cases step with
    | declare items => simpa [ofSteps] using ih
    | cancel => simpa [ofSteps] using ih
    | fail e => exact ⟨fun _ => ⟨e, List.mem_cons_self⟩, fun _ => rfl⟩

theorem Step.fail_eq_reading_iff {f : β → List α} : .fail e = Step.reading field f ↔ field = .error e := by
  cases field <;> simp [reading, eq_comm]

def Step.Unmarked : Step Dependency → Prop
  | declare items => .entrypoint ∉ items
  | _ => True

theorem Step.unmarked_reading {f : β → List Dependency} (h : ∀ value, .entrypoint ∉ f value) :
    (Step.reading field f).Unmarked := by
  cases field with
  | ok value => exact h value
  | error e => trivial

theorem Declared.entrypoint_notMem_ofSteps {steps : List (Step Dependency)} (h : ∀ step ∈ steps, step.Unmarked) :
    .entrypoint ∉ (ofSteps steps).items := by
  induction steps with
  | nil => exact List.not_mem_nil
  | cons step rest ih =>
    obtain ⟨hstep, hrest⟩ := List.forall_mem_cons.mp h
    cases step with
    | declare items => exact fun hmem => (List.mem_append.mp hmem).elim hstep (ih hrest)
    | cancel => exact ih hrest
    | fail e => exact List.not_mem_nil

/-- A plugin that never marks a node keeps those on which it fails. -/
theorem Plugin.keeps_iff_of_unmarked {p : Plugin} {n : Subject} {steps : List (Step Dependency)}
    (hdependencies : p.dependencies n = .ofSteps steps) (hmutations : (p.mutations n).failure? = none)
    (h : ∀ step ∈ steps, step.Unmarked) : p.Keeps n ↔ ∃ e, .fail e ∈ steps := by
  rw [Keeps, failure?, hdependencies, hmutations, Option.or_none, Declared.isSome_failure?_ofSteps]
  exact or_iff_right (Declared.entrypoint_notMem_ofSteps h)

end Steps

namespace Subject
variable {n : Subject} {name : String}

def Has (n : Subject) (name : String) : Prop := ∃ value, n.field? name = some value

def IsRef (n : Subject) (name : String) : Prop := ∃ target?, n.field? name = some (.ref target?)

def IsRefs (n : Subject) (name : String) : Prop := ∃ targets, n.field? name = some (.refs targets)

theorem reference_eq_error_iff : (∃ e, n.reference name = .error e) ↔ n.Has name ∧ ¬ n.IsRef name := by
  unfold reference Has IsRef
  cases n.field? name with
  | none => simp
  | some value => cases value <;> simp

theorem references_eq_error_iff :
    (∃ e, n.references name = .error e) ↔ n.Has name ∧ ¬ n.IsRef name ∧ ¬ n.IsRefs name := by
  unfold references Has IsRef IsRefs
  cases n.field? name with
  | none => simp
  | some value => cases value <;> simp [FieldValue.isReference]

/-- A field that has to be there is wrong if it is missing. -/
theorem requiredReferences_eq_error_iff :
    (∃ e, n.requiredReferences name = .error e) ↔ ¬ n.IsRef name ∧ ¬ n.IsRefs name := by
  unfold requiredReferences references IsRef IsRefs
  cases n.field? name with
  | none => simp
  | some value => cases value <;> simp [FieldValue.isReference]

end Subject

namespace Bundled

def prunableTypes : List TypeName := ["Transform", "PhysBone", "PhysBoneCollider"] ++ constraintTypes

def markedTypes : List TypeName :=
  ["Behaviour", "Animator", "Renderer", "MeshRenderer", "SkinnedMeshRenderer", "AvatarDescriptor"]

@[mk_iff]
inductive Malformed (n : Subject) : Prop where
  | sources : HasType n constraintTypes → ¬ n.IsRef "sources" → ¬ n.IsRefs "sources" → Malformed n
  | chainRoot : HasType n ["PhysBone"] → n.Has "root_transform" → ¬ n.IsRef "root_transform" → Malformed n
  | colliders : HasType n ["PhysBone"] → n.Has "colliders" → ¬ n.IsRef "colliders" → ¬ n.IsRefs "colliders" →
      Malformed n
  | colliderRoot : HasType n ["PhysBoneCollider"] → n.Has "root_transform" → ¬ n.IsRef "root_transform" → Malformed n

section Keeping
variable {n : Subject} {type : TypeName}

theorem entrypoint_notMem_needs {q : Qualifiers} (targets : List NodeId) : .entrypoint ∉ needs n q targets := by
  simp [needs]

theorem effectiveRoot_eq_error_iff {e : PluginError} :
    effectiveRoot n = .error e ↔ n.reference "root_transform" = .error e := by
  unfold effectiveRoot
  cases n.reference "root_transform" <;> simp [Except.map]

theorem not_keeps_transform : ¬ transform.Keeps n := by
  have hkeeps : transform.Keeps n ↔ ∃ e, .fail e ∈ ([] : List (Step Dependency)) :=
    Plugin.keeps_iff_of_unmarked rfl rfl (by simp)
  simp [hkeeps]

theorem keeps_constraint_iff : constraint.Keeps n ↔ ¬ n.IsRef "sources" ∧ ¬ n.IsRefs "sources" := by
  rw [← Subject.requiredReferences_eq_error_iff, Plugin.keeps_iff_of_unmarked rfl rfl]
  · simp [Step.fail_eq_reading_iff]
  · refine List.forall_mem_cons.mpr ⟨?_, List.forall_mem_singleton.mpr ?_⟩
    · cases h : n.parent? <;> simp [Step.Unmarked]
    · exact Step.unmarked_reading entrypoint_notMem_needs

theorem keeps_physBone_iff : physBone.Keeps n ↔ (n.Has "root_transform" ∧ ¬ n.IsRef "root_transform") ∨
    n.Has "colliders" ∧ ¬ n.IsRef "colliders" ∧ ¬ n.IsRefs "colliders" := by
  rw [← Subject.reference_eq_error_iff, ← Subject.references_eq_error_iff, Plugin.keeps_iff_of_unmarked rfl rfl]
  · simp [Step.fail_eq_reading_iff, effectiveRoot_eq_error_iff, exists_or]
  · refine List.forall_mem_cons.mpr ⟨?_, List.forall_mem_singleton.mpr ?_⟩
    · refine Step.unmarked_reading fun root? => ?_
      simp [entrypoint_notMem_needs]
    · exact Step.unmarked_reading entrypoint_notMem_needs

theorem keeps_physBoneCollider_iff :
    physBoneCollider.Keeps n ↔ n.Has "root_transform" ∧ ¬ n.IsRef "root_transform" := by
  rw [← Subject.reference_eq_error_iff, Plugin.keeps_iff_of_unmarked rfl rfl]
  · simp [Step.fail_eq_reading_iff, effectiveRoot_eq_error_iff]
  · exact List.forall_mem_singleton.mpr (Step.unmarked_reading fun root? => entrypoint_notMem_needs _)

end Keeping

section Types
variable {n : Subject} {type : TypeName} {types types' : List TypeName}

theorem HasType.disjoint (h : HasType n types) (hd : ∀ type ∈ types, type ∉ types') : ¬ HasType n types' := by
  rintro ⟨type', hmem', htype'⟩
  obtain ⟨type, hmem, htype⟩ := h
  obtain rfl := Option.some.inj (htype.symm.trans htype')
  exact hd _ hmem hmem'

theorem hasType_append : HasType n (types ++ types') ↔ HasType n types ∨ HasType n types' := by
  simp [HasType, or_and_right, exists_or]

/-- The plugin of a prunable type keeps just the malformed nodes. -/
theorem HasType.keeps_iff (h : HasType n prunableTypes) : ∃ p, Handles p n ∧ (p.Keeps n ↔ Malformed n) := by
  have h : HasType n (["Transform"] ++ ["PhysBone"] ++ ["PhysBoneCollider"] ++ constraintTypes) := h
  simp only [hasType_append] at h
  rcases h with ((h | h) | h) | h
  · refine ⟨transform, h.registered rfl, ?_⟩
    have h₁ : ¬ HasType n constraintTypes := h.disjoint (by decide)
    have h₂ : ¬ HasType n ["PhysBone"] := h.disjoint (by decide)
    have h₃ : ¬ HasType n ["PhysBoneCollider"] := h.disjoint (by decide)
    simp [malformed_iff, not_keeps_transform, h₁, h₂, h₃]
  · refine ⟨physBone, h.registered rfl, ?_⟩
    have h₁ : ¬ HasType n constraintTypes := h.disjoint (by decide)
    have h₂ : ¬ HasType n ["PhysBoneCollider"] := h.disjoint (by decide)
    simp [malformed_iff, keeps_physBone_iff, h, h₁, h₂]
  · refine ⟨physBoneCollider, h.registered rfl, ?_⟩
    have h₁ : ¬ HasType n constraintTypes := h.disjoint (by decide)
    have h₂ : ¬ HasType n ["PhysBone"] := h.disjoint (by decide)
    simp [malformed_iff, keeps_physBoneCollider_iff, h, h₁, h₂]
  · refine ⟨Bundled.constraint, h.constraint, ?_⟩
    have h₁ : ¬ HasType n ["PhysBone"] := h.disjoint (by decide)
    have h₂ : ¬ HasType n ["PhysBoneCollider"] := h.disjoint (by decide)
    simp [malformed_iff, keeps_constraint_iff, h, h₁, h₂]

/-- The other plugins mark all of their nodes before they read a field. -/
theorem exists_marking (h : type ∈ markedTypes) :
    ∃ p, registry.lookup type = .ok p ∧ ∀ n, .entrypoint ∈ (p.dependencies n).items := by
  have hfirst : ∀ {items : List Dependency}, .entrypoint ∈ [.entrypoint] ++ items :=
    List.mem_append_left _ (List.mem_singleton_self _)
  simp only [markedTypes, List.mem_cons, List.not_mem_nil, or_false] at h
  rcases h with rfl | rfl | rfl | rfl | rfl | rfl
  · exact ⟨behaviour, PluginRegistry.lookup_of_registered rfl, fun _ => hfirst⟩
  · exact ⟨animator, PluginRegistry.lookup_of_registered rfl, fun _ => hfirst⟩
  · exact ⟨renderer, PluginRegistry.lookup_of_registered rfl, fun _ => hfirst⟩
  · exact ⟨renderer, PluginRegistry.lookup_of_base rfl rfl rfl, fun _ => hfirst⟩
  · exact ⟨skinnedMeshRenderer, PluginRegistry.lookup_of_registered rfl, fun _ => hfirst⟩
  · exact ⟨avatarDescriptor, PluginRegistry.lookup_of_registered rfl, fun _ => hfirst⟩

/-- No type but these has a plugin. -/
theorem lookup_of_notMem (hprunable : type ∉ prunableTypes) (hmarked : type ∉ markedTypes) :
    registry.lookup type = .error (.unregistered type) := by
  have hregistered : ∀ type ∈ registrations.map Prod.fst, type ∈ prunableTypes ++ markedTypes := by decide
  have hdeclared : ∀ type ∈ (typeHierarchy.map fun e => (e.1, [e.2])).map Prod.fst,
      type ∈ prunableTypes ++ markedTypes := by decide
  have hnone : type ∉ prunableTypes ++ markedTypes := by
    rw [List.mem_append]
    exact not_or.mpr ⟨hprunable, hmarked⟩
  apply PluginRegistry.lookup_of_unknown
  · rw [← Option.not_isSome_iff_eq_none]
    exact fun hsome => hnone (hregistered type (OrderedMap.isSome_get?_ofList.mp hsome))
  · have hbases : registry.supertypes.get? type = none := by
      rw [← Option.not_isSome_iff_eq_none]
      exact fun hsome => hnone (hdeclared type (OrderedMap.isSome_get?_ofList.mp hsome))
    rw [PluginRegistry.directSupertypes, hbases]
    rfl

/-- What becomes of a node by its type and its fields: it is kept unless it is of a prunable type and not malformed. -/
theorem kept_iff (htype : n.type? = some type) :
    ((∃ e, registry.lookup type = .error e) ∨ ∃ p, registry.lookup type = .ok p ∧ p.Keeps n) ↔
      ¬ HasType n prunableTypes ∨ Malformed n := by
  by_cases h : HasType n prunableTypes
  · obtain ⟨p, ⟨type', htype', hp⟩, hkeeps⟩ := h.keeps_iff
    obtain rfl := Option.some.inj (htype.symm.trans htype')
    simp [hp, hkeeps, h]
  · have hprunable : type ∉ prunableTypes := fun hmem => h ⟨type, hmem, htype⟩
    refine iff_of_true ?_ (Or.inl h)
    by_cases hmarked : type ∈ markedTypes
    · obtain ⟨p, hp, hmarks⟩ := exists_marking hmarked
      exact Or.inr ⟨p, hp, Or.inl (hmarks n)⟩
    · exact Or.inl ⟨_, lookup_of_notMem hprunable hmarked⟩

end Types

end Bundled

end ScenePrune
