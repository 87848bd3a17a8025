import ScenePrune.Proofs.Plugin.Extension

/-! # What the bundled components refer to

`Bundled.Uses` and `Bundled.DrivenFrom` read the fields of a node off as a component means them: which
nodes it needs, and which node it moves. The plugins declare an edge for each of these, and none of the
plugins ever asks for a run to be cancelled.
-/
namespace ScenePrune

namespace PluginRegistry
variable {r : PluginRegistry} {type base : TypeName} {p : Plugin}

theorem lookup_of_registered (h : r.plugins.get? type = some p) : r.lookup type = .ok p := by
  simp [lookup, resolve, direct?, h, Except.map]

/-- A type without a plugin of its own that has one supertype is handled as the latter is. -/
theorem lookup_of_base (h : r.plugins.get? type = none) (hbase : r.directSupertypes type = [base])
    (hp : r.plugins.get? base = some p) : r.lookup type = .ok p := by
  have hdirect : r.direct? type = none := by rw [direct?, h, Option.map_none]
  have hnearest : (distinct (r.directSupertypes type)).filterMap r.direct? = [⟨p, base⟩] := by
    simp [hbase, distinct, direct?, hp]
  simp only [lookup, resolve, hdirect, resolveAbove_of_nearest hnearest, Except.map]

/-- Of a type that was neither registered nor declared nothing is known. -/
theorem lookup_of_unknown (h : r.plugins.get? type = none) (hbases : r.directSupertypes type = []) :
    r.lookup type = .error (.unregistered type) := by
  have hdirect : r.direct? type = none := by rw [direct?, h, Option.map_none]
  have hnone : (distinct (r.directSupertypes type)).filterMap r.direct? = [] := by rw [hbases]; rfl
  have hwithin : within (r.directSupertypes type) (r.declaredTypes.filter (· ≠ type)) = [] := by simp [hbases, within]
  simp only [lookup, resolve, hdirect, resolveAbove_of_none hnone, if_pos hwithin, Except.map]

end PluginRegistry

namespace Declared
variable {α β : Type} {steps : List (Step α)} {items : List α} {x : α}

/-- A callback that does not fail declares what each of its steps does. -/
theorem mem_ofSteps (h : (ofSteps steps).failure? = none) (hs : .declare items ∈ steps) (hx : x ∈ items) :
    x ∈ (ofSteps steps).items := by
  induction steps with
  | nil => cases hs
  | cons step rest ih =>
    cases step with
    | declare first =>
      rcases List.mem_cons.mp hs with hs | hs
      · cases hs
        exact List.mem_append_left _ hx
      · exact List.mem_append_right _ (ih h hs)
    | cancel => exact ih h ((List.mem_cons.mp hs).resolve_left nofun)
    | fail e => cases h

theorem mem_ofSteps_reading (h : (ofSteps steps).failure? = none) {field : Except PluginError β} {value : β}
    {f : β → List α} (hs : .reading field f ∈ steps) (hfield : field = .ok value) (hx : x ∈ f value) :
    x ∈ (ofSteps steps).items := by
  subst hfield
  exact mem_ofSteps h hs hx

theorem cancels_ofSteps (h : .cancel ∉ steps) : (ofSteps steps).cancels = false := by
  induction steps with
  | nil => rfl
  | cons step rest ih =>
    obtain ⟨hstep, hrest⟩ := List.ne_and_not_mem_of_not_mem_cons h
    cases step with
    | declare items => exact ih hrest
    | cancel => exact absurd rfl hstep
    | fail e => rfl

theorem reading_ne_cancel {field : Except PluginError β} {f : β → List α} : .cancel ≠ Step.reading field f := by
  cases field <;> nofun

end Declared

namespace Subject
variable {n : Subject} {name : String} {target : NodeId}

def PointsTo (n : Subject) (name : String) (target : NodeId) : Prop := n.field? name = some (.ref (some target))

/-- The field holds a list of references with the target in it, or refers to the target alone. -/
def Lists (n : Subject) (name : String) (target : NodeId) : Prop :=
  n.PointsTo name target ∨ ∃ targets, n.field? name = some (.refs targets) ∧ some target ∈ targets

theorem PointsTo.reference (h : n.PointsTo name target) : n.reference name = .ok (some target) := by
  rw [PointsTo] at h
  rw [Subject.reference, h]

theorem Lists.references (h : n.Lists name target) :
    ∃ targets, n.references name = .ok targets ∧ target ∈ targets := by
  rcases h with h | ⟨targets, h, hmem⟩
  · rw [PointsTo] at h
    refine ⟨[target], ?_, List.mem_singleton_self target⟩
    rw [Subject.references, h]
    rfl
  · refine ⟨(FieldValue.refs targets).references, ?_, List.mem_filterMap.mpr ⟨some target, hmem, rfl⟩⟩
    rw [Subject.references, h]
    rfl

theorem Lists.requiredReferences (h : n.Lists name target) :
    ∃ targets, n.requiredReferences name = .ok targets ∧ target ∈ targets := by
  obtain ⟨value, hvalue⟩ : ∃ value, n.field? name = some value := by
    rcases h with h | ⟨targets, h, -⟩ <;> exact ⟨_, h⟩
  rw [Subject.requiredReferences, hvalue]
  exact h.references

end Subject

namespace Bundled

def HasType (n : Subject) (types : List TypeName) : Prop := ∃ type ∈ types, n.type? = some type

def rendererTypes : List TypeName := ["Renderer", "MeshRenderer"]

def constraintTypes : List TypeName :=
  ["Constraint", "ParentConstraint", "PositionConstraint", "RotationConstraint", "AimConstraint"]

inductive HasRoot (n : Subject) (root : NodeId) : Prop where
  | named : n.PointsTo "root_transform" root → HasRoot n root
  | owner : n.field? "root_transform" = none ∨ n.field? "root_transform" = some (.ref none) →
      n.parent? = some root → HasRoot n root

inductive Uses (n : Subject) (target : NodeId) : Prop where
  | probeAnchor : HasType n rendererTypes ∨ HasType n ["SkinnedMeshRenderer"] →
      n.PointsTo "probe_anchor" target → Uses n target
  | rootBone : HasType n ["SkinnedMeshRenderer"] → n.PointsTo "root_bone" target → Uses n target
  | bone : HasType n ["SkinnedMeshRenderer"] → n.Lists "bones" target → Uses n target
  | avatarRoot : HasType n ["Animator"] → n.PointsTo "avatar_root" target → Uses n target
  | source : HasType n constraintTypes → n.Lists "sources" target → Uses n target
  | collider : HasType n ["PhysBone"] → n.Lists "colliders" target → Uses n target
  | root : HasType n ["PhysBone"] ∨ HasType n ["PhysBoneCollider"] → HasRoot n target → Uses n target

/-- The component moves the base, which therefore needs it while it can be active. -/
inductive DrivenFrom (n : Subject) (base : NodeId) : Prop where
  | owner : HasType n constraintTypes → n.parent? = some base → DrivenFrom n base
  | root : HasType n ["PhysBone"] → HasRoot n base → DrivenFrom n base

def Handles (p : Plugin) (n : Subject) : Prop := ∃ type, n.type? = some type ∧ registry.lookup type = .ok p

section Types
variable {n : Subject} {types : List TypeName} {p q : Plugin}

theorem HasType.handles (h : HasType n types) (hp : ∀ type ∈ types, registry.lookup type = .ok p) : Handles p n := by
  obtain ⟨type, hmem, htype⟩ := h
  exact ⟨type, htype, hp type hmem⟩

theorem Handles.unique (hp : Handles p n) (hq : Handles q n) : p = q := by
  obtain ⟨type, htype, hp⟩ := hp
  obtain ⟨type', htype', hq⟩ := hq
  obtain rfl := Option.some.inj (htype.symm.trans htype')
  exact Except.ok.inj (hp.symm.trans hq)

theorem HasType.registered {type : TypeName} (h : HasType n [type]) (hp : registry.plugins.get? type = some p) :
    Handles p n := by
  refine h.handles fun type' hmem => ?_
  obtain rfl := List.mem_singleton.mp hmem
  exact PluginRegistry.lookup_of_registered hp

theorem HasType.renderer (h : HasType n rendererTypes) : Handles renderer n := by
  refine h.handles fun type hmem => ?_
  simp only [rendererTypes, List.mem_cons, List.not_mem_nil, or_false] at hmem
  rcases hmem with rfl | rfl
  · exact PluginRegistry.lookup_of_registered rfl
  · exact PluginRegistry.lookup_of_base rfl rfl rfl

/-- The concrete constraints are handled as constraints. -/
theorem HasType.constraint (h : HasType n constraintTypes) : Handles constraint n := by
  refine h.handles fun type hmem => ?_
  simp only [constraintTypes, List.mem_cons, List.not_mem_nil, or_false] at hmem
  rcases hmem with rfl | rfl | rfl | rfl | rfl
  · exact PluginRegistry.lookup_of_registered rfl
  all_goals exact PluginRegistry.lookup_of_base rfl rfl rfl

end Types

section Edges
variable {n : Subject} {p : Plugin} {target : NodeId}

theorem mem_needs {q : Qualifiers} {targets : List NodeId} (h : target ∈ targets) :
    .edge n.id target q ∈ needs n q targets :=
  List.mem_map_of_mem h

theorem HasRoot.effectiveRoot {root : NodeId} (h : HasRoot n root) : effectiveRoot n = .ok (some root) := by
  cases h with
  | named h => rw [Bundled.effectiveRoot, h.reference]; rfl
  | owner hfield hparent =>
    have hnone : n.reference "root_transform" = .ok none := by
      rcases hfield with hfield | hfield <;> rw [Subject.reference, hfield]
    rw [Bundled.effectiveRoot, hnone]
    exact congrArg Except.ok hparent

section Steps
variable {steps : List (Step Dependency)} {name : String}

theorem mem_of_pointsTo (h : n.PointsTo name target) (hok : (Declared.ofSteps steps).failure? = none)
    (hs : (.reading (n.reference name) fun target? => needs n .plain target?.toList) ∈ steps) :
    .edge n.id target .plain ∈ (Declared.ofSteps steps).items :=
  Declared.mem_ofSteps_reading hok hs h.reference (mem_needs (List.mem_singleton_self target))

theorem mem_of_lists (h : n.Lists name target) (hok : (Declared.ofSteps steps).failure? = none)
    (hs : .reading (n.references name) (needs n .plain) ∈ steps) :
    .edge n.id target .plain ∈ (Declared.ofSteps steps).items := by
  obtain ⟨targets, htargets, hmem⟩ := h.references
  exact Declared.mem_ofSteps_reading hok hs htargets (mem_needs hmem)

end Steps

/-- A plugin that does not fail on a component declares an edge to each node that the component uses. -/
theorem Uses.declared (h : Uses n target) (hp : Handles p n) (hok : p.failure? n = none) :
    .edge n.id target .plain ∈ (p.dependencies n).items := by
  have hdependencies : (p.dependencies n).failure? = none := (Option.or_eq_none_iff.mp hok).1
  cases h with
  | probeAnchor ht h =>
    rcases ht with ht | ht
    · obtain rfl := hp.unique ht.renderer
      exact mem_of_pointsTo h hdependencies (by simp [rendererSteps])
    · obtain rfl := hp.unique (ht.registered (p := skinnedMeshRenderer) rfl)
      exact mem_of_pointsTo h hdependencies (by simp [rendererSteps])
  | rootBone ht h =>
    obtain rfl := hp.unique (ht.registered (p := skinnedMeshRenderer) rfl)
    exact mem_of_pointsTo h hdependencies (by simp)
  | bone ht h =>
    obtain rfl := hp.unique (ht.registered (p := skinnedMeshRenderer) rfl)
    exact mem_of_lists h hdependencies (by simp)
  | avatarRoot ht h =>
    obtain rfl := hp.unique (ht.registered (p := animator) rfl)
    exact mem_of_pointsTo h hdependencies (by simp)
  | source ht h =>
    obtain rfl := hp.unique ht.constraint
    obtain ⟨targets, htargets, hmem⟩ := h.requiredReferences
    exact Declared.mem_ofSteps_reading hdependencies (by simp) htargets (mem_needs hmem)
  | collider ht h =>
    obtain rfl := hp.unique (ht.registered (p := physBone) rfl)
    exact mem_of_lists h hdependencies (by simp)
  | root ht h =>
    rcases ht with ht | ht
    · obtain rfl := hp.unique (ht.registered (p := physBone) rfl)
      have htarget := mem_needs (n := n) (q := .plain) (List.mem_singleton_self target)
      exact Declared.mem_ofSteps_reading hdependencies List.mem_cons_self h.effectiveRoot
        (List.mem_append_right _ htarget)
    · obtain rfl := hp.unique (ht.registered (p := physBoneCollider) rfl)
      exact Declared.mem_ofSteps_reading hdependencies List.mem_cons_self h.effectiveRoot
        (mem_needs (List.mem_singleton_self target))

/-- Whether or not reading the other fields fails, the base gets an edge to the component. -/
theorem DrivenFrom.declared {base : NodeId} (h : DrivenFrom n base) :
    ∃ p, Handles p n ∧ .edge base n.id .onlyIfEnabled ∈ (p.dependencies n).items := by
  cases h with
  | owner ht hparent =>
    refine ⟨constraint, ht.constraint, List.mem_append_left _ ?_⟩
    rw [hparent]
    exact List.mem_singleton_self _
  | root ht h =>
    refine ⟨physBone, ht.registered rfl, ?_⟩
    simp only [physBone, Plugin.steps, h.effectiveRoot, Step.reading, Declared.ofSteps]
    exact List.mem_append_left _ (List.mem_append_left _ (List.mem_singleton_self _))

theorem viewAnchor_declared (h : n.PointsTo "view_anchor" target) :
    .edge n.id target .evenIfDisabled ∈ (avatarDescriptor.dependencies n).items := by
  simp [avatarDescriptor, Plugin.steps, h.reference, Step.reading, Declared.ofSteps, needs]

end Edges

section Cancellation
variable {n : Subject} {p : Plugin}

theorem not_cancels_of_mem {entry : TypeName × Plugin} (h : entry ∈ registrations) :
    (entry.2.dependencies n).cancels = false ∧ (entry.2.mutations n).cancels = false := by
  simp only [registrations, List.mem_cons, List.not_mem_nil, or_false] at h
  rcases h with rfl | rfl | rfl | rfl | rfl | rfl | rfl | rfl | rfl <;>
    simp [transform, behaviour, animator, renderer, rendererSteps, skinnedMeshRenderer, constraint, physBone,
      physBoneCollider, avatarDescriptor, Plugin.steps, Declared.cancels_ofSteps, Declared.reading_ne_cancel]

/-- No bundled plugin asks for a run to be cancelled. -/
theorem not_cancels_of_lookup {type : TypeName} (h : registry.lookup type = .ok p) :
    (p.dependencies n).cancels = false ∧ (p.mutations n).cancels = false := by
  obtain ⟨t, ht⟩ := PluginRegistry.mem_of_lookup h
  rw [show registry.plugins.entries = registrations from OrderedMap.entries_ofList (by decide)] at ht
  exact not_cancels_of_mem ht

end Cancellation

end Bundled

end ScenePrune
