import ScenePrune.Collector
import ScenePrune.Plugin.Bundled
import ScenePrune.Proofs.OrderedMap

/-! # Plugins and predicates that look at one node only

A local plugin reads the record of the node it is asked about and declares no edge between two
other nodes. What it says about a node does not change when other nodes go. The bundled plugins are
all of this kind.
-/
namespace ScenePrune

structure SceneView.SameRecord (v v' : SceneView) (id : NodeId) : Prop where
  type : v'.type? id = v.type? id
  kind : v'.kind? id = v.kind? id
  parent : v'.parent? id = v.parent? id
  enabled : v'.enabled id = v.enabled id
  field : ∀ name, v'.field? id name = v.field? id name

def Dependency.Incident (id : NodeId) (items : List Dependency) : Prop :=
  ∀ source target qualifiers, .edge source target qualifiers ∈ items → source = id ∨ target = id

namespace Plugin

def ReadsOwnRecord (p : Plugin) : Prop := ∀ (v v' : SceneView) (id : NodeId), v.SameRecord v' id →
  p.dependencies ⟨v', id⟩ = p.dependencies ⟨v, id⟩ ∧ p.mutations ⟨v', id⟩ = p.mutations ⟨v, id⟩

def DeclaresIncident (p : Plugin) : Prop := ∀ (v : SceneView) (id : NodeId),
  Dependency.Incident id (p.dependencies ⟨v, id⟩).items

def IsLocal (p : Plugin) : Prop := p.ReadsOwnRecord ∧ p.DeclaresIncident

end Plugin

def Predicate.ReadsOwnRecord (p : Predicate) : Prop := ∀ (v v' : SceneView) (id : NodeId),
  v.SameRecord v' id → p.judge ⟨v', id⟩ = p.judge ⟨v, id⟩

def PluginRegistry.IsLocal (r : PluginRegistry) : Prop := ∀ entry ∈ r.plugins.entries, entry.2.IsLocal

/-- All that a run is told about a node depends on the record of the node alone. -/
structure Collector.IsLocal (c : Collector) : Prop where
  registry : c.registry.IsLocal
  predicates : ∀ p ∈ c.rules.predicates, p.ReadsOwnRecord

namespace PluginRegistry
variable {r : PluginRegistry} {type : TypeName}

theorem get?_of_direct? {found : Resolution} (h : r.direct? type = some found) :
    r.plugins.get? found.registeredAs = some found.plugin := by
  obtain ⟨p, hp, rfl⟩ := Option.map_eq_some_iff.mp h
  exact hp

theorem get?_of_resolveAbove {pending level : List TypeName} {found : Resolution}
    (h : r.resolveAbove type pending level = .ok found) : r.plugins.get? found.registeredAs = some found.plugin := by
  induction pending, level using resolveAbove.induct r with
  | case1 pending level nearest hfound =>
    rw [resolveAbove, hfound] at h
    cases h
    have hmem : found ∈ (distinct level).filterMap r.direct? := by simp [hfound]
    obtain ⟨t, -, ht⟩ := List.mem_filterMap.mp hmem
    exact get?_of_direct? ht
  | case2 pending level first second more hfound =>
    rw [resolveAbove, hfound] at h
    cases h
  | case3 pending level hnone hwithin =>
    rw [resolveAbove, hnone, if_pos hwithin] at h
    cases h
  | case4 pending level hnone hwithin ih =>
    rw [resolveAbove, hnone, if_neg hwithin] at h
    exact ih h

/-- The plugin that handles a type is the one that is registered for the type it resolves to. -/
theorem get?_of_resolve {found : Resolution} (h : r.resolve type = .ok found) :
    r.plugins.get? found.registeredAs = some found.plugin := by
  unfold resolve at h
  cases hd : r.direct? type with
  | some direct =>
    rw [hd] at h
    cases h
    exact get?_of_direct? hd
  | none =>
    rw [hd] at h
    exact get?_of_resolveAbove h

theorem mem_of_lookup {p : Plugin} (h : r.lookup type = .ok p) : ∃ t, (t, p) ∈ r.plugins.entries := by
  unfold lookup at h
  cases hr : r.resolve type with
  | error e =>
    rw [hr] at h
    cases h
  | ok found =>
    rw [hr] at h
    cases h
    exact ⟨found.registeredAs, mem_of_lookup_eq_some (get?_of_resolve hr)⟩

theorem IsLocal.of_lookup (hr : r.IsLocal) {p : Plugin} (h : r.lookup type = .ok p) : p.IsLocal := by
  obtain ⟨t, ht⟩ := mem_of_lookup h
  exact hr _ ht

end PluginRegistry

section Incident
variable {id : NodeId}

def Step.Incident (id : NodeId) : Step Dependency → Prop
  | .declare items => Dependency.Incident id items
  | _ => True

theorem Dependency.Incident.append {items items' : List Dependency} (h : Incident id items)
    (h' : Incident id items') : Incident id (items ++ items') := by
  intro source target qualifiers hmem
  rcases List.mem_append.mp hmem with hmem | hmem
  · exact h _ _ _ hmem
  · exact h' _ _ _ hmem

theorem Declared.incident_ofSteps {steps : List (Step Dependency)} (h : ∀ step ∈ steps, step.Incident id) :
    Dependency.Incident id (ofSteps steps).items := by
  induction steps with
  | nil => exact fun _ _ _ hmem => by cases hmem
  | cons step rest ih =>
    have ih := ih fun step hstep => h step (List.mem_cons_of_mem _ hstep)
    have hstep := h step List.mem_cons_self
    cases step with
    | declare items => exact Dependency.Incident.append hstep ih
    | cancel => exact ih
    | fail e => exact fun _ _ _ hmem => by cases hmem

theorem Step.incident_reading {β : Type} (field : Except PluginError β) {items : β → List Dependency}
    (h : ∀ value, Dependency.Incident id (items value)) : (Step.reading field items).Incident id := by
  cases field with
  | ok value => exact h value
  | error e => trivial

end Incident

namespace Bundled

theorem incident_entrypoint (id : NodeId) : Dependency.Incident id [.entrypoint] := by
  intro source target qualifiers hmem
  simp at hmem

theorem incident_needs (n : Subject) (qualifiers : Qualifiers) (targets : List NodeId) :
    Dependency.Incident n.id (needs n qualifiers targets) := by
  intro source target q hmem
  obtain ⟨t, -, he⟩ := List.mem_map.mp hmem
  cases he
  exact Or.inl rfl

/-- The edges by which other nodes need this one. -/
theorem incident_neededBy (id : NodeId) (qualifiers : Qualifiers) (sources : List NodeId) :
    Dependency.Incident id (sources.map fun source => .edge source id qualifiers) := by
  intro source target q hmem
  obtain ⟨s, -, he⟩ := List.mem_map.mp hmem
  cases he
  exact Or.inr rfl

theorem incident_rendererSteps (n : Subject) : ∀ step ∈ rendererSteps n, step.Incident n.id := by
  simp only [rendererSteps, List.mem_cons, List.not_mem_nil, or_false, forall_eq_or_imp, forall_eq]
  exact ⟨incident_entrypoint _, Step.incident_reading _ fun _ => incident_needs _ _ _⟩

section Records
variable {v v' : SceneView} {id : NodeId}

theorem reference_eq (h : v.SameRecord v' id) (name : String) :
    Subject.reference ⟨v', id⟩ name = Subject.reference ⟨v, id⟩ name := by
  simp only [Subject.reference, Subject.field?, h.field]

theorem references_eq (h : v.SameRecord v' id) (name : String) :
    Subject.references ⟨v', id⟩ name = Subject.references ⟨v, id⟩ name := by
  simp only [Subject.references, Subject.field?, h.field]

theorem requiredReferences_eq (h : v.SameRecord v' id) (name : String) :
    Subject.requiredReferences ⟨v', id⟩ name = Subject.requiredReferences ⟨v, id⟩ name := by
  simp only [Subject.requiredReferences, Subject.field?, h.field, references_eq h]

theorem parent?_eq (h : v.SameRecord v' id) : Subject.parent? ⟨v', id⟩ = Subject.parent? ⟨v, id⟩ := h.parent

theorem effectiveRoot_eq (h : v.SameRecord v' id) : effectiveRoot ⟨v', id⟩ = effectiveRoot ⟨v, id⟩ := by
  simp only [effectiveRoot, reference_eq h, parent?_eq h]

end Records

theorem readsOwnRecord_of_mem {entry : TypeName × Plugin} (h : entry ∈ registrations) : entry.2.ReadsOwnRecord := by
  intro v v' id hr
  have hneeds : needs ⟨v', id⟩ = needs ⟨v, id⟩ := rfl
  simp only [registrations, List.mem_cons, List.not_mem_nil, or_false] at h
  rcases h with rfl | rfl | rfl | rfl | rfl | rfl | rfl | rfl | rfl <;>
    simp only [transform, behaviour, animator, renderer, rendererSteps, skinnedMeshRenderer, constraint, physBone,
      physBoneCollider, avatarDescriptor, Plugin.steps, reference_eq hr, references_eq hr, requiredReferences_eq hr,
      parent?_eq hr, effectiveRoot_eq hr, hneeds, and_self]

theorem declaresIncident_of_mem {entry : TypeName × Plugin} (h : entry ∈ registrations) :
    entry.2.DeclaresIncident := by
  intro v id
  have hentry : (Step.declare [.entrypoint]).Incident id := incident_entrypoint id
  have hfield : ∀ {β : Type} (field : Except PluginError β) q (targets : β → List NodeId),
      (Step.reading field fun value => needs ⟨v, id⟩ q (targets value)).Incident id :=
    fun field q targets => Step.incident_reading field fun value => incident_needs ⟨v, id⟩ q (targets value)
  have hfields : ∀ (field : Except PluginError (List NodeId)) q,
      (Step.reading field (needs ⟨v, id⟩ q)).Incident id := fun field q => hfield field q fun targets => targets
  simp only [registrations, List.mem_cons, List.not_mem_nil, or_false] at h
  rcases h with rfl | rfl | rfl | rfl | rfl | rfl | rfl | rfl | rfl <;> apply Declared.incident_ofSteps <;>
    try simp only [List.forall_mem_append, List.forall_mem_cons, List.not_mem_nil, IsEmpty.forall_iff, implies_true, and_true]
  · exact hentry
  · exact ⟨hentry, hfield _ _ _⟩
  · exact incident_rendererSteps ⟨v, id⟩
  · exact ⟨incident_rendererSteps ⟨v, id⟩, hfield _ _ _, hfields _ _⟩
  · exact ⟨incident_neededBy id _ _, hfields _ _⟩
  · exact ⟨Step.incident_reading _ fun _ => (incident_neededBy id _ _).append (incident_needs ⟨v, id⟩ _ _),
      hfields _ _⟩
  · exact hfield _ _ _
  · exact ⟨hentry, hfield _ _ _⟩

/-- The bundled plugins read the record of their node and declare edges of their node. -/
theorem isLocal_registry : registry.IsLocal := by
  have hentries : registry.plugins.entries = registrations := OrderedMap.entries_ofList (by decide)
  intro entry hentry
  rw [hentries] at hentry
  exact ⟨readsOwnRecord_of_mem hentry, declaresIncident_of_mem hentry⟩

def collector : Collector where
  registry := registry
  rules := entrypoints

theorem isLocal_collector : collector.IsLocal where
  registry := isLocal_registry
  predicates := by
    intro p hp v v' id hr
    obtain rfl := List.mem_singleton.mp hp
    have hfield : Subject.field? ⟨v', id⟩ keepField = Subject.field? ⟨v, id⟩ keepField := hr.field keepField
    simp only [hfield]

end Bundled

end ScenePrune
